import Sqf.Scope

/-!
# The way out of a scope

`Scopes.path` lists the scopes around a scope, from the inside out. It depends on
the places of scopes only (`Scopes.frame`), and opening scopes or binding names
moves none. A name is found from a scope if one on its path has it (`Visible`), so
binding a name makes it visible from just those scopes whose path goes through the
one it is bound in.
-/

namespace Sqf.Scopes

/-- The indices of the scope at an index and of those around it, from the inside out. -/
def path (ss : Scopes) (index : Nat) : List Nat :=
  match ss.all[index]? with
  | none => []
  | some s =>
    match s.parent with
    | some p => if p < index then index :: path ss p else [index]
    | none => [index]
termination_by index

/-- The scope at an index has a name, which is given in lower case. -/
def Has (ss : Scopes) (index : Nat) (key : String) : Prop :=
  ∃ s, ss.all[index]? = some s ∧ (s.find? key).isSome = true

/-- The name is bound in the scope at an index or around it. -/
def Visible (ss : Scopes) (index : Nat) (key : String) : Prop :=
  ∃ i ∈ ss.path index, ss.Has i key

variable {ss : Scopes} {i j : Nat} {key : String}

/-- A scope that is not there has no way out. -/
theorem path_of_ge (h : ss.all.size ≤ i) : ss.path i = [] := by
  rw [path, Array.getElem?_eq_none h]

/-- The path of a scope starts with it, and goes on with the path of another scope, if at all. -/
theorem path_cases (h : i < ss.all.size) :
    ss.path i = [i] ∨ ∃ p < i, ss.path i = i :: ss.path p := by
  rw [path, Array.getElem?_eq_getElem h]
  simp only
  split
  · next p _ =>
    by_cases hp : p < i
    · rw [if_pos hp]
      exact .inr ⟨p, hp, rfl⟩
    · rw [if_neg hp]
      exact .inl rfl
  · exact .inl rfl

/-- The way out starts at the scope itself. -/
theorem mem_path_self (h : i < ss.all.size) : i ∈ ss.path i := by
  rcases path_cases h with h | ⟨p, _, h⟩
  · rw [h]
    exact List.mem_singleton_self i
  · rw [h]
    exact List.mem_cons_self

/-- It goes through scopes that are there. -/
theorem lt_size_of_mem_path {i : Nat} (h : j ∈ ss.path i) : j < ss.all.size := by
  by_cases hi : i < ss.all.size
  · rcases path_cases hi with hpath | ⟨p, hp, hpath⟩
    · rw [hpath, List.mem_singleton] at h
      exact h ▸ hi
    · rw [hpath, List.mem_cons] at h
      rcases h with rfl | h
      · exact hi
      · exact lt_size_of_mem_path h
  · rw [path_of_ge (Nat.le_of_not_lt hi)] at h
    cases h
termination_by i

/-- From any scope on it, it goes on like the way out of that one. -/
theorem path_suffix_of_mem {i : Nat} (h : j ∈ ss.path i) : ss.path j <:+ ss.path i := by
  by_cases hi : i < ss.all.size
  · rcases path_cases hi with hpath | ⟨p, hp, hpath⟩
    · rw [hpath, List.mem_singleton] at h
      exact h ▸ List.suffix_refl _
    · rw [hpath, List.mem_cons] at h
      rcases h with rfl | h
      · exact List.suffix_refl _
      · rw [hpath]
        exact (path_suffix_of_mem h).trans (List.suffix_cons _ _)
  · rw [path_of_ge (Nat.le_of_not_lt hi)] at h
    cases h
termination_by i

/-- A scope is around another one just if its path ends the path of that one. -/
theorem mem_path_iff (h : j < ss.all.size) : j ∈ ss.path i ↔ ss.path j <:+ ss.path i := by
  constructor
  · exact path_suffix_of_mem
  · intro hsuffix
    exact hsuffix.subset (mem_path_self h)

/-! ## Places of scopes -/

/-- The number of each scope and the scope around it, the locals left aside. -/
def frame (ss : Scopes) : List (Nat × Option Nat) := ss.all.toList.map fun s => (s.id, s.parent)

/-- A new scope has its place behind all others. -/
theorem frame_enter (ss : Scopes) (id parent : Nat) :
    (ss.enter id parent).frame = ss.frame ++ [(id, some parent)] := by
  simp [frame, enter]

/-- Binding a name moves no scope. -/
theorem frame_bindAt (ss : Scopes) (index : Nat) (name : String) (type : ValueType) :
    (ss.bindAt index name type).frame = ss.frame := by
  apply List.ext_getElem?
  intro i
  simp only [frame, bindAt, List.getElem?_map, Array.getElem?_toList, Array.getElem?_modify]
  split
  · cases ss.all[i]? <;> rfl
  · rfl

theorem length_frame (ss : Scopes) : ss.frame.length = ss.all.size := by
  simp [frame]

theorem getElem?_frame (ss : Scopes) (i : Nat) :
    ss.frame[i]? = (ss.all[i]?).map fun s => (s.id, s.parent) := by
  simp [frame]

section Frame

variable {ss tt : Scopes} (h : ss.frame <+: tt.frame)

include h

theorem size_le_of_frame : ss.all.size ≤ tt.all.size := by
  rw [← length_frame, ← length_frame]
  exact h.length_le

/-- Scopes that are there stay where they are. -/
theorem place_of_frame {i : Nat} (hi : i < ss.all.size) :
    (tt.all[i]?).map (fun s => (s.id, s.parent)) = (ss.all[i]?).map fun s => (s.id, s.parent) := by
  obtain ⟨rest, hrest⟩ := h
  rw [← getElem?_frame, ← getElem?_frame, ← hrest, List.getElem?_append_left]
  rwa [length_frame]

/-- The way out of a scope depends on the places of scopes only. -/
theorem path_of_frame {i : Nat} (hi : i < ss.all.size) : tt.path i = ss.path i := by
  have hi' : i < tt.all.size := Nat.lt_of_lt_of_le hi (size_le_of_frame h)
  have hplace := place_of_frame h hi
  rw [Array.getElem?_eq_getElem hi, Array.getElem?_eq_getElem hi'] at hplace
  have hparent : tt.all[i].parent = ss.all[i].parent :=
    congrArg Prod.snd (Option.some.inj hplace)
  rw [path, path, Array.getElem?_eq_getElem hi, Array.getElem?_eq_getElem hi']
  simp only [hparent]
  split
  · next p _ =>
    by_cases hp : p < i
    · rw [if_pos hp, if_pos hp, path_of_frame (Nat.lt_trans hp hi)]
    · rw [if_neg hp, if_neg hp]
  · rfl
termination_by i

end Frame

/-! ## Looking for a name -/

/-- A name is looked for in the scope itself, then along the path. -/
theorem resolveKey_cases (key : String) (h : i < ss.all.size) :
    (ss.Has i key ∧ ∃ type, ss.resolveKey key i = some (i, type)) ∨
    ¬ ss.Has i key ∧ (ss.path i = [i] ∧ ss.resolveKey key i = none ∨
      ∃ p < i, ss.path i = i :: ss.path p ∧ ss.resolveKey key i = ss.resolveKey key p) := by
  have hi := Array.getElem?_eq_getElem h
  unfold Has
  rw [path, resolveKey, hi]
  simp only [Option.some.injEq, exists_eq_left']
  cases hfind : ss.all[i].find? key with
  | some type => exact .inl ⟨rfl, type, rfl⟩
  | none =>
    right
    refine ⟨by simp, ?_⟩
    cases ss.all[i].parent with
    | none => exact .inl ⟨rfl, rfl⟩
    | some p =>
      by_cases hp : p < i
      · simp only [hp, ↓reduceIte]
        exact .inr ⟨p, hp, rfl, rfl⟩
      · simp only [hp, ↓reduceIte]
        exact .inl ⟨trivial, trivial⟩

/-- Nothing is found from a scope that is not there. -/
theorem resolveKey_of_ge (h : ss.all.size ≤ i) : ss.resolveKey key i = none := by
  rw [resolveKey, Array.getElem?_eq_none h]

/-- What is found is bound in the scope or around it. -/
theorem of_resolveKey {i : Nat} {type : ValueType} (h : ss.resolveKey key i = some (j, type)) :
    j ∈ ss.path i ∧ ss.Has j key := by
  by_cases hi : i < ss.all.size
  · rcases resolveKey_cases key hi with
      ⟨hhas, type', hfound⟩ | ⟨_, ⟨_, hnone⟩ | ⟨p, hp, hpath, hout⟩⟩
    · rw [h] at hfound
      cases hfound
      exact ⟨mem_path_self hi, hhas⟩
    · rw [h] at hnone
      cases hnone
    · rw [hout] at h
      rcases of_resolveKey h with ⟨hmem, hhas⟩
      exact ⟨hpath ▸ List.mem_cons_of_mem _ hmem, hhas⟩
  · rw [resolveKey_of_ge (Nat.le_of_not_lt hi)] at h
    cases h
termination_by i

/-- What is not found is not visible. -/
theorem not_visible_of_resolveKey {i : Nat} (h : ss.resolveKey key i = none) :
    ¬ ss.Visible i key := by
  rintro ⟨j, hj, hhas⟩
  by_cases hi : i < ss.all.size
  · rcases resolveKey_cases key hi with
      ⟨_, type', hfound⟩ | ⟨hnot, ⟨hpath, _⟩ | ⟨p, hp, hpath, hout⟩⟩
    · rw [h] at hfound
      cases hfound
    · rw [hpath, List.mem_singleton] at hj
      exact hnot (hj ▸ hhas)
    · rw [hpath, List.mem_cons] at hj
      rcases hj with rfl | hj
      · exact hnot hhas
      · rw [hout] at h
        exact not_visible_of_resolveKey h ⟨j, hj, hhas⟩
  · rw [path_of_ge (Nat.le_of_not_lt hi)] at hj
    cases hj
termination_by i

/-! ## Opening scopes and binding names -/

theorem size_enter (id parent : Nat) : (ss.enter id parent).all.size = ss.all.size + 1 := by
  simp [enter]

theorem size_bindAt (name : String) (type : ValueType) :
    (ss.bindAt j name type).all.size = ss.all.size := by
  simp [bindAt]

/-- The other scopes stay as they are. -/
theorem getElem?_enter (id parent : Nat) {i : Nat} (h : i < ss.all.size) :
    (ss.enter id parent).all[i]? = ss.all[i]? := by
  simp [enter, Array.getElem?_push, Nat.ne_of_lt h]

theorem frame_prefix_enter (id parent : Nat) : ss.frame <+: (ss.enter id parent).frame := by
  rw [frame_enter]
  exact List.prefix_append _ _

/-- So do their ways out. -/
theorem path_enter (id parent : Nat) {i : Nat} (h : i < ss.all.size) :
    (ss.enter id parent).path i = ss.path i :=
  path_of_frame (frame_prefix_enter id parent) h

/-- The path of a scope that is opened leads into the scope around it. -/
theorem path_enter_size (id : Nat) {parent : Nat} (h : parent < ss.all.size) :
    (ss.enter id parent).path ss.all.size = ss.all.size :: ss.path parent := by
  have hnew : (ss.enter id parent).all[ss.all.size]? = some ⟨id, some parent, []⟩ := by
    simp [enter]
  rw [path, hnew]
  simp only [h, ↓reduceIte]
  rw [path_enter id parent h]

/-- A new scope has no names. -/
theorem has_enter (id parent : Nat) : (ss.enter id parent).Has i key ↔ ss.Has i key := by
  unfold Has
  by_cases h : i = ss.all.size
  · subst h
    simp [enter, Scope.find?]
  · simp [enter, Array.getElem?_push, h]

/-- Only one scope gets the name. -/
theorem getElem?_bindAt (name : String) (type : ValueType) (i : Nat) :
    (ss.bindAt j name type).all[i]? =
      if j = i then (ss.all[i]?).map fun s => s.bind name type else ss.all[i]? := by
  simp only [bindAt, Array.getElem?_modify]

theorem frame_prefix_bindAt (index : Nat) (name : String) (type : ValueType) :
    ss.frame <+: (ss.bindAt index name type).frame :=
  (ss.frame_bindAt index name type).symm ▸ List.prefix_refl ss.frame

/-- All ways out stay as they are. -/
theorem path_bindAt (name : String) (type : ValueType) (i : Nat) :
    (ss.bindAt j name type).path i = ss.path i := by
  by_cases hi : i < ss.all.size
  · exact path_of_frame (frame_prefix_bindAt j name type) hi
  · have hge := Nat.le_of_not_lt hi
    rw [path_of_ge hge, path_of_ge ((size_bindAt name type).symm ▸ hge)]

/-- A name is in a scope if it was there or has just been bound there. -/
theorem has_bindAt (name : String) (type : ValueType) :
    (ss.bindAt j name type).Has i key ↔
      ss.Has i key ∨ i = j ∧ j < ss.all.size ∧ key = name.toLower := by
  unfold Has
  rw [getElem?_bindAt]
  by_cases hj : j = i
  · subst hj
    by_cases hlt : j < ss.all.size
    · have hfind : (ss.all[j].bind name type).find? key =
          if key = name.toLower then some type else ss.all[j].find? key :=
        Scope.lookup_bindIn name.toLower key type ss.all[j].locals
      by_cases hkey : key = name.toLower
      · simp only [hkey, ↓reduceIte] at hfind
        simp [hlt, hkey, hfind]
      · simp only [hkey, ↓reduceIte] at hfind
        simp [hlt, hkey, hfind]
    · simp [hlt]
  · simp [hj, Ne.symm hj]

/-- A name that is bound becomes visible where the path leads through its scope. -/
theorem visible_bindAt {name : String} {type : ValueType} (hj : j < ss.all.size) :
    (ss.bindAt j name type).Visible i key ↔
      ss.Visible i key ∨ key = name.toLower ∧ j ∈ ss.path i := by
  unfold Visible
  rw [path_bindAt]
  constructor
  · rintro ⟨m, hm, hhas⟩
    rcases (has_bindAt name type).1 hhas with hhas | ⟨rfl, _, hkey⟩
    · exact .inl ⟨m, hm, hhas⟩
    · exact .inr ⟨hkey, hm⟩
  · rintro (⟨m, hm, hhas⟩ | ⟨hkey, hm⟩)
    · exact ⟨m, hm, (has_bindAt name type).2 (.inl hhas)⟩
    · exact ⟨j, hm, (has_bindAt name type).2 (.inr ⟨rfl, hj, hkey⟩)⟩

/-- A new scope makes nothing visible from the others. -/
theorem visible_enter (id parent : Nat) (h : i < ss.all.size) :
    (ss.enter id parent).Visible i key ↔ ss.Visible i key := by
  unfold Visible
  rw [path_enter id parent h]
  constructor
  · rintro ⟨m, hm, hhas⟩
    exact ⟨m, hm, (has_enter id parent).1 hhas⟩
  · rintro ⟨m, hm, hhas⟩
    exact ⟨m, hm, (has_enter id parent).2 hhas⟩

/-- From a scope that is opened the same names are visible as from the one around it. -/
theorem visible_enter_size (id : Nat) {parent : Nat} (h : parent < ss.all.size) :
    (ss.enter id parent).Visible ss.all.size key ↔ ss.Visible parent key := by
  unfold Visible
  rw [path_enter_size id h]
  constructor
  · rintro ⟨m, hm, hhas⟩
    rw [has_enter] at hhas
    rcases List.mem_cons.1 hm with rfl | hm
    · rcases hhas with ⟨s, hs, _⟩
      rw [Array.getElem?_eq_none (Nat.le_refl _)] at hs
      cases hs
    · exact ⟨m, hm, hhas⟩
  · rintro ⟨m, hm, hhas⟩
    exact ⟨m, List.mem_cons_of_mem _ hm, (has_enter id parent).2 hhas⟩

/-- What is visible from a scope is visible from all scopes inside of it. -/
theorem Visible.of_mem_path (h : ss.Visible j key) (hj : j ∈ ss.path i) : ss.Visible i key := by
  rcases h with ⟨m, hm, hhas⟩
  exact ⟨m, (path_suffix_of_mem hj).subset hm, hhas⟩

end Sqf.Scopes
