import Mathlib.Logic.Relation
import Sqf.Proofs.Check.Course
import Sqf.Proofs.Check.ScopeTree
import Sqf.Proofs.Scope

/-!
# Scopes are encapsulated

All scopes are kept in one array, and an assignment looks for its local along the way out. So the
check of something in a scope reaches just the scopes on this way, and further out it only gives
other types to names that are bound there (`Framed`). A scope that is on no way out any more, as
those are that were opened for a block, is never changed again (`Off`). With both,
`blocks_encapsulated` says what the check of a code block changes, and for how long.
-/

namespace Sqf

/-! ## Scopes with new types -/

/-- A scope with the same place and the same names. Where a type differs, the name may be given the
new one. -/
structure Scope.Rebound (given : String → ValueType → Prop) (s t : Scope) : Prop where
  id_eq : t.id = s.id
  parent_eq : t.parent = s.parent
  names_eq : t.locals.map Prod.fst = s.locals.map Prod.fst
  types : ∀ key, t.find? key = s.find? key ∨ ∃ type, t.find? key = some type ∧ given key type

namespace Scope.Rebound

variable {given : String → ValueType → Prop} {s t u : Scope}

/-- A scope in which nothing changes. -/
theorem refl (s : Scope) : s.Rebound given s := ⟨rfl, rfl, rfl, fun _ => .inl rfl⟩

/-- Names keep being bound when a scope changes twice, and each has a type that one of the changes
gave, or the one it had. -/
theorem trans (h : s.Rebound given t) (h' : t.Rebound given u) : s.Rebound given u := by
  refine ⟨h'.id_eq.trans h.id_eq, h'.parent_eq.trans h.parent_eq, h'.names_eq.trans h.names_eq,
    fun key => ?_⟩
  rcases h'.types key with hsame | hgiven
  · rw [hsame]
    exact h.types key
  · exact .inr hgiven

/-- More types may be given. -/
theorem mono {others : String → ValueType → Prop} (h : s.Rebound given t)
    (himp : ∀ key type, given key type → others key type) : s.Rebound others t :=
  ⟨h.id_eq, h.parent_eq, h.names_eq, fun key =>
    (h.types key).imp_right fun ⟨type, htype, hgiven⟩ => ⟨type, htype, himp key type hgiven⟩⟩

end Scope.Rebound

/-- A name that is there already keeps its place. -/
theorem Scope.map_fst_bindIn {key : String} (type : ValueType) {locals : List (String × ValueType)}
    (h : (locals.lookup key).isSome = true) :
    (bindIn key type locals).map Prod.fst = locals.map Prod.fst := by
  induction locals with
  | nil => cases h
  | cons entry locals ih =>
    obtain ⟨k, t⟩ := entry
    by_cases hk : k = key
    · simp [bindIn, hk]
    · have hb : (key == k) = false := by simp [Ne.symm hk]
      rw [List.lookup_cons, hb] at h
      simp [bindIn, hk, ih h]

/-- Binding a name that is bound gives it another type, and that is all. -/
theorem Scope.rebound_bind {given : String → ValueType → Prop} {s : Scope} {name : String}
    {type : ValueType} (h : (s.find? name.toLower).isSome = true)
    (hgiven : given name.toLower type) : s.Rebound given (s.bind name type) := by
  refine ⟨rfl, rfl, map_fst_bindIn type h, fun key => ?_⟩
  have hfind : (s.bind name type).find? key =
      if key = name.toLower then some type else s.find? key :=
    lookup_bindIn name.toLower key type s.locals
  rw [hfind]
  split
  · next hkey => exact .inr ⟨type, rfl, hkey ▸ hgiven⟩
  · exact .inl rfl

namespace Check

/-! ## What a check reaches -/

/-- The check of something in the scope at index `here` opens scopes, and of those that were there
it changes only the ones on the way out. With the exception of its own scope, these have the same
names as before, and their names other types only as given. -/
structure Framed (given : String → ValueType → Prop) (here own : Nat) (s t : State) : Prop where
  frame : s.scopes.frame <+: t.scopes.frame
  elsewhere : ∀ i < s.scopes.all.size, i ∉ s.scopes.path here →
    t.scopes.all[i]? = s.scopes.all[i]?
  around : ∀ i ∈ s.scopes.path here, i ≠ own → ∀ x, s.scopes.all[i]? = some x →
    ∃ y, t.scopes.all[i]? = some y ∧ x.Rebound given y

namespace Framed

variable {given : String → ValueType → Prop} {here own : Nat} {s t u : State}

/-- What leaves the scopes alone reaches none. -/
theorem of_scopes_eq (h : t.scopes = s.scopes) : Framed given here own s t := by
  refine ⟨h ▸ List.prefix_refl s.scopes.frame, fun i _ _ => by rw [h], fun i _ _ x hx => ?_⟩
  rw [h]
  exact ⟨x, hx, .refl x⟩

/-- Doing nothing reaches no scope. -/
theorem refl (s : State) : Framed given here own s s := of_scopes_eq rfl

/-- Scopes are never taken away. -/
theorem size_le (h : Framed given here own s t) : s.scopes.all.size ≤ t.scopes.all.size :=
  Scopes.size_le_of_frame h.frame

/-- The way out of a scope that is there stays the same. -/
theorem path (h : Framed given here own s t) {i : Nat} (hi : i < s.scopes.all.size) :
    t.scopes.path i = s.scopes.path i :=
  Scopes.path_of_frame h.frame hi

/-- What two checks reach one after the other is within the same frame: the ways out are the same
for both. -/
theorem trans (hhere : here < s.scopes.all.size) (h : Framed given here own s t)
    (h' : Framed given here own t u) : Framed given here own s u := by
  have hpath := h.path hhere
  refine ⟨h.frame.trans h'.frame, fun i hi hout => ?_, fun i hi hne x hx => ?_⟩
  · rw [h'.elsewhere i (Nat.lt_of_lt_of_le hi h.size_le) (hpath ▸ hout), h.elsewhere i hi hout]
  · obtain ⟨y, hy, hxy⟩ := h.around i hi hne x hx
    obtain ⟨z, hz, hyz⟩ := h'.around i (hpath ▸ hi) hne y hy
    exact ⟨z, hz, hxy.trans hyz⟩

/-- More types may be given. -/
theorem mono {others : String → ValueType → Prop} (h : Framed given here own s t)
    (himp : ∀ key type, given key type → others key type) : Framed others here own s t := by
  refine ⟨h.frame, h.elsewhere, fun i hi hne x hx => ?_⟩
  obtain ⟨y, hy, hxy⟩ := h.around i hi hne x hx
  exact ⟨y, hy, hxy.mono himp⟩

/-- What is done in a scope that was opened on the way may as well be done here. -/
theorem widen (h : Framed given here own s t) (hown : own = here ∨ s.scopes.all.size ≤ own) :
    Framed given here here s t := by
  refine ⟨h.frame, h.elsewhere, fun i hi hne => h.around i hi ?_⟩
  rcases hown with rfl | hown
  · exact hne
  · exact Nat.ne_of_lt (Nat.lt_of_lt_of_le (Scopes.lt_size_of_mem_path hi) hown)

/-- What is done in a scope that is opened here. -/
theorem enclose (hhere : here < s.scopes.all.size) {id : Nat}
    (h : Framed given s.scopes.all.size s.scopes.all.size (stateFor here s (some id)) t) :
    Framed given here s.scopes.all.size s t := by
  -- Opening a scope leaves those that are there as they are, and puts the new one in front of the
  -- way out.
  have hold {i : Nat} (hi : i < s.scopes.all.size) :
      (stateFor here s (some id)).scopes.all[i]? = s.scopes.all[i]? :=
    Scopes.getElem?_enter id here hi
  have hpath : (stateFor here s (some id)).scopes.path s.scopes.all.size =
      s.scopes.all.size :: s.scopes.path here :=
    Scopes.path_enter_size id hhere
  have hframe : s.scopes.frame <+: (stateFor here s (some id)).scopes.frame :=
    Scopes.frame_prefix_enter id here
  refine ⟨hframe.trans h.frame, fun i hi hout => ?_, fun i hi hne x hx => ?_⟩
  · rw [← hold hi]
    refine h.elsewhere i (Nat.lt_of_lt_of_le hi (Scopes.size_le_of_frame hframe)) ?_
    rw [hpath]
    exact List.not_mem_cons_of_ne_of_not_mem (Nat.ne_of_lt hi) hout
  · rw [← hold (Scopes.lt_size_of_mem_path hi)] at hx
    exact h.around i (hpath ▸ List.mem_cons_of_mem _ hi) hne x hx

/-- A name gets a type in a scope on the way out, where it is bound already if this is not the own
one. -/
theorem bindAt {index : Nat} {name : String} {type : ValueType}
    (hindex : index ∈ s.scopes.path here)
    (hbound : index ≠ own → s.scopes.Has index name.toLower ∧ given name.toLower type) :
    Framed given here own s { s with scopes := s.scopes.bindAt index name type } := by
  refine ⟨Scopes.frame_prefix_bindAt index name type, fun i _ hout => ?_, fun i _ hne x hx => ?_⟩
  · have hne : index ≠ i := fun heq => hout (heq ▸ hindex)
    simp only [Scopes.getElem?_bindAt, if_neg hne]
  · simp only [Scopes.getElem?_bindAt, hx, Option.map_some]
    split
    · next heq =>
      obtain ⟨⟨y, hy, hhas⟩, hgiven⟩ := hbound (heq ▸ hne)
      rw [heq, hx] at hy
      cases hy
      exact ⟨_, rfl, Scope.rebound_bind hhas hgiven⟩
    · exact ⟨x, rfl, .refl x⟩

/-- A declaration changes the scope it is made in. -/
theorem declare (hhere : here < s.scopes.all.size) (name : String) (type : ValueType) :
    Framed given here here s (Check.declare here name type s).2 :=
  bindAt (Scopes.mem_path_self hhere) fun hne => absurd rfl hne

/-- An assignment changes the nearest scope that has the local, or else the one it is made in. -/
theorem assign (hhere : here < s.scopes.all.size) {name : String} {type : ValueType}
    (hgiven : given name.toLower type) :
    Framed given here here s (Check.assign here name type s).2 := by
  rw [assign_eq]
  cases hfound : s.scopes.resolve here name with
  | none => exact declare hhere name type
  | some found =>
    obtain ⟨hindex, hhas⟩ := Scopes.of_resolveKey hfound
    exact bindAt hindex fun _ => ⟨hhas, hgiven⟩

end Framed

/-- In the course of a visit, an assignment that is not private gives a type to a name. -/
inductive Visit.Gives (cx : Context) : Visit → String → ValueType → Prop
  | own {v w : Visit} {n : Name} (htarget : v.subject.target? = some n) (hw : w ∈ v.inside cx) :
      Gives cx v n.normalized (w.type cx)
  | inside {v w : Visit} {key : String} {type : ValueType} (hw : w ∈ v.inside cx)
      (h : Gives cx w key type) : Gives cx v key type

section Visits

variable {cx : Context} {given : String → ValueType → Prop} {here : Nat} {s t : State}

/-- A visit works in the scope it starts in or in a new one. -/
theorem Visit.scope_cases (v : Visit) :
    v.scope = v.here ∨ v.state.scopes.all.size ≤ v.scope := by
  unfold Visit.scope scopeFor
  split
  · exact .inr (Nat.le_refl _)
  · exact .inl rfl

/-- Choosing an overload leaves the scopes alone. -/
theorem scopes_resultType (command : Name) (arity : Arity) (operands : List (ValueType × Span))
    (s : State) : (resultType cx command arity operands s).2.scopes = s.scopes := by
  unfold resultType
  cases cx.table.resolve command.text arity (operands.map (·.1)) <;> rfl

/-- What is done in a scope is framed if the visits are. An assignment may give any type, as far as
the steps go. -/
theorem Course.framed_of {a : Subject} {vs : List Visit} (h : Course cx a here s vs t)
    (hhere : here < s.scopes.all.size) (hgiven : a.target? ≠ none → ∀ key type, given key type)
    (hvs : ∀ v ∈ vs, v.here < v.state.scopes.all.size →
      Framed given v.here v.scope v.state (v.after cx)) : Framed given here here s t := by
  -- The induction follows the course. A step stays within the frame by itself, and a visit by
  -- assumption.
  induction h with
  | refl => exact .refl s
  | report _ span _ ih => exact (ih hvs).trans hhere (.of_scopes_eq rfl)
  | resolve _ command arity operands _ ih =>
    exact (ih hvs).trans hhere (.of_scopes_eq (scopes_resultType command arity operands _))
  | declare _ name type ih =>
    have hst := ih hvs
    exact hst.trans hhere (.declare (Nat.lt_of_lt_of_le hhere hst.size_le) name type)
  | assign _ name type htarget ih =>
    have hst := ih hvs
    exact hst.trans hhere (.assign (Nat.lt_of_lt_of_le hhere hst.size_le) (hgiven htarget _ type))
  | @visit t vs _ b _ ih =>
    obtain ⟨hvs, hlast⟩ := List.forall_mem_append.1 hvs
    have hst := ih hvs
    have hlt := Nat.lt_of_lt_of_le hhere hst.size_le
    have hvisit := hlast ⟨here, b, t⟩ (List.mem_singleton_self _) hlt
    exact hst.trans hhere (hvisit.widen (Visit.scope_cases _))

/-- An assignment gives its local the type of the value. -/
theorem after_of_target {v : Visit} {n : Name} (h : v.subject.target? = some n) :
    ∃ w, v.inside cx = [w] ∧ w.here = v.here ∧ w.state = v.state ∧ v.scope = v.here ∧
      v.after cx = (assign v.here n.text (w.type cx) (w.after cx)).2 := by
  obtain ⟨here, a, s⟩ := v
  -- Only an assignment to a local that is not declared by it has a target.
  unfold Subject.target? at h
  split at h
  · next target value span heq =>
    cases heq
    split at h
    · next hlocal =>
      cases h
      have hvisits : Visiting.stmt cx here (.assignment false n value span) = (do
          let type ← Visiting.visit cx here (.expr value)
          assign here n.text type
          return .nothing) := by
        simp only [Visiting.stmt, hlocal, Bool.false_eq_true, ↓reduceIte]
      have hcheck : stmt cx here (.assignment false n value span) = (do
          let type ← expr cx here value
          assign here n.text type
          return .nothing) := by
        simp only [stmt, hlocal, Bool.false_eq_true, ↓reduceIte]
      refine ⟨⟨here, .expr value, s⟩, ?_, rfl, rfl, rfl, ?_⟩
      · show (Visiting.stmt cx here (.assignment false n value span) [] s).1.2 = _
        rw [hvisits]
        rfl
      · show (stmt cx here (.assignment false n value span) s).2 = _
        rw [hcheck]
        rfl
    · cases h
  · cases h

/-- A visit reaches the scopes on its way out, and further out than its own it gives types by
assignments only. -/
theorem Visit.framed (v : Visit) (hhere : v.here < v.state.scopes.all.size) :
    Framed (v.Gives cx) v.here v.scope v.state (v.after cx) := by
  have hinside : ∀ w ∈ v.inside cx, w.here < w.state.scopes.all.size →
      Framed (v.Gives cx) w.here w.scope w.state (w.after cx) := fun w hw hplaced =>
    have hsize := (v.isAmong_of_inside cx hw).size_lt
    (w.framed hplaced).mono fun _ _ h => .inside hw h
  -- Just an assignment gives a type by itself: that of its value, which is the only visit it makes.
  cases htarget : v.subject.target? with
  | some n =>
    obtain ⟨w, hw, hwhere, hstate, hscope, hafter⟩ := @after_of_target cx v n htarget
    have hmem : w ∈ v.inside cx := hw ▸ List.mem_singleton_self w
    have hvalue := (hinside w hmem (by rwa [hwhere, hstate])).widen w.scope_cases
    rw [hwhere, hstate] at hvalue
    rw [hscope, hafter]
    exact hvalue.trans hhere
      (.assign (Nat.lt_of_lt_of_le hhere hvalue.size_le) (.own htarget hmem))
  | none =>
    have hnone : v.subject.target? ≠ none → ∀ key type, v.Gives cx key type :=
      fun hne => absurd htarget hne
    have hcourse := v.course cx
    unfold Visit.scope Visit.start at hcourse
    unfold Visit.scope
    cases hopens : v.subject.opens? with
    | none =>
      rw [hopens] at hcourse
      exact hcourse.framed_of hhere hnone hinside
    | some id =>
      rw [hopens] at hcourse
      have hlt : v.state.scopes.all.size < (stateFor v.here v.state (some id)).scopes.all.size := by
        show _ < (v.state.scopes.enter id v.here).all.size
        rw [Scopes.size_enter]
        exact Nat.lt_succ_self _
      exact (hcourse.framed_of hlt hnone hinside).enclose hhere
termination_by v.subject.size

/-- A course stays within the frame, whatever types it gives. -/
theorem Course.framed {a : Subject} {vs : List Visit} (h : Course cx a here s vs t)
    (hhere : here < s.scopes.all.size) : Framed (fun _ _ => True) here here s t :=
  h.framed_of hhere (fun _ _ _ => trivial) fun v _ hv => (v.framed hv).mono fun _ _ _ => trivial

end Visits

/-! ## Scopes that nothing reaches any more -/

/-- The check is in the scope at index `here`, and the scope at index `i` is not on the way out. -/
structure Off (i here : Nat) (s : State) : Prop where
  placed : here < s.scopes.all.size
  lt : i < s.scopes.all.size
  notMem : i ∉ s.scopes.path here

/-- The first visit is the second one, or it comes to it. -/
def Visit.Includes (cx : Context) : Visit → Visit → Prop :=
  Relation.ReflTransGen fun v w => w ∈ v.inside cx

section Later

variable {cx : Context} {given : String → ValueType → Prop} {i here own : Nat} {s t : State}
  {u v w : Visit}

/-- A scope that is off the way out is not changed, and stays off. -/
theorem Framed.off (h : Framed given here own s t) (hoff : Off i here s) :
    t.scopes.all[i]? = s.scopes.all[i]? ∧ Off i here t := by
  refine ⟨h.elsewhere i hoff.lt hoff.notMem, Nat.lt_of_lt_of_le hoff.placed h.size_le,
    Nat.lt_of_lt_of_le hoff.lt h.size_le, ?_⟩
  rw [h.path hoff.placed]
  exact hoff.notMem

/-- The scope in which the parts are checked is there when their check starts, and those before it
are as they were. -/
theorem Visit.placed_start (h : v.here < v.state.scopes.all.size) :
    v.scope < v.start.scopes.all.size ∧
      v.state.scopes.all.size ≤ v.start.scopes.all.size ∧
      (∀ i < v.state.scopes.all.size, v.start.scopes.all[i]? = v.state.scopes.all[i]?) ∧
      (v.scope = v.here ∧ v.start.scopes.path v.scope = v.state.scopes.path v.here ∨
        v.scope = v.state.scopes.all.size ∧
          v.start.scopes.path v.scope = v.scope :: v.state.scopes.path v.here) := by
  unfold Visit.scope Visit.start
  cases v.subject.opens? with
  | none => exact ⟨h, Nat.le_refl _, fun _ _ => rfl, .inl ⟨rfl, rfl⟩⟩
  | some id =>
    have hsize : (v.state.scopes.enter id v.here).all.size = v.state.scopes.all.size + 1 :=
      Scopes.size_enter id v.here
    refine ⟨hsize ▸ Nat.lt_succ_self _, hsize ▸ Nat.le_succ _, fun i hi =>
      Scopes.getElem?_enter id v.here hi, .inr ⟨rfl, Scopes.path_enter_size id h⟩⟩

/-- A scope that is off the way out stays off when a new one is opened. -/
theorem Off.start (h : Off i v.here v.state) :
    v.start.scopes.all[i]? = v.state.scopes.all[i]? ∧ Off i v.scope v.start := by
  obtain ⟨hscope, hsize, hold, hpath⟩ := Visit.placed_start h.placed
  refine ⟨hold i h.lt, hscope, Nat.lt_of_lt_of_le h.lt hsize, ?_⟩
  rcases hpath with ⟨-, hpath⟩ | ⟨hnew, hpath⟩
  · rw [hpath]
    exact h.notMem
  · rw [hpath, hnew]
    exact List.not_mem_cons_of_ne_of_not_mem (Nat.ne_of_lt h.lt) h.notMem

/-- A visit that is made inside starts somewhere in the course. -/
theorem Visit.course_to (hw : w ∈ v.inside cx) :
    w.here = v.scope ∧ ∃ before behind, Course cx v.subject v.scope v.start before w.state ∧
      Course cx v.subject v.scope (w.after cx) behind (v.after cx) := by
  obtain ⟨before, behind, hinside⟩ := List.append_of_mem hw
  have hcourse := v.course cx
  rw [hinside] at hcourse
  have hhere := (hcourse.forall_visit w (List.mem_append_right _ List.mem_cons_self)).1
  exact ⟨hhere, before, behind, hcourse.split.1, hcourse.split.2⟩

/-- What a visit does not reach is not reached inside either. -/
theorem Off.inside (h : Off i v.here v.state) (hw : w ∈ v.inside cx) :
    w.state.scopes.all[i]? = v.state.scopes.all[i]? ∧ Off i w.here w.state := by
  obtain ⟨hstart, hoff⟩ := h.start
  obtain ⟨hhere, before, _, hbefore, -⟩ := Visit.course_to hw
  obtain ⟨hsame, hoff⟩ := (hbefore.framed hoff.placed).off hoff
  rw [hhere]
  exact ⟨hsame.trans hstart, hoff⟩

/-- It is not changed by any visit inside, however deep. -/
theorem Off.includes (h : Off i v.here v.state) (hw : v.Includes cx w) :
    w.state.scopes.all[i]? = v.state.scopes.all[i]? ∧
      (w.after cx).scopes.all[i]? = v.state.scopes.all[i]? := by
  have hstate : w.state.scopes.all[i]? = v.state.scopes.all[i]? ∧ Off i w.here w.state := by
    induction hw with
    | refl => exact ⟨rfl, h⟩
    | tail _ hx ih =>
      obtain ⟨hsame, hoff⟩ := ih.2.inside hx
      exact ⟨hsame.trans ih.1, hoff⟩
  exact ⟨hstate.1, ((w.framed hstate.2.placed).off hstate.2).1.trans hstate.1⟩

/-- Visits inside a visit start in scopes that are there. -/
theorem Visit.Includes.placed (h : v.Includes cx w) (hv : v.here < v.state.scopes.all.size) :
    w.here < w.state.scopes.all.size := by
  induction h with
  | refl => exact hv
  | tail _ hx ih =>
    obtain ⟨hhere, before, _, hbefore, -⟩ := Visit.course_to hx
    have hscope := (Visit.placed_start ih).1
    rw [hhere]
    exact Nat.lt_of_lt_of_le hscope (hbefore.framed hscope).size_le

/-- The scope at an index is opened in the course of the visit. -/
structure Visit.Opened (cx : Context) (i : Nat) (v : Visit) : Prop where
  le : v.state.scopes.all.size ≤ i
  lt : i < (v.after cx).scopes.all.size

/-- Scopes that a visit has opened are on no way out behind it. -/
theorem Visit.Opened.off (hv : v.here < v.state.scopes.all.size) (hw : w ∈ v.inside cx)
    (hi : w.Opened cx i) : Off i v.scope (w.after cx) := by
  have hplaced : w.here < w.state.scopes.all.size :=
    Visit.Includes.placed (.tail .refl hw) hv
  obtain ⟨hhere, -⟩ := Visit.course_to hw
  have hframed := @Visit.framed cx w hplaced
  rw [hhere] at hplaced
  refine ⟨Nat.lt_of_lt_of_le hplaced hframed.size_le, hi.lt, fun hmem => ?_⟩
  rw [hframed.path hplaced] at hmem
  exact Nat.lt_irrefl _ (Nat.lt_of_lt_of_le (Scopes.lt_size_of_mem_path hmem) hi.le)

/-- A scope that was opened inside a visit was opened during the visit around it, and is not changed
up to its end. -/
theorem Visit.Opened.outer (hv : v.here < v.state.scopes.all.size) (hw : w ∈ v.inside cx)
    (hi : w.Opened cx i) :
    v.Opened cx i ∧ (v.after cx).scopes.all[i]? = (w.after cx).scopes.all[i]? := by
  obtain ⟨-, before, behind, hbefore, hbehind⟩ := Visit.course_to hw
  obtain ⟨hscope, hstart, -⟩ := Visit.placed_start hv
  have hoff := hi.off hv hw
  obtain ⟨hsame, hoff'⟩ := (hbehind.framed hoff.placed).off hoff
  exact ⟨⟨Nat.le_trans hstart (Nat.le_trans (hbefore.framed hscope).size_le hi.le), hoff'.lt⟩,
    hsame⟩

/-- The same for visits around it at any distance. -/
theorem Visit.Opened.includes (hv : v.here < v.state.scopes.all.size) (hw : v.Includes cx w)
    (hi : w.Opened cx i) :
    v.Opened cx i ∧ (v.after cx).scopes.all[i]? = (w.after cx).scopes.all[i]? := by
  induction hw with
  | refl => exact ⟨hi, rfl⟩
  | tail hinside hx ih =>
    obtain ⟨hopened, hsame⟩ := hi.outer (Visit.Includes.placed hinside hv) hx
    obtain ⟨hopened, hsame'⟩ := ih hopened
    exact ⟨hopened, hsame'.trans hsame⟩

/-- One visit behind another in the same course starts with the scopes that the other has opened as
they are. -/
theorem Visit.Opened.beside (hu : u.here < u.state.scopes.all.size)
    (h : [v, w].Sublist (u.inside cx)) (hi : v.Opened cx i) :
    w.state.scopes.all[i]? = (v.after cx).scopes.all[i]? ∧ Off i w.here w.state := by
  -- The course is cut in front of the second visit, and what comes between the two is a course as
  -- well.
  obtain ⟨front, back, hinside, hfront, hback⟩ := List.cons_sublist_iff.1 h
  obtain ⟨before, between, rfl⟩ := List.append_of_mem hfront
  obtain ⟨between', behind, rfl⟩ := List.append_of_mem (List.singleton_sublist.1 hback)
  have hv : v ∈ u.inside cx := h.subset List.mem_cons_self
  have hw : w ∈ u.inside cx := h.subset (List.mem_cons_of_mem _ (List.mem_singleton_self w))
  have hcourse := u.course cx
  rw [hinside, List.append_assoc, List.cons_append] at hcourse
  have hbehind := hcourse.split.2
  rw [← List.append_assoc] at hbehind
  have hoff := hi.off hu hv
  rw [(Visit.course_to hw).1]
  exact (hbehind.split.1.framed hoff.placed).off hoff

/-- In the check of a script, the second visit starts when the first one is over. -/
def Visit.Precedes (cx : Context) (p : Program) (v w : Visit) : Prop :=
  ∃ u v' w', (whole p).Includes cx u ∧ [v', w'].Sublist (u.inside cx) ∧
    v'.Includes cx v ∧ w'.Includes cx w

/-- The scope at an index is never changed in the check of a script once the visit is over: not by
the visits behind it, nor by the rest of those that it is made in. -/
structure Visit.Settles (cx : Context) (p : Program) (i : Nat) (v : Visit) : Prop where
  later : ∀ w, v.Precedes cx p w → w.state.scopes.all[i]? = (v.after cx).scopes.all[i]? ∧
    (w.after cx).scopes.all[i]? = (v.after cx).scopes.all[i]?
  outer : ∀ u, (whole p).Includes cx u → u.Includes cx v →
    (u.after cx).scopes.all[i]? = (v.after cx).scopes.all[i]?

variable {p : Program}

/-- Every visit of a script starts in a scope that is there. -/
theorem Visit.Includes.placed_whole (h : (whole p).Includes cx v) :
    v.here < v.state.scopes.all.size :=
  Visit.Includes.placed h Nat.one_pos

/-- The scopes that a visit opens are never changed once it is over. -/
theorem Visit.Opened.settles (hi : v.Opened cx i) : v.Settles cx p i := by
  refine ⟨fun w hw => ?_, fun u hu huv => (hi.includes hu.placed_whole huv).2⟩
  obtain ⟨u, v', w', hu, hbeside, hv, hw⟩ := hw
  have hu' := Visit.Includes.placed_whole hu
  have hv' : (whole p).Includes cx v' := .tail hu (hbeside.subset List.mem_cons_self)
  obtain ⟨hopened, hsame⟩ := hi.includes (Visit.Includes.placed_whole hv') hv
  obtain ⟨hstate, hoff⟩ := hopened.beside hu' hbeside
  obtain ⟨hwstate, hwafter⟩ := hoff.includes hw
  rw [hwstate, hwafter, hstate, hsame]
  exact ⟨rfl, rfl⟩

/-- Visits that are reached are those inside the visit of the whole. -/
theorem Reached.includes (h : Reached cx p v) : (whole p).Includes cx v := by
  induction h with
  | statement hv => exact .tail .refl hv
  | inside _ hw ih => exact .tail ih hw

/-! ## Code blocks -/

/-- A scope keeps its number. -/
theorem Framed.id_eq (h : Framed given here own s t) {id : Nat}
    (hi : (s.scopes.all[i]?).map Scope.id = some id) :
    (t.scopes.all[i]?).map Scope.id = some id := by
  obtain ⟨x, hx, -⟩ := Option.map_eq_some_iff.1 hi
  have hlt : i < s.scopes.all.size := (Array.getElem?_eq_some_iff.1 hx).1
  have hplace := congrArg (Option.map Prod.fst) (Scopes.place_of_frame h.frame hlt)
  rw [Option.map_map, Option.map_map] at hplace
  exact hplace.trans hi

/-- A visit that opens a scope gives it the number of its subject. -/
theorem Visit.id_start {id : Nat} (h : v.subject.opens? = some id) :
    (v.start.scopes.all[v.scope]?).map Scope.id = some id := by
  unfold Visit.start Visit.scope
  rw [h]
  show ((v.state.scopes.enter id v.here).all[v.state.scopes.all.size]?).map Scope.id = some id
  simp [Scopes.enter]

/-- A loop that starts with a block has the scope of this block. -/
theorem Subject.opens?_of_init {a : Subject} {b : Block} (h : a.init? = some (.block b)) :
    a.opens? = some b.id := by
  unfold Subject.init? at h
  split at h
  · exact controlScope?_of_init h
  · exact controlScope?_of_init h
  · cases h

/-- A subject is a block if the node it is at is one. -/
theorem Subject.IsAt.block?_eq {a : Subject} {n : Node} (h : a.IsAt n) : a.block? = n.block? := by
  cases h with
  | expr e => cases e <;> rfl
  | _ => rfl

/-- What the visit of a code block changes, and for how long. -/
structure Visit.Encapsulated (cx : Context) (p : Program) (b : Block) (v : Visit) : Prop where
  /-- The scope of the block has its number. -/
  own : ((v.after cx).scopes.all[v.scope]?).map Scope.id = some b.id
  /-- Scopes that are neither opened in the block nor around it stay as they are. -/
  elsewhere : ∀ i < v.state.scopes.all.size, i ∉ (v.after cx).scopes.path v.scope →
    (v.after cx).scopes.all[i]? = v.state.scopes.all[i]?
  /-- Scopes around that of the block keep their names, and a type that differs is one that an
  assignment in the block gives to the name. -/
  around : ∀ i ∈ (v.after cx).scopes.path v.scope, i ≠ v.scope →
    ∃ x y, v.state.scopes.all[i]? = some x ∧ (v.after cx).scopes.all[i]? = some y ∧
      x.Rebound (v.Gives cx) y
  /-- Scopes that are opened in the block are never changed once it is over. -/
  opened : ∀ i, v.Opened cx i → v.Settles cx p i
  /-- The scope of the block is one of these, or it is the scope of a loop that starts with the
  block, and never changed once the loop is over. -/
  settled : v.Opened cx v.scope ∨
    ∃ u, Reached cx p u ∧ v ∈ u.inside cx ∧ u.subject.init? = some (.block b) ∧
      u.scope = v.scope ∧ u.Settles cx p v.scope

/-- The scope that a visit opens at its start counts as opened during it. -/
theorem Visit.opened_scope (h : v.here < v.state.scopes.all.size) {id : Nat}
    (hopens : v.subject.opens? = some id) : v.Opened cx v.scope := by
  have hscope : v.scope = v.state.scopes.all.size := by
    unfold Visit.scope
    rw [hopens]
    rfl
  have hlt := (Visit.placed_start h).1
  exact ⟨Nat.le_of_eq hscope.symm, Nat.lt_of_lt_of_le hlt ((v.course cx).framed hlt).size_le⟩

/-- Only what a loop starts with is checked in the scope that is there. -/
theorem Reached.exists_loop (h : Reached cx p v) {b : Block} (hb : v.subject.inline? = some b) :
    ∃ u, Reached cx p u ∧ v ∈ u.inside cx ∧ u.subject.init? = some (.block b) := by
  cases h with
  | statement hv =>
    have hinit := (((whole p).course cx).forall_visit v hv).2 b hb
    cases hinit
  | @inside u _ hu hw => exact ⟨u, hu, hw, ((u.course cx).forall_visit v hw).2 b hb⟩

/-- A block is checked in a scope that is opened for it, or else it is what a loop starts with, and
the scope of this loop has its number. -/
theorem Reached.block_cases (h : Reached cx p v) {b : Block} (hb : v.subject.block? = some b) :
    v.subject.opens? = some b.id ∨
      ∃ u, Reached cx p u ∧ v ∈ u.inside cx ∧ u.subject.init? = some (.block b) ∧
        u.subject.opens? = some b.id ∧ u.scope = v.scope := by
  -- Only a block that a loop starts with is checked without a scope of its own.
  cases hinline : v.subject.inline? with
  | none =>
    left
    unfold Subject.block? at hb
    split at hb
    · next heq => rw [heq, ← Option.some.inj hb]; rfl
    · next heq => rw [heq, ← Option.some.inj hb]; rfl
    · next heq => rw [heq] at hinline; cases hinline
    · cases hb
  | some b' =>
    right
    obtain ⟨u, hu, hw, hinit⟩ := h.exists_loop hinline
    obtain ⟨here, a, s⟩ := v
    cases a with
    | inline b'' =>
      cases hinline
      cases hb
      exact ⟨u, hu, hw, hinit, Subject.opens?_of_init hinit, (Visit.course_to hw).1.symm⟩
    | _ => cases hinline

/-- What is said of a code block holds of every visit of one. -/
theorem Reached.encapsulated (hv : Reached cx p v) {b : Block} (hb : v.subject.block? = some b) :
    v.Encapsulated cx p b := by
  have hplaced := hv.includes.placed_whole
  -- The way out of the scope of the block is the one of the visit, with one more scope in front if
  -- it has been opened here.
  obtain ⟨hscope, -, -, hpath⟩ := Visit.placed_start hplaced
  have hframed := @Visit.framed cx v hplaced
  have hcourse := (v.course cx).framed hscope
  rw [← hcourse.path hscope] at hpath
  refine ⟨?_, fun i hi hout => hframed.elsewhere i hi ?_, fun i hi hne => ?_,
    fun i hi => hi.settles, ?_⟩
  · rcases hv.block_cases hb with hopens | ⟨u, hu, hw, -, hopens, hsame⟩
    · exact hcourse.id_eq (v.id_start hopens)
    · -- The scope of the loop has kept its number up to the block that the loop starts with.
      obtain ⟨-, before, _, hbefore, -⟩ := Visit.course_to hw
      have hstate := (hbefore.framed (Visit.placed_start hu.includes.placed_whole).1).id_eq
        (u.id_start hopens)
      rw [← hsame]
      exact hframed.id_eq hstate
  · rcases hpath with ⟨-, hpath⟩ | ⟨-, hpath⟩
    · rwa [hpath] at hout
    · exact fun hmem => hout (hpath ▸ List.mem_cons_of_mem _ hmem)
  · have hmem : i ∈ v.state.scopes.path v.here := by
      rcases hpath with ⟨-, hpath⟩ | ⟨-, hpath⟩
      · rwa [hpath] at hi
      · rw [hpath] at hi
        exact (List.mem_cons.1 hi).resolve_left hne
    have hx := Array.getElem?_eq_getElem (Scopes.lt_size_of_mem_path hmem)
    obtain ⟨y, hy, hxy⟩ := hframed.around i hmem hne _ hx
    exact ⟨_, y, hx, hy, hxy⟩
  · rcases hv.block_cases hb with hopens | ⟨u, hu, hw, hinit, hopens, hsame⟩
    · exact .inl (v.opened_scope hplaced hopens)
    · have hsettles : u.Settles cx p u.scope :=
        (u.opened_scope hu.includes.placed_whole hopens).settles
      exact .inr ⟨u, hu, hw, hinit, hsame, hsame ▸ hsettles⟩

end Later

end Check

/-- The check comes to every code block of a script, and wherever it comes to one, the block is
encapsulated: it changes its own scope, those it opens and those around its own, and in the ones
around only types, by assignments to names that are bound there. The scopes it opens are never
changed again, and neither is its own, unless it is what a loop starts with: then this scope is that
of the loop, and never changed again once the loop is over. -/
theorem blocks_encapsulated (table : Table) (settings : Settings) (p : Program) :
    let cx : Check.Context := ⟨table, settings⟩
    (∀ n ∈ (Node.program p).walk, ∀ b, n.block? = some b →
      ∃ v, Check.Reached cx p v ∧ v.subject.IsAt n ∧ v.subject.block? = some b) ∧
    ∀ v b, Check.Reached cx p v → v.subject.block? = some b → v.Encapsulated cx p b := by
  intro cx
  refine ⟨fun n hn b hb => ?_, fun v b hv hb => hv.encapsulated hb⟩
  have hne : n ≠ .program p := by
    rintro rfl
    cases hb
  obtain ⟨v, hv, hat⟩ := @Check.exists_reached cx p n hn hne
  exact ⟨v, hv, hat, hat.block?_eq.trans hb⟩

/-- A loop starts with a block that binds a number, and its third part makes this a string. -/
theorem init_block_changed :
    let cx : Check.Context := ⟨.empty, {}⟩
    let p := (parseSource .empty
      "for [\x7b_i = 0\x7d, \x7btrue\x7d, \x7b_i = \"a\"\x7d] do \x7b\x7d").program
    let locals (s : Check.State) (i : Nat) := (s.scopes.all[i]?).map fun scope =>
      scope.locals.map fun (name, type) => (name, type.displayName)
    ∃ v b, Check.Reached cx p v ∧ v.subject.block? = some b ∧
      locals (v.after cx) v.scope = some [("_i", "Number")] ∧
      locals (Check.program cx p {}).2 v.scope = some [("_i", "String")] ∧
      ¬ v.Settles cx p v.scope := by
  intro cx p locals
  -- The block is found by running the check.
  have hfound : ∃ u ∈ Check.visits cx p, ∃ v ∈ u.inside cx, v.subject.block?.isSome = true ∧
      locals (v.after cx) v.scope = some [("_i", "Number")] ∧
      locals (Check.program cx p {}).2 v.scope = some [("_i", "String")] := by
    decide +kernel
  obtain ⟨u, hu, v, hv, hblock, hafter, hfinal⟩ := hfound
  obtain ⟨b, hb⟩ := Option.isSome_iff_exists.1 hblock
  have hreached : Check.Reached cx p v := .inside (.statement hu) hv
  refine ⟨v, b, hreached, hb, hafter, hfinal, fun hsettles => ?_⟩
  have hsame := hsettles.outer (Check.whole p) .refl hreached.includes
  rw [Check.whole_after] at hsame
  have hlocals : locals (Check.program cx p {}).2 v.scope = locals (v.after cx) v.scope :=
    congrArg (Option.map _) hsame
  rw [hafter, hfinal] at hlocals
  exact absurd hlocals (by decide)

end Sqf
