import Sqf.Config.Functions
import Sqf.Proofs.Config.SpanNesting

/-!
# Functions and their declarations

A function is declared by a class that is inside of three others, of which the outermost is
called `CfgFunctions`. The entries of a file may hold several classes of this name, and the
functions of a file are those that the first one declares (`functions_eq`): a class of this
name that stands behind it adds nothing, and if the first one is only announced there is no
function at all (`functions_behind_announcement`).
-/

namespace Sqf.Config

/-- A class and where it is declared. -/
structure Declaration where
  /-- The classes around it, outermost first. -/
  around : List Class
  declared : Class

namespace Declaration

/-- The same declaration inside of one more class. -/
def within (c : Class) (d : Declaration) : Declaration := { d with around := c :: d.around }

@[simp] theorem declared_within (c : Class) (d : Declaration) :
    (d.within c).declared = d.declared := rfl

@[simp] theorem around_within (c : Class) (d : Declaration) :
    (d.within c).around = c :: d.around := rfl

/-- The function that is declared by a class inside of a category, a tag and `CfgFunctions`. -/
def function? : Declaration → Option Function
  | ⟨[top, tag, category], f⟩ =>
    if sameName top.name "CfgFunctions" then
      some ⟨(tag.text? "tag").getD tag.name, category.name, f.name,
        (f.text? "file").or (category.text? "file")⟩
    else none
  | _ => none

end Declaration

mutual

/-- All classes of an entry, each behind the classes around it. -/
def Entry.declarations : Entry → List Declaration
  | .property _ => []
  | .nested c => c.declarations

def Class.declarations : Class → List Declaration
  | ⟨name, parent, entries, isForward, span⟩ =>
    ⟨[], ⟨name, parent, entries, isForward, span⟩⟩ ::
      (declarations entries).map (.within ⟨name, parent, entries, isForward, span⟩)

def declarations : List Entry → List Declaration
  | [] => []
  | e :: es => e.declarations ++ declarations es

end

/-- The functions declared anywhere in a file, in the order of their declarations. -/
def declaredFunctions (es : List Entry) : List Function :=
  (declarations es).filterMap Declaration.function?

/-- The classes of a file that declare functions. -/
def functionBlocks (es : List Entry) : List Class :=
  (classesOf es).filter fun c => sameName c.name "CfgFunctions"

/-- A class declares itself, and inside of it what its entries declare. -/
theorem Class.declarations_eq (c : Class) :
    c.declarations = ⟨[], c⟩ :: (Config.declarations c.entries).map (.within c) := by
  cases c
  rw [Class.declarations]

/-- Only classes declare something. -/
theorem declarations_eq_flatMap (es : List Entry) :
    declarations es = (classesOf es).flatMap Class.declarations := by
  induction es with
  | nil => rfl
  | cons e es ih =>
    rw [declarations, ih]
    cases e <;> rfl

/-! ## The functions of one block -/

/-- The functions declared by classes among entries that stand inside of the classes `around`. -/
def functionsIn (around : List Class) (es : List Entry) : List Function :=
  (declarations es).filterMap fun d => Declaration.function? ⟨around ++ d.around, d.declared⟩

/-- A class is a function, or there are some inside of it. -/
theorem functionsIn_eq (around : List Class) (es : List Entry) :
    functionsIn around es = (classesOf es).flatMap fun c =>
      (Declaration.function? ⟨around, c⟩).toList ++ functionsIn (around ++ [c]) c.entries := by
  rw [functionsIn, declarations_eq_flatMap, List.filterMap_flatMap]
  refine List.flatMap_congr fun c _ => ?_
  have hinner : (fun d : Declaration =>
        Declaration.function? ⟨around ++ d.around, d.declared⟩) ∘ Declaration.within c =
      fun d => Declaration.function? ⟨around ++ [c] ++ d.around, d.declared⟩ := by
    funext d
    simp
  rw [Class.declarations_eq, List.filterMap_cons, List.filterMap_map, hinner, List.append_nil]
  cases Declaration.function? ⟨around, c⟩ <;> rfl

/-- Classes inside of four or more others declare no functions. -/
theorem functionsIn_deep {around : List Class} (h : 3 < around.length) (es : List Entry) :
    functionsIn around es = [] := by
  rw [functionsIn, List.filterMap_eq_nil_iff]
  intro d _
  match around, h with
  | _ :: _ :: _ :: _ :: _, _ => rfl

section Block

variable {top : Class} (htop : sameName top.name "CfgFunctions" = true)

include htop

/-- In a category they are the functions of the category. -/
theorem functionsIn_category (tag category : Class) :
    functionsIn [top, tag, category] category.entries =
      categoryFunctions ((tag.text? "tag").getD tag.name) category := by
  rw [functionsIn_eq, categoryFunctions, List.map_eq_flatMap]
  refine List.flatMap_congr fun f _ => ?_
  rw [functionsIn_deep (by simp), List.append_nil, Declaration.function?, if_pos htop]
  rfl

/-- In a tag they are those of its categories. -/
theorem functionsIn_tag (tag : Class) : functionsIn [top, tag] tag.entries = tagFunctions tag := by
  rw [functionsIn_eq, tagFunctions]
  exact List.flatMap_congr fun category _ => functionsIn_category htop tag category

/-- The functions that are declared inside of one class of that name. -/
theorem functionsIn_block :
    functionsIn [top] top.entries = (classesOf top.entries).flatMap tagFunctions := by
  rw [functionsIn_eq]
  exact List.flatMap_congr fun tag _ => functionsIn_tag htop tag

end Block

/-- Inside of another class there are no functions. -/
theorem functionsIn_other {top : Class} (htop : sameName top.name "CfgFunctions" = false)
    (es : List Entry) : functionsIn [top] es = [] := by
  rw [functionsIn, List.filterMap_eq_nil_iff]
  rintro ⟨around, f⟩ _
  match around with
  | [] | [_] | _ :: _ :: _ :: _ => rfl
  | [tag, category] => exact if_neg (by simp [htop])

/-! ## The functions of a file -/

/-- All functions that are declared are declared by one of the blocks. -/
theorem declaredFunctions_eq_flatMap (es : List Entry) :
    declaredFunctions es =
      (functionBlocks es).flatMap fun c => (classesOf c.entries).flatMap tagFunctions := by
  have hes : declaredFunctions es = functionsIn [] es := rfl
  rw [hes, functionsIn_eq, functionBlocks]
  induction classesOf es with
  | nil => rfl
  | cons c cs ih =>
    rw [List.flatMap_cons, ih, List.filter_cons]
    by_cases hc : sameName c.name "CfgFunctions" = true
    · rw [if_pos hc, List.flatMap_cons, ← functionsIn_block hc]
      rfl
    · rw [if_neg hc, List.nil_append, functionsIn_other (Bool.not_eq_true _ ▸ hc)]
      rfl

/-- The functions that are found are those of the first block. -/
theorem functions_eq (es : List Entry) :
    functions es =
      ((functionBlocks es).head?.elim [] fun c => (classesOf c.entries).flatMap tagFunctions) := by
  rw [functions, classNamed?, functionBlocks, List.head?_filter]
  cases (classesOf es).find? fun c => sameName c.name "CfgFunctions" <;> rfl

/-- A block of functions declares those of its tags. -/
theorem declaredFunctions_block {es : List Entry} {c : Class} (hc : c ∈ functionBlocks es) :
    declaredFunctions [.nested c] = (classesOf c.entries).flatMap tagFunctions := by
  have hname : sameName c.name "CfgFunctions" = true := (List.mem_filter.1 hc).2
  have hblocks : functionBlocks [.nested c] = [c] := by
    simp [functionBlocks, classesOf, Entry.class?, hname]
  rw [declaredFunctions_eq_flatMap, hblocks, List.flatMap_singleton]

/-- Declarations stand between the ends of the entries, and one behind the other where they are
at the same depth. -/
theorem InOrder.declarations_inOrder {source : String} {a b : Nat} {es : List Entry}
    (h : InOrder source a b es) :
    (∀ d ∈ declarations es, a ≤ d.declared.span.start ∧ d.declared.span.stop ≤ b) ∧
      (declarations es).Pairwise fun d e =>
        d.around.length = e.around.length → d.declared.span.stop ≤ e.declared.span.start := by
  induction h with
  | nil _ => exact ⟨by simp [declarations], .nil⟩
  | @cons a b e es le lt _ inside rest ihinside ihrest =>
    obtain ⟨hbounds, hpairs⟩ := ihrest
    have hinner : (∀ d ∈ e.declarations, e.span.start ≤ d.declared.span.start ∧
        d.declared.span.stop ≤ e.span.stop) ∧
        e.declarations.Pairwise fun d e =>
          d.around.length = e.around.length → d.declared.span.stop ≤ e.declared.span.start := by
      cases e with
      | property p => exact ⟨by simp [Entry.declarations], .nil⟩
      | nested c =>
        obtain ⟨hbounds, hpairs⟩ := ihinside c rfl
        rw [Entry.declarations, Class.declarations_eq]
        refine ⟨List.forall_mem_cons.2 ⟨⟨Nat.le_refl _, Nat.le_refl _⟩, ?_⟩,
          List.pairwise_cons.2 ⟨?_, List.pairwise_map.2 (hpairs.imp ?_)⟩⟩
        · rintro _ hmem
          obtain ⟨d, hd, rfl⟩ := List.mem_map.1 hmem
          exact hbounds d hd
        · rintro _ hmem hdepth
          obtain ⟨d, -, rfl⟩ := List.mem_map.1 hmem
          cases hdepth
        · intro d e hapart hdepth
          exact hapart (Nat.succ.inj hdepth)
    rw [declarations, List.forall_mem_append, List.pairwise_append]
    -- The declarations of the first entry end with it, and the others start behind it.
    refine ⟨⟨fun d hd => ?_, fun d hd => ?_⟩, hinner.2, hpairs, fun d hd f hf _ => ?_⟩
    · have := hinner.1 d hd
      have := rest.le
      omega
    · have := hbounds d hd
      omega
    · have := hinner.1 d hd
      have := hbounds f hf
      omega

/-- The functions that are found are declared, and come in the order of their declarations. All
that are declared are found if and only if no class `CfgFunctions` but the first declares any. In
the entries of a file, this is the order in which the declarations stand in it. -/
theorem functions_of_first_block (es : List Entry) :
    functions es <+: declaredFunctions es ∧
      (functions es = declaredFunctions es ↔
        ∀ c ∈ (functionBlocks es).tail, declaredFunctions [.nested c] = []) ∧
      ∀ source, es = (parse source).entries → (declarations es).Pairwise fun d e =>
        d.around.length = e.around.length → d.declared.span.stop ≤ e.declared.span.start := by
  have hlater (c : Class) (hc : c ∈ (functionBlocks es).tail) :=
    declaredFunctions_block (List.mem_of_mem_tail hc)
  have hfound : functions es <+: declaredFunctions es ∧
      (functions es = declaredFunctions es ↔
        ∀ c ∈ (functionBlocks es).tail, declaredFunctions [.nested c] = []) := by
    rw [functions_eq, declaredFunctions_eq_flatMap]
    cases hblocks : functionBlocks es with
    | nil => simp
    | cons c cs =>
      rw [hblocks] at hlater
      refine ⟨List.prefix_append _ _, ?_⟩
      rw [List.flatMap_cons, List.head?_cons, Option.elim_some, List.self_eq_append_right,
        List.flatMap_eq_nil_iff]
      exact forall₂_congr fun c hc => by rw [hlater c hc]
  refine ⟨hfound.1, hfound.2, ?_⟩
  rintro source rfl
  exact (allEntries_inOrder (.initial source)).declarations_inOrder.2

/-- A class `CfgFunctions` with a function, behind one that is only announced. -/
def announcedFunctions : String :=
  "class CfgFunctions; " ++
    "class CfgFunctions \x7b class T \x7b class C \x7b class f \x7b\x7d; \x7d; \x7d; \x7d;"

theorem functions_behind_announcement :
    declaredFunctions (parse announcedFunctions).entries = [⟨"T", "C", "f", none⟩] ∧
      functions (parse announcedFunctions).entries = [] := by
  decide +kernel

end Sqf.Config
