import Sqf.Proofs.Check.Events
import Sqf.Proofs.Check.Relation

/-!
# Warnings are only added

Whether undefined locals are reported is asked in one place only, behind the look-up of a
local. So two checks that differ in this setting find the same types and bind the same locals
all along, and one reports what the other does and its warnings besides (`warnings_added`).
-/

namespace Sqf

namespace Check

/-- The second state is the first one without its warnings about undefined locals. -/
structure Silenced (s s' : State) : Prop where
  scopes : s.scopes = s'.scopes
  reports : s.diagnostics.toList.filter (fun d => !isUndefinedVariable d) = s'.diagnostics.toList

/-- The second part of a check does on a silenced state what the first one does on the state
itself. -/
def Silences (c c' : Check α) : Prop :=
  ∀ s s', Silenced s s' → (c s).1 = (c' s').1 ∧ Silenced (c s).2 (c' s').2

namespace Silences

variable {here : Nat}

theorem pure (a : α) : Silences (Pure.pure a) (Pure.pure a) := fun _ _ h => ⟨rfl, h⟩

/-- Two checks that differ in their warnings only, one after the other. -/
theorem bind {c c' : Check α} {k k' : α → Check β} (h : Silences c c')
    (hk : ∀ a, Silences (k a) (k' a)) : Silences (c >>= k) (c' >>= k') := by
  intro s s' hs
  obtain ⟨hvalue, hstate⟩ := h s s' hs
  have hrest := hk (c s).1 (c s).2 (c' s').2 hstate
  rw [hvalue] at hrest
  show (k (c s).1 (c s).2).1 = _ ∧ Silenced (k (c s).1 (c s).2).2 _
  rw [hvalue]
  exact hrest

/-- Both parts ask for the scopes only, which are the same. -/
theorem get_bind {k k' : State → Check α}
    (h : ∀ s s', s.scopes = s'.scopes → Silences (k s) (k' s')) :
    Silences (get >>= k) (get >>= k') :=
  fun s s' hs => h s s' hs.scopes s s' hs

/-- A change of the scopes is the same in both. -/
theorem modifyScopes (f : Scopes → Scopes) :
    Silences (modify fun s => { s with scopes := f s.scopes })
      (modify fun s => { s with scopes := f s.scopes }) :=
  fun _ _ hs => ⟨rfl, congrArg f hs.scopes, hs.reports⟩

theorem report {cause : Cause} {span : Span} (h : isUndefinedVariable ⟨cause, span⟩ = false) :
    Silences (Check.report cause span) (Check.report cause span) := by
  intro s s' hs
  refine ⟨rfl, hs.scopes, ?_⟩
  show (s.diagnostics.push ⟨cause, span⟩).toList.filter _ =
    (s'.diagnostics.push ⟨cause, span⟩).toList
  rw [Array.toList_push, Array.toList_push, List.filter_append, hs.reports]
  simp [h]

/-- A warning is left out of the second check. -/
theorem warn (n : Name) :
    Silences (Check.report (.undefinedVariable n.text) n.span) (Pure.pure ()) := by
  intro s s' hs
  refine ⟨rfl, hs.scopes, ?_⟩
  show (s.diagnostics.push (undefinedDiagnostic n)).toList.filter _ = s'.diagnostics.toList
  rw [Array.toList_push, List.filter_append, hs.reports]
  simp [undefinedDiagnostic, isUndefinedVariable]

/-- Both open the same scope. -/
theorem openScope (id : Nat) : Silences (Check.openScope here id) (Check.openScope here id) := by
  intro s s' hs
  have hscopes := hs.scopes
  refine ⟨?_, ?_, hs.reports⟩
  · show s.scopes.all.size = s'.scopes.all.size
    rw [hscopes]
  · show s.scopes.enter id here = s'.scopes.enter id here
    rw [hscopes]

theorem declare (index : Nat) (name : String) (type : ValueType) :
    Silences (Check.declare index name type) (Check.declare index name type) :=
  modifyScopes fun ss => ss.bindAt index name type

/-- Both bind the same local. -/
theorem assign (name : String) (type : ValueType) :
    Silences (Check.assign here name type) (Check.assign here name type) := by
  unfold Check.assign
  refine get_bind fun s s' hscopes => ?_
  rw [hscopes]
  exact declare _ name type

variable (table : Table) (known : List String)

/-- A local that is not found is the one place where the setting is asked. -/
theorem localType (n : Name) :
    Silences (Check.localType ⟨table, ⟨true, known⟩⟩ here n)
      (Check.localType ⟨table, ⟨false, known⟩⟩ here n) := by
  unfold Check.localType
  split
  · exact pure _
  · refine get_bind fun s s' hscopes => ?_
    rw [hscopes]
    cases s'.scopes.resolve here n.text with
    | some found => exact pure _
    | none => exact (warn n).bind fun _ => pure _

/-- A global is never warned about. -/
theorem globalType (n : Name) :
    Silences (Check.globalType ⟨table, ⟨true, known⟩⟩ n)
      (Check.globalType ⟨table, ⟨false, known⟩⟩ n) := by
  have hfunction : (⟨true, known⟩ : Settings).isFunction n.text =
      (⟨false, known⟩ : Settings).isFunction n.text := rfl
  unfold Check.globalType
  rw [hfunction]
  cases table.overloads n.text .nular with
  | cons s ss => exact pure _
  | nil =>
    dsimp only
    split
    · exact pure _
    · split
      · exact (report rfl).bind fun _ => pure _
      · exact pure _

/-- So a name has the same type in both. -/
theorem nameType (n : Name) :
    Silences (Check.nameType ⟨table, ⟨true, known⟩⟩ here n)
      (Check.nameType ⟨table, ⟨false, known⟩⟩ here n) := by
  unfold Check.nameType
  split
  · exact localType table known n
  · exact globalType table known n

/-- The setting is not asked for where a command is looked up. -/
theorem commandExists (command : Name) (arity : Arity) :
    Silences (Check.commandExists ⟨table, ⟨true, known⟩⟩ command arity)
      (Check.commandExists ⟨table, ⟨false, known⟩⟩ command arity) := by
  unfold Check.commandExists
  split
  · exact pure _
  · refine (report ?_).bind fun _ => pure _
    split <;> rfl

/-- Commands have the same results in both. -/
theorem resultType (command : Name) (arity : Arity) (operands : List (ValueType × Span)) :
    Silences (Check.resultType ⟨table, ⟨true, known⟩⟩ command arity operands)
      (Check.resultType ⟨table, ⟨false, known⟩⟩ command arity operands) := by
  unfold Check.resultType
  cases table.resolve command.text arity (operands.map (·.1)) with
  | found s => exact pure _
  | noMatch closest argument => exact (report rfl).bind fun _ => pure _
  | unknown => exact pure _
  | unsupportedArity => exact pure _

end Silences

/-- What is reported of a construct is no warning about a local. -/
theorem isUndefinedVariable_of_construct {cause : Cause} {span : Span}
    (h : cause.isOfConstruct = true) : isUndefinedVariable ⟨cause, span⟩ = false := by
  cases cause with
  | undefinedVariable _ => cases h
  | _ => rfl

/-- A check without warnings is the check with warnings, silenced. -/
def Relation.silences (table : Table) (known : List String) :
    Relation ⟨table, ⟨true, known⟩⟩ ⟨table, ⟨false, known⟩⟩ where
  rel := Silences
  span _ := True
  leaf _ := True
  pure := .pure
  bind := .bind
  report h _ := .report (isUndefinedVariable_of_construct h)
  openScope _ id := .openScope id
  declare := .declare
  assign _ name type := .assign name type
  nameType _ _ _ := .nameType table known _
  commandExists arity _ := .commandExists table known _ arity
  resultType arity _ _ := .resultType table known _ arity _

end Check

/-- With warnings about undefined locals a script has the same scopes as without. What is reported
without warnings is what is reported with them, these left out and all else in the same order. -/
theorem warnings_added (table : Table) (known : List String) (p : Program) :
    let warned := check table ⟨true, known⟩ p
    let silent := check table ⟨false, known⟩ p
    warned.scopes = silent.scopes ∧
      warned.diagnostics.filter (fun d => !Check.isUndefinedVariable d) = silent.diagnostics ∧
      ∀ d ∈ silent.diagnostics, Check.isUndefinedVariable d = false := by
  intro warned silent
  -- Silencing is a relation of checks, so it is shown for the primitive ones only.
  have hsilences : Check.Silences (Check.program ⟨table, ⟨true, known⟩⟩ p)
      (Check.program ⟨table, ⟨false, known⟩⟩ p) :=
    Check.program_related (Check.Relation.silences table known) p
      ⟨fun _ _ => trivial, fun _ _ => trivial⟩
  obtain ⟨-, hscopes, hreports⟩ := hsilences {} {} ⟨rfl, rfl⟩
  refine ⟨hscopes, hreports, fun d hd => ?_⟩
  have hmem : d ∈ warned.diagnostics.filter fun d => !Check.isUndefinedVariable d :=
    hreports.symm ▸ hd
  simpa using (List.mem_filter.1 hmem).2

end Sqf
