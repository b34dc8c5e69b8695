import Sqf.Proofs.Check.Relation
import Sqf.Proofs.Token.LetterCase

/-!
# Known functions

A global name is looked for among the known functions in lower case. Functions that are added are
kept in lower case, so that they are found in any spelling. Settings that are read from JSON keep
their functions as they are spelled there, and those with a capital letter are never found
(`functions_found`).
-/

namespace Sqf

namespace Settings

/-- The JSON object that these settings are read from. -/
def toJson (s : Settings) : Json :=
  .obj [("warn_undefined_locals", .bool s.warnUndefinedLocals),
    ("known_functions", .array (s.knownFunctions.map Json.str))]

/-- The settings with more functions. -/
def addFunctions (s : Settings) (names : List String) : Settings := names.foldl addFunction s

/-- The functions that a check can find: the known ones with a name in lower case, which is not that
of a local. -/
def functions (s : Settings) : List String :=
  s.knownFunctions.filter fun name => name.toLower == name && !isLocalName name

/-- The functions that can be found are those in lower case. -/
theorem mem_functions {s : Settings} {name : String} :
    name ∈ s.functions ↔
      name ∈ s.knownFunctions ∧ name.toLower = name ∧ isLocalName name = false := by
  simp [functions]

/-- What is found are the functions, in any spelling. -/
theorem isFunction_iff {s : Settings} {name : String} (h : isLocalName name = false) :
    s.isFunction name = true ↔ name.toLower ∈ s.functions := by
  rw [isFunction, List.contains_iff_mem, mem_functions]
  constructor
  · intro hmem
    exact ⟨hmem, Text.toLower_idem name, (isLocalName_toLower name).trans h⟩
  · exact fun hmem => hmem.1

/-- So a name is found with the same functions of this sort. -/
theorem isFunction_congr {s t : Settings} (h : ∀ name, name ∈ s.functions ↔ name ∈ t.functions)
    {name : String} (hname : isLocalName name = false) : s.isFunction name = t.isFunction name := by
  rw [Bool.eq_iff_iff, isFunction_iff hname, isFunction_iff hname]
  exact h _

/-! ## Where functions come from -/

theorem namesOf?_array (names : List String) :
    namesOf? (.array (names.map Json.str)) = some names := by
  show (names.map Json.str).mapM Json.asText? = some names
  induction names with
  | nil => rfl
  | cons name names ih =>
    rw [List.map_cons, List.mapM_cons, ih]
    rfl

/-- Settings are read back from JSON as they were. -/
theorem ofJson?_toJson (s : Settings) : ofJson? s.toJson = some s := by
  have hknown := namesOf?_array s.knownFunctions
  simp [toJson, ofJson?, Json.obj, Json.keysAreText, Json.fieldOr?, Json.field?, Json.asBool?,
    hknown]

/-- Functions that are added are kept in lower case. -/
theorem knownFunctions_addFunctions (s : Settings) (names : List String) :
    (s.addFunctions names).knownFunctions = s.knownFunctions ++ names.map String.toLower := by
  induction names generalizing s with
  | nil => exact (List.append_nil _).symm
  | cons name names ih =>
    rw [List.map_cons, List.append_cons]
    exact ih (s.addFunction name)

/-- Functions that are added are kept in lower case, however they are spelled. -/
theorem addFunctions_congr (s : Settings) {names others : List String}
    (h : List.Forall₂ (fun name other => sameName name other = true) names others) :
    s.addFunctions names = s.addFunctions others := by
  induction h generalizing s with
  | nil => rfl
  | @cons name other names others hname _ ih =>
    have hlower : name.toLower = other.toLower := beq_iff_eq.1 hname
    have hfirst : s.addFunction name = s.addFunction other := by
      rw [addFunction, addFunction, hlower]
    show (s.addFunction name).addFunctions names = (s.addFunction other).addFunctions others
    rw [hfirst]
    exact ih _

/-- What has been added is found in any spelling. -/
theorem mem_functions_addFunctions (s : Settings) {names : List String} {name other : String}
    (hname : name ∈ names) (hother : sameName other name = true)
    (hlocal : isLocalName other = false) : other.toLower ∈ (s.addFunctions names).functions := by
  rw [mem_functions, knownFunctions_addFunctions]
  refine ⟨List.mem_append_right _ ?_, Text.toLower_idem other,
    (isLocalName_toLower other).trans hlocal⟩
  rw [show other.toLower = name.toLower from beq_iff_eq.1 hother]
  exact List.mem_map_of_mem hname

end Settings

/-! ## What they do to a check -/

namespace Check

variable {table : Table} {s t : Settings} {here : Nat} {n : Name}

/-- A global is looked up among the functions only. -/
theorem globalType_settings (h : s.isFunction n.text = t.isFunction n.text) :
    globalType ⟨table, s⟩ n = globalType ⟨table, t⟩ n := by
  unfold globalType
  rw [h]

/-- A local asks for the warnings only. -/
theorem localType_settings (h : s.warnUndefinedLocals = t.warnUndefinedLocals) :
    localType ⟨table, s⟩ here n = localType ⟨table, t⟩ here n := by
  unfold localType
  rw [h]

/-- So a name has the same type with settings that agree on both. -/
theorem nameType_settings (hwarn : s.warnUndefinedLocals = t.warnUndefinedLocals)
    (h : ∀ name, name ∈ s.functions ↔ name ∈ t.functions) :
    nameType ⟨table, s⟩ here n = nameType ⟨table, t⟩ here n := by
  unfold nameType
  split
  · exact localType_settings hwarn
  · next hlocal =>
    exact globalType_settings (Settings.isFunction_congr h (Bool.eq_false_iff.2 hlocal))

/-- Two checks with one table are equal if names have the same types. -/
def Relation.sameNames
    (h : ∀ here n, Check.nameType ⟨table, s⟩ here n = Check.nameType ⟨table, t⟩ here n) :
    Relation ⟨table, s⟩ ⟨table, t⟩ :=
  .equal (fun _ => True) (fun here _ _ => h here _) (fun _ _ => rfl) (fun _ _ _ => rfl)

/-- A global name that no command has is code if it is found among the functions. -/
theorem nameType_eq_code_iff (hlocal : n.isLocal = false)
    (hnular : table.overloads n.text .nular = []) (state : State) :
    (nameType ⟨table, s⟩ here n state).1 = .code ↔ n.text.toLower ∈ s.functions := by
  rw [← Settings.isFunction_iff hlocal]
  unfold nameType globalType
  simp only [hlocal, hnular]
  cases s.isFunction n.text with
  | true => exact ⟨fun _ => rfl, fun _ => rfl⟩
  | false => cases table.isKnown n.text <;> exact ⟨nofun, nofun⟩

end Check

/-- Settings with the same warnings and functions give the same checks. -/
theorem check_settings {s t : Settings} (hwarn : s.warnUndefinedLocals = t.warnUndefinedLocals)
    (h : ∀ name, name ∈ s.functions ↔ name ∈ t.functions) (table : Table) (p : Program) :
    check table s p = check table t p := by
  have hprogram : Check.program ⟨table, s⟩ p = Check.program ⟨table, t⟩ p :=
    Check.program_related (Check.Relation.sameNames fun _ _ => Check.nameType_settings hwarn h) p
      ⟨fun _ _ => trivial, fun _ _ => trivial⟩
  unfold check
  rw [hprogram]

/-- The script `private _x = name`. -/
def readName (name : String) : Program := ⟨[.assignment true ⟨"_x", {}⟩ (.name ⟨name, {}⟩) {}], {}⟩

/-- With no commands, whether a name is a function shows in the type of a local that it is given
to. -/
theorem scopes_readName {s : Settings} {name : String} (h : isLocalName name = false) :
    (check .empty s (readName name)).scopes =
      Scopes.root.bindAt 0 "_x" (if s.isFunction name then .code else .any) := by
  -- The empty table has no command of this name, so it is a function or unknown.
  have hname : Check.nameType ⟨.empty, s⟩ 0 ⟨name, {}⟩ =
      pure (if s.isFunction name then .code else .any) := by
    have hlocal : Name.isLocal ⟨name, {}⟩ = false := h
    have hnular : Table.empty.overloads name .nular = [] := rfl
    have hknown : Table.empty.isKnown name = false := rfl
    simp only [Check.nameType, hlocal, Check.globalType, hnular, hknown]
    cases s.isFunction name <;> rfl
  have hstmt : Check.stmt ⟨.empty, s⟩ 0 (.assignment true ⟨"_x", {}⟩ (.name ⟨name, {}⟩) {}) = (do
      Check.declare 0 "_x" (if s.isFunction name then .code else .any)
      return .nothing) := by
    rw [Check.stmt, Check.expr, hname, pure_bind]
    rfl
  simp only [check, Check.program, readName, Check.stmts, hstmt]
  rfl

/-- What is found among the functions is all that matters of them. -/
theorem check_eq_iff {s t : Settings} (hwarn : s.warnUndefinedLocals = t.warnUndefinedLocals) :
    (∀ table p, check table s p = check table t p) ↔
      ∀ name, name ∈ s.functions ↔ name ∈ t.functions := by
  refine ⟨fun h name => ?_, fun h => check_settings hwarn h⟩
  by_cases hname : name.toLower = name ∧ isLocalName name = false
  · obtain ⟨hlower, hlocal⟩ := hname
    have hscopes : Scopes.root.bindAt 0 "_x" (if s.isFunction name then .code else .any) =
        Scopes.root.bindAt 0 "_x" (if t.isFunction name then .code else .any) := by
      rw [← scopes_readName hlocal, ← scopes_readName hlocal, h]
    have hsame : s.isFunction name = t.isFunction name := by
      cases hs : s.isFunction name <;> cases ht : t.isFunction name <;>
        simp_all [Scopes.root, Scopes.bindAt, Scope.bind, Scope.bindIn]
    rw [← hlower, ← Settings.isFunction_iff hlocal, ← Settings.isFunction_iff hlocal, hsame]
  · have hnone (s : Settings) : name ∉ s.functions := fun hmem =>
      hname (Settings.mem_functions.1 hmem).2
    exact ⟨fun hmem => absurd hmem (hnone s), fun hmem => absurd hmem (hnone t)⟩

/-- Settings that are read from JSON have their functions as they are spelled there, and of these
the checks of all scripts depend on just those in lower case that are no locals: a global name that
no command has is code if it is one of them in any spelling. Functions that are added may have
capital letters: they are the same functions in any spelling, and every global name that is spelled
like one of them up to case is code. -/
theorem functions_found (s : Settings) :
    Settings.ofJson? s.toJson = some s ∧
      (∀ t : Settings, s.warnUndefinedLocals = t.warnUndefinedLocals →
        ((∀ table p, check table s p = check table t p) ↔
          ∀ name, name ∈ s.functions ↔ name ∈ t.functions)) ∧
      (∀ (table : Table) (here : Nat) (n : Name) (state : Check.State), n.isLocal = false →
        table.overloads n.text .nular = [] →
        ((Check.expr ⟨table, s⟩ here (.name n) state).1 = .code ↔
          n.text.toLower ∈ s.functions)) ∧
      (∀ names others : List String,
        List.Forall₂ (fun name other => sameName name other = true) names others →
        s.addFunctions names = s.addFunctions others) ∧
      ∀ (names : List String), ∀ name ∈ names, ∀ (table : Table) (here : Nat) (n : Name)
        (state : Check.State), sameName n.text name = true → n.isLocal = false →
        table.overloads n.text .nular = [] →
        (Check.expr ⟨table, s.addFunctions names⟩ here (.name n) state).1 = .code := by
  refine ⟨s.ofJson?_toJson, fun t hwarn => check_eq_iff hwarn, ?_,
    fun names others h => s.addFunctions_congr h, ?_⟩
  · intro table here n state hlocal hnular
    exact Check.nameType_eq_code_iff hlocal hnular state
  · intro names name hname table here n state hsame hlocal hnular
    exact (Check.nameType_eq_code_iff hlocal hnular state).2
      (s.mem_functions_addFunctions hname hsame hlocal)

/-- A function that is spelled with capital letters in the settings, and in the same way in the
script, is not found, though it would be if the settings had it in lower case. -/
theorem functions_found_capital :
    let spelled : Settings := ⟨false, ["TAG_fnc_spawn"]⟩
    let lower : Settings := ⟨false, ["tag_fnc_spawn"]⟩
    let p := (parseSource .empty "private _f = TAG_fnc_spawn").program
    let locals (s : Settings) := (check .empty s p).scopes.all.toList.map fun scope =>
      scope.locals.map fun (name, type) => (name, type.displayName)
    Settings.ofJson? spelled.toJson = some spelled ∧ Settings.ofJson? lower.toJson = some lower ∧
      sameName "TAG_fnc_spawn" "tag_fnc_spawn" = true ∧
      locals spelled = [[("_f", "Anything")]] ∧ locals lower = [[("_f", "Code")]] := by
  intro spelled lower p locals
  -- Both names are the same in lower case, but only one of them is kept so.
  have hnames : sameName "TAG_fnc_spawn" "tag_fnc_spawn" = true := by
    rw [sameName, beq_iff_eq, ← String.toList_inj, Text.toList_toLower, Text.toList_toLower]
    decide +kernel
  have hspelled : locals spelled = [[("_f", "Anything")]] := by
    decide +kernel
  have hlower : locals lower = [[("_f", "Code")]] := by
    decide +kernel
  exact ⟨spelled.ofJson?_toJson, lower.ofJson?_toJson, hnames, hspelled, hlower⟩

end Sqf
