import Sqf.Command.Descriptor
import Sqf.Proofs.Check.Relation
import Sqf.Proofs.Parse.OtherCommands

/-!
# Unrelated commands change nothing

A check asks its table about the names in the leaves of a tree, and these are texts of
tokens. So commands whose names are the text of no token can be added to a table, and the
script is read and checked as before (`unrelated_commands`).
-/

namespace Sqf

/-! ## Checks with two tables -/

/-- The name of a leaf that a check asks its table about. -/
def Leaf.lookedUp? : Leaf → Option Name
  | name n | command n => some n
  | number _ _ | string _ _ | target _ | loopVariable _ => none

/-- A name that is looked up is the text of a token, which is neither a string nor the end of
input. -/
theorem Leaf.text_of_lookedUp {l : Leaf} {t : Token} {n : Name} (h : l.IsOf t)
    (hn : n ∈ l.lookedUp?) : n.text = t.value ∧ t.kind ≠ .string ∧ t.kind ≠ .endOfInput := by
  cases l with
  | name m =>
    cases hn
    rw [h.2, h.1]
    exact ⟨rfl, by decide, by decide⟩
  | command m =>
    cases hn
    rw [h.2]
    refine ⟨rfl, ?_⟩
    rcases h.1 with hk | hk | hk
    · rw [hk]
      decide
    · rw [hk]
      decide
    · -- The kinds of operators are gone through one by one.
      revert hk
      cases t.kind <;> decide
  | _ => cases hn

namespace Check

variable {t u : Table} {settings : Settings}

/-- A global has the same type with tables that say the same of its name. -/
theorem globalType_congr {n : Name} (h : t.Alike u n.text) :
    globalType ⟨t, settings⟩ n = globalType ⟨u, settings⟩ n := by
  unfold globalType
  simp only [h.overloads, h.isKnown]

/-- So has any name. -/
theorem nameType_congr (here : Nat) {n : Name} (h : t.Alike u n.text) :
    nameType ⟨t, settings⟩ here n = nameType ⟨u, settings⟩ here n := by
  unfold nameType
  rw [globalType_congr h]
  rfl

/-- A command is known to both or to neither. -/
theorem commandExists_congr {command : Name} (h : t.Alike u command.text) (arity : Arity) :
    commandExists ⟨t, settings⟩ command arity = commandExists ⟨u, settings⟩ command arity := by
  unfold commandExists
  simp only [h.has, h.isKnown]

/-- It has the same result in both. -/
theorem resultType_congr {command : Name} (h : t.Alike u command.text) (arity : Arity)
    (operands : List (ValueType × Span)) :
    resultType ⟨t, settings⟩ command arity operands =
      resultType ⟨u, settings⟩ command arity operands := by
  unfold resultType
  simp only [h.resolve]

/-- Two checks are equal if their tables say the same of all names that are looked up. -/
def Relation.alike (t u : Table) (settings : Settings) : Relation ⟨t, settings⟩ ⟨u, settings⟩ :=
  .equal (fun l => ∀ n ∈ l.lookedUp?, t.Alike u n.text)
    (fun here n h => nameType_congr here (h n rfl))
    (fun arity h => commandExists_congr (h _ rfl) arity)
    (fun operands arity h => resultType_congr (h _ rfl) arity operands)

end Check

/-- Tables that say the same of all names in a tree check it the same way. -/
theorem check_congr {t u : Table} (settings : Settings) {p : Program}
    (h : ∀ l ∈ (Node.program p).leaves, ∀ n ∈ l.lookedUp?, t.Alike u n.text) :
    check t settings p = check u settings p := by
  have hprogram : Check.program ⟨t, settings⟩ p = Check.program ⟨u, settings⟩ p :=
    Check.program_related (Check.Relation.alike t u settings) p ⟨fun _ _ => trivial, h⟩
  unfold check
  rw [hprogram]

/-! ## Tables from descriptors -/

/-- A signature has the name of its command. -/
theorem name_toSignature {command : String} {usage : Usage} {s : Signature}
    (h : usage.toSignature command = .ok s) : s.name = command := by
  unfold Usage.toSignature at h
  split at h
  · cases h
  · obtain ⟨left, -, h⟩ := exists_of_bind_ok h
    obtain ⟨right, -, h⟩ := exists_of_bind_ok h
    obtain ⟨returns, -, h⟩ := exists_of_bind_ok h
    cases h
    rfl

/-- The signatures of a table have the names of its descriptors. -/
theorem name_of_ofDescriptors {ds : List Descriptor} {u : Table}
    (h : Table.ofDescriptors ds = .ok u) : ∀ s ∈ u.signatures, ∃ d ∈ ds, s.name = d.name := by
  obtain ⟨signatures, hsignatures, h⟩ := exists_of_bind_ok h
  cases h
  intro s hs
  rw [Table.signatures_ofSignatures] at hs
  obtain ⟨ss, hss, hs⟩ := List.mem_flatten.1 hs
  obtain ⟨d, hd, hdss⟩ := exists_of_mapM hsignatures ss hss
  obtain ⟨usage, -, husage⟩ := exists_of_mapM hdss s hs
  exact ⟨d, hd, name_toSignature husage⟩

/-- Signatures with other names change nothing of what a table says of a name. -/
theorem Table.alike_append {t u : Table} {name : String}
    (h : ∀ s ∈ u.signatures, sameName s.name name = false) : (t ++ u).Alike t name := by
  constructor
  · intro arity
    -- The table that is added has no overload of this name, and does not know it either.
    have hnone : u.overloads name arity = [] := by
      rw [overloads_eq, List.filter_eq_nil_iff]
      intro s hs
      simp [h s hs]
    rw [overloads_append, hnone, List.append_nil]
  · have hnone : u.isKnown name = false := by
      rw [← Bool.not_eq_true, isKnown_iff]
      rintro ⟨s, hs, hname⟩
      simp [h s hs] at hname
    show (t.entries ++ u.entries).any _ = _
    rw [List.any_append]
    exact (congrArg _ hnone).trans (Bool.or_false _)

/-! ## Unrelated commands -/

/-- No token of the source text has the name of a described command; strings do not count. -/
def Unrelated (ds : List Descriptor) (source : String) : Prop :=
  ∀ t ∈ (scan source).tokens, t.kind ≠ .string → t.kind ≠ .endOfInput →
    ∀ d ∈ ds, sameName d.name t.value = false

/-- Commands that are added to a table change nothing if no token has the name of one, capital
letters aside: the script is read as the same tree with the same reports, and the check finds the
same problems and scopes. -/
theorem unrelated_commands (table : Table) (settings : Settings) (source : String)
    {ds : List Descriptor} {added : Table} (hadded : Table.ofDescriptors ds = .ok added)
    (hunrelated : Unrelated ds source) :
    let parsed := parseSource table source
    parseSource (table ++ added) source = parsed ∧
      check (table ++ added) settings parsed.program = check table settings parsed.program ∧
      checkSource (table ++ added) settings source = checkSource table settings source := by
  intro parsed
  have halike : ∀ t ∈ (scan source).tokens, t.kind ≠ .string → t.kind ≠ .endOfInput →
      (table ++ added).Alike table t.value := by
    intro t ht hstring hend
    refine Table.alike_append fun s hs => ?_
    obtain ⟨d, hd, hname⟩ := name_of_ofDescriptors hadded s hs
    rw [hname]
    exact hunrelated t ht hstring hend d hd
  have hparse : parseSource (table ++ added) source = parsed := by
    show parseSource (table ++ added) source = parseSource table source
    have htokens : parse (table ++ added) (scan source).tokens =
        parse table (scan source).tokens :=
      parse_congr fun t ht hk => halike t ht (by rw [hk]; decide) (by rw [hk]; decide)
    simp only [parseSource, htokens]
  have hcheck : check (table ++ added) settings parsed.program =
      check table settings parsed.program := by
    -- All names that the check looks up stand in leaves, and these are tokens.
    refine check_congr settings fun l hl n hn => ?_
    obtain ⟨t, ht, hof⟩ := leaves_parse table (scan source).tokens l hl
    obtain ⟨htext, hstring, hend⟩ := Leaf.text_of_lookedUp hof hn
    rw [htext]
    exact halike t ht hstring hend
  refine ⟨hparse, hcheck, ?_⟩
  simp only [checkSource, hparse, hcheck]
  rfl

/-- A command that is named in a string only. -/
theorem unrelated_commands_hint :
    let hint : Descriptor := ⟨"hint", [⟨none, some "string", "nothing"⟩]⟩
    let chat : Descriptor := ⟨"systemChat", [⟨none, some "string", "nothing"⟩]⟩
    let source := "hint \"systemChat\"; hint 1;"
    ∃ table added, Table.ofDescriptors [hint] = .ok table ∧
      Table.ofDescriptors [chat] = .ok added ∧ Unrelated [chat] source ∧
      checkSource (table ++ added) {} source = checkSource table {} source := by
  intro hint chat source
  have hunrelated : Unrelated [chat] source := by
    unfold Unrelated
    decide +kernel
  exact ⟨_, _, rfl, rfl, hunrelated, (unrelated_commands _ {} source rfl hunrelated).2.2⟩

end Sqf
