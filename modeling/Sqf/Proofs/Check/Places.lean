import Sqf.Proofs.Check.Relation
import Sqf.Proofs.Config.Places

/-!
# All places are valid

A check reports at the spans of nodes and of names, and never what is for the scanner and the
parser to find (`ReportsOnly`). So what it reports of a script is reported at valid spans. With what
holds of scanning and reading, all spans that come from a source text are valid in it
(`places_valid`).
-/

namespace Sqf

namespace Check

/-- All that the check reports is as `P` says, if what was reported before is. -/
def ReportsOnly (P : Diagnostic → Prop) (c : Check α) : Prop :=
  ∀ s, (∀ d ∈ s.diagnostics, P d) → ∀ d ∈ (c s).2.diagnostics, P d

/-- What the check reports has valid spans, if what was reported before has. -/
def ReportsValid (source : String) (c : Check α) : Prop :=
  ReportsOnly (fun d => d.span.Valid source) c

namespace ReportsOnly

variable {P : Diagnostic → Prop} {here : Nat}

/-- A check that reports nothing. -/
theorem of_quiet {c : Check α} (h : ∀ s, (c s).2.diagnostics = s.diagnostics) :
    ReportsOnly P c := by
  intro s hs
  rw [h s]
  exact hs

theorem pure (a : α) : ReportsOnly P (Pure.pure a) := of_quiet fun _ => rfl

/-- Checks one after the other report what each of them reports. -/
theorem bind {c : Check α} {k : α → Check β} (h : ReportsOnly P c) (hk : ∀ a, ReportsOnly P (k a)) :
    ReportsOnly P (c >>= k) :=
  fun s hs => hk (c s).1 (c s).2 (h s hs)

theorem report {cause : Cause} {sp : Span} (h : P ⟨cause, sp⟩) :
    ReportsOnly P (Check.report cause sp) := by
  intro s hs d hd
  rcases Array.mem_push.1 hd with hd | rfl
  · exact hs d hd
  · exact h

theorem get_bind {k : State → Check α} (h : ∀ s, ReportsOnly P (k s)) : ReportsOnly P (get >>= k) :=
  fun s hs => h s s hs

section Spans

-- The check makes up no cause of the scanner or the parser.
variable {span : Span → Prop}
  (hP : ∀ {cause : Cause} {sp : Span}, cause.isSyntax = false → span sp → P ⟨cause, sp⟩)

include hP

/-- A local is reported at its name. -/
theorem localType (cx : Context) {n : Name} (hn : span n.span) :
    ReportsOnly P (Check.localType cx here n) := by
  unfold Check.localType
  split
  · exact pure _
  · refine get_bind fun s => ?_
    split
    · exact pure _
    · split
      · exact (report (hP rfl hn)).bind fun _ => pure _
      · exact pure _

/-- So is a global. -/
theorem globalType (cx : Context) {n : Name} (hn : span n.span) :
    ReportsOnly P (Check.globalType cx n) := by
  unfold Check.globalType
  split
  · exact pure _
  · split
    · exact pure _
    · split
      · exact (report (hP rfl hn)).bind fun _ => pure _
      · exact pure _

/-- So is any name. -/
theorem nameType (cx : Context) {n : Name} (hn : span n.span) :
    ReportsOnly P (Check.nameType cx here n) := by
  unfold Check.nameType
  split
  · exact localType hP cx hn
  · exact globalType hP cx hn

/-- A command is reported at its name. -/
theorem commandExists (cx : Context) {command : Name} (hcommand : span command.span)
    (arity : Arity) : ReportsOnly P (Check.commandExists cx command arity) := by
  unfold Check.commandExists
  split
  · exact pure _
  · refine (report (hP ?_ hcommand)).bind fun _ => pure _
    split <;> rfl

/-- The operand that is refused is one of the operands. If there are none, the place is the start
of the text. -/
theorem resultType (hstart : span {}) (cx : Context) (command : Name) (arity : Arity)
    {operands : List (ValueType × Span)} (hoperands : ∀ o ∈ operands, span o.2) :
    ReportsOnly P (Check.resultType cx command arity operands) := by
  unfold Check.resultType
  split
  · exact pure _
  · next closest argument _ =>
    refine (report (hP rfl ?_)).bind fun _ => pure _
    cases hargument : operands[argument]? with
    | none => exact hstart
    | some o => exact hoperands o (List.mem_of_getElem? hargument)
  · exact pure _
  · exact pure _

end Spans

end ReportsOnly

theorem isSyntax_of_construct {cause : Cause} (h : cause.isOfConstruct = true) :
    cause.isSyntax = false := by
  cases cause <;> first | rfl | cases h

/-- What is reported of a tree follows from the spans in it. -/
def Relation.reports (cx : Context) (P : Diagnostic → Prop) (span : Span → Prop)
    (hstart : span {})
    (hP : ∀ {cause : Cause} {sp : Span}, cause.isSyntax = false → span sp → P ⟨cause, sp⟩) :
    Relation cx cx where
  rel c _ := ReportsOnly P c
  span := span
  leaf l := span l.span
  pure a := .pure a
  bind h hk := h.bind hk
  report hcause h := .report (hP (isSyntax_of_construct hcause) h)
  openScope _ _ := .of_quiet fun _ => rfl
  declare _ _ _ := .of_quiet fun _ => rfl
  assign _ _ _ := .of_quiet fun _ => rfl
  nameType _ _ h := .nameType hP cx h
  commandExists arity h := .commandExists hP cx h arity
  resultType arity _ h := .resultType hP hstart cx _ arity h

/-- Valid spans in a tree make a check report at valid spans. -/
def Relation.places (source : String) (cx : Context) : Relation cx cx :=
  .reports cx (fun d => d.span.Valid source) (Span.Valid source) (.zero source) fun _ h => h

/-- A check finds no fault with how a script is written. -/
theorem isSyntax_of_mem_check {table : Table} {settings : Settings} {p : Program} {d : Diagnostic}
    (h : d ∈ (check table settings p).diagnostics) : d.cause.isSyntax = false := by
  have hcheck : ReportsOnly (fun d => d.cause.isSyntax = false)
      (Check.program ⟨table, settings⟩ p) :=
    Check.program_related (Relation.reports ⟨table, settings⟩ (fun d => d.cause.isSyntax = false)
      (fun _ => True) trivial fun h _ => h) p ⟨fun _ _ => trivial, fun _ _ => trivial⟩
  exact hcheck {} (by simp) d (Array.mem_toList_iff.1 h)

end Check

/-- All spans that come from a source text start before they stop, and do so within the text and at
character boundaries: those of the nodes of its tree, and those of what is reported when it is
scanned, read, checked against any table, or read as a config file. -/
theorem places_valid (table : Table) (settings : Settings) (source : String) :
    let parsed := parseSource table source
    (∀ n ∈ (Node.program parsed.program).walk, n.span.Valid source) ∧
      (∀ d ∈ (scan source).diagnostics, d.span.Valid source) ∧
      (∀ d ∈ parsed.diagnostics, d.span.Valid source) ∧
      (∀ d ∈ (check table settings parsed.program).diagnostics, d.span.Valid source) ∧
      ∀ d ∈ (Config.parse source).diagnostics, d.span.Valid source := by
  intro parsed
  obtain ⟨hmarked, hreports⟩ := Parse.parseSource_places table source
  refine ⟨hmarked.spans, fun d hd => valid_of_mem_diagnostics hd, hreports, ?_,
    Config.parse_places source⟩
  have hcheck : Check.ReportsValid source (Check.program ⟨table, settings⟩ parsed.program) :=
    Check.program_related (Check.Relation.places source ⟨table, settings⟩) parsed.program hmarked
  intro d hd
  exact hcheck {} (by simp) d (Array.mem_toList_iff.1 hd)

end Sqf
