import Sqf.Proofs.Parse.KeepsExpr
import Sqf.Proofs.Parse.Progress
import Sqf.Proofs.Token.Tiling

/-!
# Scripts that are read without a report

A script that is read without a report keeps all of its code, if its loop headers
fit: each number, string, name and operator is in one leaf of the tree
(`clean_script_keeps_code`). A loop header in brackets with more than three parts
loses those behind the third, and nothing is reported (`fourth_part_dropped`).
-/

namespace Sqf.Parse

/-! ## Statements -/

/-- The leaves of statements. -/
def stmtLeaves (stmts : List Stmt) : List Leaf := (stmts.map .stmt).flatMap Node.leaves

/-- The token behind the next one comes next when that is read. -/
theorem State.kindAt_one {s u : State} {t : Token} (h : s.rest = t :: u.rest) :
    s.kindAt 1 = u.kind := by
  unfold State.kindAt State.kind State.token
  rw [h]
  cases u.rest <;> rfl

namespace Level

variable {inner : Level} (levels : LevelKeeps inner) {s : State}

include levels

/-- An assignment keeps its name and its value. -/
theorem assignment_keeps (isPrivate : Bool) (start : Span) (hk : s.kind = .identifier) :
    KeepsOrFails (inner.assignment isPrivate start)
      (fun st ts => Accounts (Node.stmt st).leaves ts) s := by
  refine KeepsOrFails.advance_bind hk (by decide) fun name t _ hname => ?_
  refine (KeepsOrFails.expect (by decide) _).bind fun sign u => ?_
  refine (levels.expr .lowest u).bind fun value v => KeepsOrFails.pure ?_
  rintro ts ⟨-, hvalue⟩ _ ⟨rfl, hsign⟩
  rw [Node.leaves_eq]
  simpa [Node.ownLeaves, Node.children] using
    (hvalue.shape hsign rfl).leaf (l := .target ⟨name.value, name.span⟩) (by rw [hname]; rfl)
      (by rw [hname]; rfl) ⟨hname, rfl⟩

/-- Any statement keeps its code. -/
theorem statement_keeps :
    KeepsOrFails inner.statement (fun st ts => Accounts (Node.stmt st).leaves ts) s := by
  unfold statement
  refine KeepsOrFails.state_bind ?_
  split
  · next hprivate =>
    simp only [Bool.and_eq_true, decide_eq_true_eq] at hprivate
    refine KeepsOrFails.advance_bind hprivate.1.1 (by decide) fun keyword t hrest hkeyword => ?_
    have hname : t.kind = .identifier := by rw [← State.kindAt_one hrest, hprivate.1.2]
    exact (assignment_keeps levels true _ hname).weaken fun st ts hts => hts.shape hkeyword rfl
  · split
    · next hcontrol =>
      refine KeepsOrFails.lift_bind (control_keeps levels hcontrol) fun c t =>
        KeepsOrFails.pure ?_
      rintro ts ⟨-, hts⟩
      rw [List.append_nil, Node.leaves_eq]
      exact hts
    · split
      · next hassign =>
        simp only [Bool.and_eq_true, decide_eq_true_eq] at hassign
        exact assignment_keeps levels false _ hassign.1
      · refine (levels.expr .lowest s).bind fun e t => KeepsOrFails.pure ?_
        rintro ts ⟨-, hts⟩
        rw [Node.leaves_eq]
        simpa [Node.ownLeaves, Node.children] using hts

omit levels in
/-- Separators are no code. -/
theorem separator_keeps : Keeps separator (fun _ ts => Holds [] ts) s := by
  unfold separator
  refine Keeps.state_bind ?_
  split
  · next hseparator =>
    have hne : s.kind ≠ .endOfInput := by
      intro hend
      rw [hend] at hseparator
      cases hseparator
    refine Keeps.advance_bind rfl hne fun t u _ ht => Keeps.pure ?_
    refine Holds.separators ?_
    simpa [ht] using hseparator
  · split
    · exact (Keeps.report _).weaken fun _ _ hfalse => hfalse.elim
    · exact Keeps.pure .nil

/-- A statement that is skipped is reported, so here it has been read. -/
theorem statementOrError_keeps :
    Keeps inner.statementOrError (fun st ts => Holds (Node.stmt st).leaves ts) s := by
  refine Keeps.state_bind (Keeps.bind (statement_keeps levels) fun outcome t => ?_)
  cases outcome with
  | ok st =>
    refine Keeps.bind separator_keeps fun _ u => Keeps.pure fun us hus ts hts => ?_
    simpa using (hts st rfl).holds.append hus
  | error d =>
    exact (Keeps.report d).bind fun _ _ => (Keeps.synchronize _).bind fun _ _ =>
      Keeps.pure fun _ _ _ hfalse => hfalse.elim

/-- A statement, or none at the end. -/
theorem statementOrNone_keeps (enclosure : Enclosure) :
    Keeps (inner.statementOrNone enclosure) (fun st ts => Holds (stmtLeaves st.toList) ts) s := by
  unfold statementOrNone
  refine Keeps.kind_bind ?_
  split
  · exact Keeps.pure .nil
  · next hk =>
    cases enclosure with
    | block => exact Keeps.pure .nil
    | file =>
      refine Keeps.advance_bind hk (by decide) fun t u _ _ => ?_
      exact (Keeps.report _).bind fun _ _ => Keeps.pure fun _ hfalse => hfalse.elim
  · refine Keeps.bind (statementOrError_keeps levels) fun st t => Keeps.pure fun ts hts => ?_
    simpa [stmtLeaves] using hts

/-- The separators in front of a statement are no code. -/
theorem turn_keeps (enclosure : Enclosure) :
    Keeps (inner.turn enclosure) (fun st ts => Holds (stmtLeaves st.toList) ts) s := by
  refine Keeps.state_bind (Keeps.bind (Keeps.skip _) fun _ t => ?_)
  refine (statementOrNone_keeps levels enclosure).weaken ?_
  rintro st us hus _ rfl
  have hpassed : s.rest.take (separators s.rest) = s.rest.takeWhile fun t => t.kind.isSeparator :=
    List.prefix_iff_eq_take.1 (List.takeWhile_prefix _) |>.symm
  rw [hpassed]
  exact (Holds.separators fun t ht => by simpa using List.mem_takeWhile_imp ht).append hus

/-- Statements are read one after the other; the recursion is over the tokens left. -/
theorem statements_keeps (s : State) (enclosure : Enclosure) :
    Keeps (inner.statements enclosure) (fun stmts ts => Holds (stmtLeaves stmts) ts) s := by
  unfold statements
  rw [many_eq]
  refine Keeps.state_bind (Keeps.bind_run (turn_keeps levels enclosure) ?_)
  cases (inner.turn enclosure s).value with
  | none => exact Keeps.pure fun ts hts => by simpa using hts
  | some st =>
    refine Keeps.state_bind ?_
    split
    · next hlt =>
      refine Keeps.bind (statements_keeps _ enclosure) fun stmts t => Keeps.pure ?_
      intro us hus ts hts
      simpa [stmtLeaves] using hts.append hus
    · refine Keeps.bind Keeps.stall fun _ _ => Keeps.pure ?_
      rintro _ rfl ts hts
      simpa using hts
termination_by s.rest.length

omit levels in
/-- A brace that is not missing is one token. -/
theorem closingBrace_keeps :
    Keeps closingBrace (fun _ ts => ∃ t, ts = [t] ∧ t.kind = .closeCurly) s := by
  unfold closingBrace
  refine Keeps.kind_bind ?_
  split
  · next hk =>
    exact Keeps.advance_bind hk (by decide) fun t u _ ht => Keeps.pure ⟨t, rfl, ht⟩
  · exact (Keeps.reportUnexpected _).weaken fun _ _ hfalse => hfalse.elim

/-- A block keeps the code of its statements, between its braces. -/
theorem codeBlock_keeps (hk : s.kind = .openCurly) :
    Keeps inner.codeBlock (fun b ts => ts ≠ [] ∧ Accounts (Node.block b).leaves ts) s := by
  refine Keeps.advance_bind hk (by decide) fun start t _ hstart => ?_
  refine Keeps.bind Keeps.freshId fun id u => ?_
  refine Keeps.bind (statements_keeps levels u .block) fun stmts v => ?_
  refine Keeps.bind closingBrace_keeps fun _ w => ?_
  refine Keeps.bind (Keeps.spanFrom _) fun span x => Keeps.pure ?_
  rintro _ rfl _ ⟨closer, rfl, hcloser⟩ ts hts _ rfl
  refine ⟨List.cons_ne_nil _ _, ?_⟩
  rw [Node.leaves_eq]
  exact Accounts.group (by rw [hstart, hcloser]; rfl) hts

end Level

/-- However many levels may be nested, what is read of them keeps all code. -/
theorem level_keeps (table : Table) (n : Nat) : LevelKeeps (level table n) := by
  induction n with
  | zero =>
    have hexpr (Q : Expr → List Token → Prop) (s : State) : KeepsOrFails Level.deepExpr Q s :=
      KeepsOrFails.lift_bind Keeps.skipNested fun _ _ =>
        KeepsOrFails.pure fun _ hfalse => hfalse.elim
    refine ⟨fun _ => hexpr _, fun s _ => ?_, fun s _ _ _ _ _ => hexpr _ s⟩
    exact Keeps.state_bind (Keeps.bind Keeps.freshId fun _ _ =>
      Keeps.bind Keeps.skipNested fun _ _ => Keeps.pure fun _ hfalse => hfalse.elim)
  | succ n ih =>
    exact ⟨fun tier s => Level.expression_keeps ih table tier,
      fun s hk => Level.codeBlock_keeps ih hk,
      fun s bracket ts hrest hbracket hfits => Level.header_keeps ih table hrest hbracket hfits⟩

/-! ## Scripts -/

/-- Outside of any block, statements are read up to the end of the input. -/
theorem Level.statements_file_end (table : Table) (n : Nat) (s : State) :
    ((level table (n + 1)).statements .file s).next.kind = .endOfInput := by
  cases hvalue : ((level table (n + 1)).turn .file s).value with
  | none =>
    have hstop := Loop.stop hvalue
    rw [statements, (many_of_none hvalue).2]
    exact kind_of_file_loop hstop
  | some st =>
    rcases turn_progress table (n + 1) .file s with hnone | hlt | ⟨hzero, -⟩
    · rw [hvalue] at hnone
      cases hnone
    · rw [(statements_of_some table n .file hvalue).2]
      have hlt : ((level table (n + 1)).turn .file s).next.rest.length < s.rest.length := hlt
      exact statements_file_end table n _
    · cases hzero
termination_by s.rest.length

/-- The code of tokens that are read without a report is in the leaves of the tree. -/
theorem parse_holds {table : Table} {ts : List Token} {t : Token} (ht : t.kind = .endOfInput)
    (hts : ∀ u ∈ ts, u.kind ≠ .endOfInput)
    (hclean : (parse table (ts ++ [t])).diagnostics = [])
    (hfit : headersFit (ts ++ [t]) = true) :
    Holds (Node.program (parse table (ts ++ [t])).program).leaves ts := by
  have hrest : (State.initial (ts ++ [t])).rest = ts := by rw [initial_append_end ht]
  have hend : ((level table maxNesting).statements .file
      (.initial (ts ++ [t]))).next.kind = .endOfInput :=
    Level.statements_file_end table (maxNesting - 1) _
  have hkeeps := Level.statements_keeps (level_keeps table maxNesting) (.initial (ts ++ [t])) .file
  rcases hkeeps (by rw [hrest]; exact headersFit_of_append hfit) with ⟨-, hread⟩
  have hsize : ((level table maxNesting).statements .file
      (.initial (ts ++ [t]))).next.diagnostics.size =
        (State.initial (ts ++ [t])).diagnostics.size := by
    rw [(initial_found _).2.2.1]
    exact congrArg List.length hclean
  rcases hread hsize with ⟨us, hus, hholds⟩
  -- Nothing is left, since only the end of input has its kind.
  have hall : ((level table maxNesting).statements .file
      (.initial (ts ++ [t]))).next.rest = [] := by
    cases hnext : ((level table maxNesting).statements .file
      (.initial (ts ++ [t]))).next.rest with
    | nil => rfl
    | cons u vs =>
      have hmem : u ∈ ts := by
        rw [← hrest, hus, hnext]
        simp
      exact absurd ((State.kind_cons hnext).symm.trans hend) (hts u hmem)
  rw [hrest, hall, List.append_nil] at hus
  subst hus
  rw [Node.leaves_eq]
  exact hholds

end Sqf.Parse

namespace Sqf

open Parse Piece

/-- No two tokens stand at the same place. -/
theorem scan_places (source : String) :
    (scan source).tokens.Pairwise fun t u => t.span ≠ u.span := by
  have hne : ∀ p ∈ pieces source.toList, p.text ≠ [] := fun p hp => text_ne_nil hp
  rw [tokens_scan, List.pairwise_append]
  refine ⟨?_, List.pairwise_singleton _ _, fun t ht u hu hspan => ?_⟩
  · refine (tokens_pairwise hne).imp fun hlt hspan => ?_
    rw [hspan] at hlt
    omega
  · rw [List.mem_singleton] at hu
    have hlt := start_lt_of_mem ht
    rw [hspan, hu] at hlt
    exact absurd hlt.1 (Nat.lt_irrefl _)

/-- Only the last token is the end of input. -/
theorem kind_ne_endOfInput {source : String} {t : Token}
    (ht : t ∈ tokens 0 (pieces source.toList)) : t.kind ≠ .endOfInput := by
  rcases exists_of_mem_tokens ht with ⟨front, p, back, hpieces, htoken⟩
  exact (spells_of_piece hpieces htoken).1

/-- A script that is read without any report keeps all of its code, if its loop headers in brackets
have at most three parts each: for every number, string, name and operator there is exactly one leaf
of the tree at its place, and this leaf has its text. -/
theorem clean_script_keeps_code (table : Table) (source : String)
    (hclean : (parseSource table source).diagnostics = [])
    (hfit : headersFit (scan source).tokens = true) :
    ∀ t ∈ (scan source).tokens, t.kind.isCode = true →
      ∃ l : Leaf, l.IsOf t ∧
        (Node.program (parseSource table source).program).leaves.filter
          (fun l => l.span = t.span) = [l] := by
  intro t ht hcode
  -- The reports of a source are those of its tokens and those of its tree, sorted.
  have hreports : (parse table (scan source).tokens).diagnostics = [] := by
    have hperm := Diagnostic.sortByStart_perm
      ((scan source).diagnostics ++ (parse table (scan source).tokens).diagnostics)
    have hsorted : Diagnostic.sortByStart
        ((scan source).diagnostics ++ (parse table (scan source).tokens).diagnostics) = [] := hclean
    rw [hsorted] at hperm
    exact (List.append_eq_nil_iff.1 hperm.nil_eq.symm).2
  have hplaces := scan_places source
  rw [tokens_scan] at ht hfit hreports hplaces
  -- Tokens stand at different places, so a leaf is found by its span.
  have hholds := parse_holds rfl (fun u hu => kind_ne_endOfInput hu) hreports hfit
  rcases List.mem_append.1 ht with ht | ht
  · exact hholds.covers.filter_span (List.pairwise_append.1 hplaces).1 ht hcode
  · rw [List.mem_singleton] at ht
    subst ht
    cases hcode

/-- A loop with three parts: `for [{_i = 0}, {_i < 2}, {_i = _i + 1}] do {hint "x"}`. -/
def loopOfThree : String :=
  "for [\x7b_i = 0\x7d, \x7b_i < 2\x7d, \x7b_i = _i + 1\x7d] do \x7bhint \"x\"\x7d"

theorem three_parts_kept :
    (parseSource .empty loopOfThree).diagnostics = [] ∧
      headersFit (scan loopOfThree).tokens = true ∧
      ∀ t ∈ (scan loopOfThree).tokens, t.kind.isCode = true →
        ∃ l : Leaf, l.IsOf t ∧
          (Node.program (parseSource .empty loopOfThree).program).leaves.filter
            (fun l => l.span = t.span) = [l] := by
  have hclean : (parseSource .empty loopOfThree).diagnostics = [] := by decide +kernel
  have hfit : headersFit (scan loopOfThree).tokens = true := by decide +kernel
  exact ⟨hclean, hfit, clean_script_keeps_code .empty loopOfThree hclean hfit⟩

/-- A loop with four parts: `for [{}, {}, {}, {hint "x"}] do {}`. -/
def loopOfFour : String :=
  "for [\x7b\x7d, \x7b\x7d, \x7b\x7d, \x7bhint \"x\"\x7d] do \x7b\x7d"

/-- The string in the fourth part is in no leaf, and nothing is reported. -/
theorem fourth_part_dropped :
    (parseSource .empty loopOfFour).diagnostics = [] ∧
      ∃ t ∈ (scan loopOfFour).tokens, t.kind = .string ∧
        ∀ l ∈ (Node.program (parseSource .empty loopOfFour).program).leaves, ¬ l.IsOf t := by
  have hleaves : (Node.program (parseSource .empty loopOfFour).program).leaves.length = 0 := by
    decide +kernel
  refine ⟨by decide +kernel, ⟨.string, "x", ⟨23, 26⟩⟩, ?_, rfl, ?_⟩
  · decide +kernel
  · rw [List.eq_nil_of_length_eq_zero hleaves]
    nofun

end Sqf
