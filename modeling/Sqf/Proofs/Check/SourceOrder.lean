import Sqf.Proofs.Check.Steps
import Sqf.Proofs.Command.Resolution
import Sqf.Proofs.Parse.SourceOrder

/-!
# In which order a check reports

A check goes through a tree in the order of the source, and reports most problems where it
comes upon them. A verdict on a construct comes when its parts have been checked: that it
lacks a part, or that a part has the wrong type. So of two diagnostics the first starts first,
unless the second is a verdict on a construct that the first lies in (`check_in_order`).
-/

namespace Sqf

/-- Some overload has more parameters than its arity has operands. -/
def Table.Overfull (table : Table) : Prop :=
  ∃ s ∈ table.signatures, s.arity.operands < s.parameters.length

namespace Table

/-- Only an overload with too many parameters refuses an operand that is not there. -/
theorem overfull_of_noMatch {table : Table} {name : String} {arity : Arity}
    {supplied : List ValueType} {closest : Signature} {argument : Nat}
    (hlength : supplied.length = arity.operands)
    (h : table.resolve name arity supplied = .noMatch closest argument)
    (hargument : supplied.length ≤ argument) : table.Overfull := by
  obtain ⟨before, behind, hoverloads, hmismatch, -⟩ := resolve_eq_noMatch_iff.1 h
  have hmem : closest ∈ table.overloads name arity := by simp [hoverloads]
  rw [overloads_eq, List.mem_filter, Bool.and_eq_true, decide_eq_true_eq] at hmem
  obtain ⟨hsignature, harity, -⟩ := hmem
  refine ⟨closest, hsignature, ?_⟩
  rw [harity, ← hlength]
  -- A mismatch behind the operands can only come from a difference in number.
  unfold Signature.mismatch? at hmismatch
  split at hmismatch
  · next hsame =>
    obtain ⟨hlt, -⟩ := List.findIdx?_eq_some_iff_getElem.1 hmismatch
    rw [List.length_zip] at hlt
    omega
  · next hother =>
    cases hmismatch
    omega

end Table

namespace Node

/-- A verdict on a node, which is reached when the parts of the node have been checked: that a
construct lacks a part, that a node has the wrong type, or that a command does not take its
operands. -/
def IsJudged (n : Node) (d : Diagnostic) : Prop :=
  match d.cause with
  | .missingCondition _ | .missingBody _ | .typeMismatch _ _ => d.span = n.span
  | .noApplicableOverload .. => n.command?.isSome ∧ d.span ∈ n.children.map span
  | _ => False

/-- A verdict on a node is at its span or at that of one of its children. -/
theorem IsJudged.span_mem {n : Node} {d : Diagnostic} (h : n.IsJudged d) : d.span ∈ n.spans := by
  have hself {sp : Span} (hsp : sp = n.span) : sp ∈ n.spans := hsp ▸ n.span_mem_spans
  unfold IsJudged at h
  split at h
  · exact hself h
  · exact hself h
  · exact hself h
  · obtain ⟨m, hm, hsp⟩ := List.mem_map.1 h.2
    exact hsp ▸ (spans_sublist_of_mem_children hm).subset m.span_mem_spans
  · cases h

end Node

/-- An operand that is not there is refused, as only an overload does that has too many
parameters. It has no place, so the diagnostic stands at offset 0. -/
def Diagnostic.Unplaced (table : Table) (d : Diagnostic) : Prop :=
  table.Overfull ∧ d.span = {} ∧
    ∃ command argument expected received,
      d.cause = .noApplicableOverload command argument expected received

/-- The first of two diagnostics starts first, or the second one is a verdict on a node of the
tree, and the first one lies in this node. -/
def Node.InOrder (table : Table) (tree : Node) (d e : Diagnostic) : Prop :=
  d.span.start ≤ e.span.start ∨ (∃ n ∈ tree.walk, n.IsJudged e ∧ d.span ∈ n.spans) ∨
    e.Unplaced table

namespace Check

/-- Diagnostics for a tree are in order. Each stands at one of some places, or is a verdict on one
of some nodes as a whole. -/
structure Found (table : Table) (tree : Node) (own : List Node) (places : List Span)
    (ds : List Diagnostic) : Prop where
  within : ∀ d ∈ ds, d.span ∈ places ∨ (∃ n ∈ own, n.IsJudged d ∧ d.span = n.span) ∨
    d.Unplaced table
  ordered : ds.Pairwise (Node.InOrder table tree)

/-- Verdicts on a node. -/
def Judges (table : Table) (n : Node) (ds : List Diagnostic) : Prop :=
  ∀ d ∈ ds, n.IsJudged d ∨ d.Unplaced table

/-- A node of a tree that is in the order of its source. -/
structure InTree (tree n : Node) : Prop where
  mem : n ∈ tree.walk
  sorted : tree.spans.Pairwise fun x y => x.start ≤ y.start

/-- Some parts of a node that is no operator, in order. -/
structure Parts (tree n : Node) (ms : List Node) : Prop extends InTree tree n where
  command : n.command? = none
  sub : ms.Sublist n.children

/-- What holds of a node as a part of the tree holds of its children. -/
theorem InTree.child {tree n m : Node} (h : InTree tree n) (hm : m ∈ n.children) : InTree tree m :=
  ⟨Node.mem_walk_of_mem_children h.mem hm, h.sorted⟩

/-- The children of a node that is no call stand in their order inside of it. -/
theorem InTree.parts {tree n : Node} (h : InTree tree n) (hcommand : n.command? = none) :
    Parts tree n n.children :=
  ⟨h, hcommand, List.Sublist.refl _⟩

namespace Parts

variable {tree n m : Node} {ms ms' : List Node}

/-- The first of its parts are parts. -/
theorem left (h : Parts tree n (ms ++ ms')) : Parts tree n ms :=
  ⟨h.toInTree, h.command, (List.sublist_append_left _ _).trans h.sub⟩

/-- So are the last. -/
theorem right (h : Parts tree n (ms ++ ms')) : Parts tree n ms' :=
  ⟨h.toInTree, h.command, (List.sublist_append_right _ _).trans h.sub⟩

/-- The first of some parts. -/
theorem head (h : Parts tree n (m :: ms)) : InTree tree m :=
  h.toInTree.child (h.sub.subset List.mem_cons_self)

/-- The spans of the parts are among those of the node, in their order and behind its own. -/
theorem spans_sublist (h : Parts tree n ms) :
    (n.span :: ms.flatMap Node.spans).Sublist n.spans := by
  rw [Node.spans_eq h.command]
  exact (h.sub.flatMap Node.spans).cons_cons _

end Parts

namespace Found

variable {table : Table} {tree n : Node} {own : List Node} {places xs ys : List Span}
  {ds es : List Diagnostic}

/-- Nothing has been found, which is in order. -/
theorem nil : Found table tree own places [] := ⟨nofun, .nil⟩

/-- What is found in order without verdicts is in order. -/
theorem of_plain (h : Found table tree [] places ds) : Found table tree own places ds := by
  refine ⟨fun d hd => (h.within d hd).imp_right (Or.imp_left ?_), h.ordered⟩
  rintro ⟨n, hn, -⟩
  cases hn

/-- What is found in a node lies in the node, or has no place. -/
theorem span_mem (h : Found table tree [n] places ds) (hsub : places ⊆ n.spans)
    {d : Diagnostic} (hd : d ∈ ds) : d.span ∈ n.spans ∨ d.Unplaced table := by
  rcases h.within d hd with hsp | ⟨m, hm, -, hown⟩ | hnone
  · exact .inl (hsub hsp)
  · rw [hown, List.mem_singleton.1 hm]
    exact .inl n.span_mem_spans
  · exact .inr hnone

/-- What is found in the parts of a node is found in the node. -/
theorem whole (h : Found table tree [n] places ds) (hsub : places ⊆ n.spans) :
    Found table tree [] n.spans ds :=
  ⟨fun _ hd => (h.span_mem hsub hd).imp_right .inr, h.ordered⟩

/-- A verdict on a node may come behind all that lies in the node. -/
theorem inOrder_of_isJudged {d e : Diagnostic} (hn : n ∈ tree.walk) (he : n.IsJudged e)
    (hd : d.span ∈ n.spans ∨ d.Unplaced table) : Node.InOrder table tree d e := by
  rcases hd with hd | ⟨-, hnone, -⟩
  · exact .inr (.inl ⟨n, hn, he, hd⟩)
  · left
    rw [hnone]
    exact Nat.zero_le _

/-- What is found first comes before what is found behind it, unless that is a verdict on the
node in which both are found. -/
theorem append (hn : InTree tree n) (hsub : (n.span :: (xs ++ ys)).Sublist n.spans)
    (h : Found table tree [n] xs ds) (hes : Found table tree [n] ys es) :
    Found table tree [n] (xs ++ ys) (ds ++ es) := by
  have hsorted := hn.sorted.sublist (hsub.trans (Node.spans_sublist_of_mem_walk hn.mem))
  rw [List.pairwise_cons, List.pairwise_append] at hsorted
  obtain ⟨hfirst, -, -, hbefore⟩ := hsorted
  have hxs : xs ⊆ n.spans := fun _ hx =>
    hsub.subset (List.mem_cons_of_mem _ (List.mem_append_left _ hx))
  constructor
  · intro d hd
    rcases List.mem_append.1 hd with hd | hd
    · exact (h.within d hd).imp_left fun hsp => List.mem_append_left _ hsp
    · exact (hes.within d hd).imp_left fun hsp => List.mem_append_right _ hsp
  · rw [List.pairwise_append]
    refine ⟨h.ordered, hes.ordered, fun d hd e he => ?_⟩
    -- Where does the later one come from: from its own part, as a verdict, or from nowhere?
    rcases hes.within e he with hy | ⟨m, hm, hjudged, -⟩ | hnone
    · left
      -- It is at a place behind. The earlier one may itself be a verdict on the node, which starts
      -- no later than its parts.
      rcases h.within d hd with hx | ⟨m, hm, -, hown⟩ | ⟨-, hnone, -⟩
      · exact hbefore _ hx _ hy
      · rw [hown, List.mem_singleton.1 hm]
        exact hfirst _ (List.mem_append_right _ hy)
      · rw [hnone]
        exact Nat.zero_le _
    · rw [List.mem_singleton.1 hm] at hjudged
      exact inOrder_of_isJudged hn.mem hjudged (h.span_mem hxs hd)
    · exact .inr (.inr hnone)

/-- A verdict on a node comes behind what is found in the node. -/
theorem judge (hn : n ∈ tree.walk) (hsub : xs ⊆ n.spans) (h : Found table tree [n] xs ds)
    (hes : Judges table n es) : Found table tree [] n.spans (ds ++ es) := by
  -- A verdict may stand behind whatever lies within the node.
  have hbehind {d e : Diagnostic} (he : e ∈ es) (hd : d.span ∈ n.spans ∨ d.Unplaced table) :
      Node.InOrder table tree d e := by
    rcases hes e he with hverdict | hnone
    · exact inOrder_of_isJudged hn hverdict hd
    · exact .inr (.inr hnone)
  have hplace {e : Diagnostic} (he : e ∈ es) : e.span ∈ n.spans ∨ e.Unplaced table :=
    (hes e he).imp_left Node.IsJudged.span_mem
  constructor
  · intro d hd
    rcases List.mem_append.1 hd with hd | hd
    · exact (h.span_mem hsub hd).imp_right .inr
    · exact (hplace hd).imp_right .inr
  · rw [List.pairwise_append]
    refine ⟨h.ordered, ?_, fun d hd e he => hbehind he (h.span_mem hsub hd)⟩
    exact List.pairwise_of_forall_mem_list fun d hd e he => hbehind he (hplace hd)

end Found

/-! ## Steps of a check -/

/-- What a check reports is as `P` says. -/
def Reports (P : List Diagnostic → Prop) (c : Check α) : Prop :=
  ∀ s, ∃ ds, (c s).2.diagnostics.toList = s.diagnostics.toList ++ ds ∧ P ds

namespace Reports

variable {P Q R : List Diagnostic → Prop} {c : Check α} {k : α → Check β}

/-- What is known of the reports may be weakened. -/
theorem weaken (h : Reports P c) (hQ : ∀ ds, P ds → Q ds) : Reports Q c := by
  intro s
  obtain ⟨ds, hds, hP⟩ := h s
  exact ⟨ds, hds, hQ ds hP⟩

/-- Checks one after the other report what the first reports and then what the second does. -/
theorem bind (h : Reports P c) (hk : ∀ a, Reports Q (k a))
    (hR : ∀ ds es, P ds → Q es → R (ds ++ es)) : Reports R (c >>= k) := by
  intro s
  obtain ⟨ds, hds, hP⟩ := h s
  obtain ⟨es, hes, hQ⟩ := hk (c s).1 (c s).2
  refine ⟨ds ++ es, ?_, hR ds es hP hQ⟩
  rw [← List.append_assoc, ← hds]
  exact hes

/-- A check that reports nothing. -/
theorem of_quiet (h : ∀ s, (c s).2.diagnostics = s.diagnostics) (hP : P []) : Reports P c :=
  fun s => ⟨[], by rw [h s, List.append_nil], hP⟩

/-- A check that does nothing reports nothing. -/
theorem pure {a : α} (hP : P []) : Reports P (Pure.pure a : Check α) :=
  of_quiet (fun _ => rfl) hP

/-- A check that reports nothing goes before another one. -/
theorem quiet_bind (h : ∀ s, (c s).2.diagnostics = s.diagnostics) (hk : ∀ a, Reports P (k a)) :
    Reports P (c >>= k) := by
  refine bind (P := fun ds => ds = []) (of_quiet h rfl) hk ?_
  rintro _ es rfl hes
  exact hes

/-- A check that reports nothing goes behind another one. -/
theorem bind_quiet (h : Reports P c) (hk : ∀ a s, (k a s).2.diagnostics = s.diagnostics) :
    Reports P (c >>= k) := by
  refine bind (Q := fun es => es = []) h (fun a => of_quiet (hk a) rfl) ?_
  rintro ds _ hds rfl
  rwa [List.append_nil]

/-- What is made of the result reports nothing. -/
theorem bind_pure (f : α → β) (h : Reports P c) : Reports P (do return f (← c)) :=
  h.bind_quiet fun _ _ => rfl

/-- A single report. -/
theorem report {cause : Cause} {sp : Span} (hP : P [⟨cause, sp⟩]) :
    Reports P (Check.report cause sp) :=
  fun _ => ⟨[⟨cause, sp⟩], Array.toList_push, hP⟩

end Reports

section Steps

variable {here : Nat}

/-- Declaring locals reports nothing. -/
theorem quiet_declareAll (names : List String) (s : State) :
    (declareAll here names s).2.diagnostics = s.diagnostics := by
  induction names generalizing s with
  | nil => rfl
  | cons name names ih => exact ih _

/-- Nor does declaring them with types of their own. -/
theorem quiet_declareLocals (locals : List (String × ValueType)) (s : State) :
    ((locals.forM fun (name, type) => declare here name type) s).2.diagnostics =
      s.diagnostics := by
  induction locals generalizing s with
  | nil => rfl
  | cons entry locals ih => exact ih _

/-- A diagnostic that is no verdict stands at a place. -/
theorem Found.singleton {table : Table} {tree : Node} {own : List Node} (cause : Cause)
    (sp : Span) : Found table tree own [sp] [⟨cause, sp⟩] :=
  ⟨List.forall_mem_singleton.2 (.inl (List.mem_singleton_self sp)), List.pairwise_singleton _ _⟩

/-- A name is reported at its own span, if at all. -/
theorem nameType_found (tree : Node) (cx : Context) (n : Name) :
    Reports (Found cx.table tree [] [n.span]) (nameType cx here n) := by
  -- A local may be undefined and a global may be a command that needs operands; all other ways
  -- report nothing.
  unfold nameType
  split
  · unfold localType
    split
    · exact .pure .nil
    · refine Reports.quiet_bind (fun _ => rfl) fun _ => ?_
      split
      · exact .pure .nil
      · split
        · exact (Reports.report (.singleton _ _)).bind_pure _
        · exact .pure .nil
  · unfold globalType
    split
    · exact .pure .nil
    · split
      · exact .pure .nil
      · split
        · exact (Reports.report (.singleton _ _)).bind_pure _
        · exact .pure .nil

/-- A command that is not known is reported at its name. -/
theorem commandExists_found (tree : Node) (own : List Node) (cx : Context) (command : Name)
    (arity : Arity) :
    Reports (Found cx.table tree own [command.span]) (commandExists cx command arity) := by
  unfold commandExists
  split
  · exact .pure .nil
  · exact (Reports.report (.singleton _ _)).bind_pure _

/-- A command judges its operands. -/
theorem resultIf_judges (cx : Context) (isKnown : Bool) (command : Name) {n : Node} {arity : Arity}
    {operands : List (ValueType × Span)} (hcommand : n.command?.isSome)
    (hoperands : operands.map Prod.snd = n.children.map Node.span)
    (h : operands.length = arity.operands) :
    Reports (Judges cx.table n)
      (if isKnown then resultType cx command arity operands else return .any) := by
  split
  · unfold resultType
    split
    · exact .pure nofun
    · next closest argument hresolve =>
      refine (Reports.report (List.forall_mem_singleton.2 ?_)).bind_pure _
      -- The operand that is refused may be missing, when an overload has too many parameters.
      cases hargument : operands[argument]? with
      | none =>
        refine .inr ⟨?_, rfl, _, _, _, _, rfl⟩
        refine Table.overfull_of_noMatch (by rwa [List.length_map]) hresolve ?_
        rw [List.length_map]
        exact List.getElem?_eq_none_iff.1 hargument
      | some o =>
        refine .inl ⟨hcommand, ?_⟩
        rw [← hoperands]
        exact List.mem_map_of_mem (List.mem_of_getElem? hargument)
    · exact .pure nofun
    · exact .pure nofun
  · exact .pure nofun

/-- A wrong type is a verdict on the node that has it. -/
theorem checkType_judges (table : Table) (n : Node) (expected received : ValueType) :
    Reports (Judges table n) (checkType expected received n.span) := by
  unfold checkType
  split
  · exact .report (List.forall_mem_singleton.2 (.inl rfl))
  · exact .pure nofun

end Steps

/-! ## Walking the tree -/

/-- What is found in some parts of a node. -/
abbrev FoundIn (table : Table) (tree n : Node) (ms : List Node) : List Diagnostic → Prop :=
  Found table tree [n] (ms.flatMap Node.spans)

section Parts

variable {table : Table} {tree n m : Node} {ms ms' : List Node} {xs ys : List Span}

/-- Checks of parts one after the other find in order what lies in these parts. -/
theorem Reports.append (hn : InTree tree n) (hsub : (n.span :: (xs ++ ys)).Sublist n.spans)
    {c : Check α} {k : α → Check β}
    (hc : Reports (Found table tree [n] xs) c) (hk : ∀ a, Reports (Found table tree [n] ys) (k a)) :
    Reports (Found table tree [n] (xs ++ ys)) (c >>= k) :=
  Reports.bind hc hk fun _ _ hds hes => hds.append hn hsub hes

/-- The same for parts that are children of the node. -/
theorem Parts.bind (h : Parts tree n (ms ++ ms')) {c : Check α} {k : α → Check β}
    (hc : Reports (FoundIn table tree n ms) c)
    (hk : ∀ a, Reports (FoundIn table tree n ms') (k a)) :
    Reports (FoundIn table tree n (ms ++ ms')) (c >>= k) := by
  have hsub := h.spans_sublist
  rw [FoundIn, List.flatMap_append] at *
  exact Reports.append h.toInTree hsub hc hk

/-- The same where nothing is found in a part at first. -/
theorem Parts.bind_own (h : Parts tree n ms) {c : Check α} {k : α → Check β}
    (hc : Reports (FoundIn table tree n []) c) (hk : ∀ a, Reports (FoundIn table tree n ms) (k a)) :
    Reports (FoundIn table tree n ms) (c >>= k) := by
  have hparts : Parts tree n ([] ++ ms) := h
  exact hparts.bind hc hk

/-- A node is judged when its parts have been checked. -/
theorem Reports.judge (hn : InTree tree n) (hsub : xs ⊆ n.spans) {c : Check α} {k : α → Check β}
    (hc : Reports (Found table tree [n] xs) c) (hk : ∀ a, Reports (Judges table n) (k a)) :
    Reports (Found table tree [] n.spans) (c >>= k) :=
  Reports.bind hc hk fun _ _ hds hes => hds.judge hn.mem hsub hes

/-- The type of a node is judged when the node has been checked. -/
theorem Reports.judgeType (hn : InTree tree n) {c : Check ValueType} (expected : ValueType)
    (hc : Reports (Found table tree [] n.spans) c) :
    Reports (Found table tree [] n.spans) (do checkType expected (← c) n.span) :=
  Reports.judge hn (List.Subset.refl _) (hc.weaken fun _ => .of_plain) fun type =>
    checkType_judges table n expected type

/-- The check of a child finds what lies in the child. -/
theorem Reports.part {c : Check α} (hc : Reports (Found table tree [] m.spans) c) :
    Reports (FoundIn table tree n [m]) c := by
  refine hc.weaken fun ds hds => ?_
  rw [FoundIn, List.flatMap_singleton]
  exact hds.of_plain

/-- What is found in the parts of a node is found in the node. -/
theorem Parts.whole {c : Check α} (h : Parts tree n ms) (hc : Reports (FoundIn table tree n ms) c) :
    Reports (Found table tree [] n.spans) c :=
  hc.weaken fun _ hds => hds.whole fun _ hsp => h.spans_sublist.subset (List.mem_cons_of_mem _ hsp)

/-- That a part is missing is a verdict on the whole. -/
theorem report_missing {cause : Cause} (h : n.IsJudged ⟨cause, n.span⟩) :
    Reports (FoundIn table tree n []) (report cause n.span) :=
  .report ⟨List.forall_mem_singleton.2 (.inr (.inl ⟨n, List.mem_singleton_self n, h, rfl⟩)),
    List.pairwise_singleton _ _⟩

end Parts

section Walk

variable {tree : Node} (cx : Context)

/-- The command is looked up before its operand is checked, and resolved behind it. -/
theorem unary_found {here : Nat} {command : Name} {operand : Expr} {span : Span}
    (h : InTree tree (.expr (.unary command operand span)))
    (hoperand : Reports (Found cx.table tree [] (Node.expr operand).spans) (expr cx here operand)) :
    Reports (Found cx.table tree [] (Node.expr (.unary command operand span)).spans)
      (expr cx here (.unary command operand span)) := by
  have hsub : (span :: ([command.span] ++ (Node.expr operand).spans)).Sublist
      (Node.expr (.unary command operand span)).spans := by
    rw [Node.spans_unary]
    exact List.Sublist.refl _
  -- The command is looked up before the operand is checked, and it stands before it.
  have hchecked := Reports.append (k := fun isKnown => do
      declareAll here (declaredNames command operand)
      return (isKnown, ← expr cx here operand)) h hsub
    (commandExists_found tree _ cx command .unary) fun isKnown =>
      .quiet_bind (quiet_declareAll _) fun _ => (hoperand.bind_pure _).weaken fun _ => .of_plain
  have hresolved (checked : Bool × ValueType) :
      Reports (Judges cx.table (.expr (.unary command operand span)))
        (if checked.1 then resultType cx command .unary [(checked.2, operand.span)]
          else return .any) :=
    resultIf_judges cx checked.1 command rfl rfl rfl
  have hresult := Reports.judge h (fun _ hsp => hsub.subset (List.mem_cons_of_mem _ hsp)) hchecked
    hresolved
  exact hresult

/-- The command is looked up between its operands, and resolved behind them. -/
theorem binary_found {here : Nat} {joint : Joint} {left right : Expr} {command : Name}
    {span : Span} (h : InTree tree (.expr (.binary joint left command right span)))
    (hleft : Reports (Found cx.table tree [] (Node.expr left).spans) (expr cx here left))
    (hright : Reports (Found cx.table tree [] (Node.expr right).spans) (expr cx here right)) :
    Reports (Found cx.table tree [] (Node.expr (.binary joint left command right span)).spans)
      (expr cx here (.binary joint left command right span)) := by
  have hsub : (span :: ((Node.expr left).spans ++ ([command.span] ++
      (Node.expr right).spans))).Sublist
      (Node.expr (.binary joint left command right span)).spans := by
    rw [Node.spans_binary]
    exact List.Sublist.refl _
  -- Behind the left operand come the command and the right operand.
  have hbehind (leftType : ValueType) := Reports.append (k := fun isKnown => do
      let rightType ← expr cx here right
      declareAll here (declaredNames command right)
      return (leftType, isKnown, rightType)) h
    (((List.sublist_append_right _ _).cons_cons span).trans hsub)
    (commandExists_found tree _ cx command .binary) fun isKnown =>
      (hright.bind_quiet fun _ _ => quiet_declareAll _ _).weaken fun _ => .of_plain
  have hchecked := Reports.append h hsub (hleft.weaken fun _ => .of_plain) hbehind
  have hresolved (checked : ValueType × Bool × ValueType) :
      Reports (Judges cx.table (.expr (.binary joint left command right span)))
        (if checked.2.1 then
          resultType cx command .binary [(checked.1, left.span), (checked.2.2, right.span)]
          else return .any) :=
    resultIf_judges cx checked.2.1 command rfl rfl rfl
  have hresult := Reports.judge h (fun _ hsp => hsub.subset (List.mem_cons_of_mem _ hsp)) hchecked
    hresolved
  exact hresult

mutual

/-- The check of an expression finds in order what lies in it. The induction is on the tree; that
the spans are in the order of the source is known of the whole tree and handed down. -/
theorem expr_found (here : Nat) (e : Expr) (h : InTree tree (.expr e)) :
    Reports (Found cx.table tree [] (Node.expr e).spans) (expr cx here e) := by
  cases e with
  | number value span => exact .pure .nil
  | string value span => exact .pure .nil
  | name n =>
    rw [Node.spans_eq rfl]
    exact nameType_found tree cx n
  | array elements span =>
    have hparts := h.parts rfl
    exact hparts.whole ((exprs_found here elements hparts).bind_pure _)
  | block b =>
    have hparts := h.parts rfl
    exact hparts.whole ((block_found here [] b hparts).bind_pure _)
  | unary command operand span =>
    exact unary_found cx h (expr_found here operand (h.child (by simp [Node.children])))
  | binary joint left command right span =>
    exact binary_found cx h (expr_found here left (h.child (by simp [Node.children])))
      (expr_found here right (h.child (by simp [Node.children])))
  | control c =>
    have hparts := h.parts rfl
    exact hparts.whole (control_found here c rfl hparts)
  | error span => exact .pure .nil

/-- Elements are checked from left to right. -/
theorem exprs_found {n : Node} (here : Nat) (es : List Expr) (h : Parts tree n (es.map .expr)) :
    Reports (FoundIn cx.table tree n (es.map .expr)) (exprs cx here es) := by
  cases es with
  | nil => exact .pure .nil
  | cons e es =>
    have hparts : Parts tree n ([.expr e] ++ es.map .expr) := h
    have he := expr_found here e h.head
    exact hparts.bind he.part fun _ => (exprs_found here es hparts.right).bind_pure _

/-- An assignment reports what its value does; binding the name is quiet. -/
theorem stmt_found (here : Nat) (a : Stmt) (h : InTree tree (.stmt a)) :
    Reports (Found cx.table tree [] (Node.stmt a).spans) (stmt cx here a) := by
  cases a with
  | expression e =>
    have hparts := h.parts rfl
    exact hparts.whole (expr_found here e hparts.head).part
  | assignment isPrivate target value span =>
    have hparts := h.parts rfl
    have hvalue := expr_found here value hparts.head
    refine hparts.whole (Reports.part (hvalue.bind_quiet fun type s => ?_))
    split
    · rfl
    · split <;> rfl
  | control c =>
    have hparts := h.parts rfl
    exact hparts.whole (control_found here c rfl hparts)
  | error span => exact .pure .nil

/-- Statements are checked one after the other. -/
theorem stmts_found {n : Node} (here : Nat) (last : ValueType) (ss : List Stmt)
    (h : Parts tree n (ss.map .stmt)) :
    Reports (FoundIn cx.table tree n (ss.map .stmt)) (stmts cx here last ss) := by
  cases ss with
  | nil => exact .pure .nil
  | cons a ss =>
    have hparts : Parts tree n ([.stmt a] ++ ss.map .stmt) := h
    have ha := stmt_found here a h.head
    exact hparts.bind ha.part fun type => stmts_found here type ss hparts.right

/-- A block opens its scope quietly and checks its statements. -/
theorem block_found {n : Node} (here : Nat) (locals : List (String × ValueType)) (b : Block)
    (h : Parts tree n (b.statements.map .stmt)) :
    Reports (FoundIn cx.table tree n (b.statements.map .stmt)) (block cx here locals b) := by
  cases b with
  | mk id statements span =>
    exact .quiet_bind (fun _ => rfl) fun inside => .quiet_bind (quiet_declareLocals locals)
      fun _ => stmts_found inside .nothing statements h

/-- A part that is missing reports nothing. -/
theorem expr?_found {n : Node} (here : Nat) (e : Option Expr)
    (h : Parts tree n (e.toList.map .expr)) :
    Reports (FoundIn cx.table tree n (e.toList.map .expr)) (expr? cx here e) := by
  cases e with
  | none => exact .pure .nil
  | some e =>
    exact (expr_found here e h.head).part.bind_pure _

/-- A branch is checked as a block or as an expression. -/
theorem branch?_found {n : Node} (here : Nat) (e : Option Expr)
    (h : Parts tree n (e.toList.map .expr)) :
    Reports (FoundIn cx.table tree n (e.toList.map .expr)) (branch? cx here e) := by
  cases e with
  | none => exact .pure .nil
  | some e =>
    have he := h.head
    cases e with
    | block b =>
      have hparts := he.parts rfl
      exact (hparts.whole (block_found here [] b hparts)).part.bind_pure _
    | _ => exact (expr_found here _ he).part.bind_pure _

/-- A condition of a loop is checked, and then judged by its type. A missing one is a verdict on
the loop. -/
theorem loopCondition_found {n : Node} (here : Nat) (construct : String) (e : Option Expr)
    (h : Parts tree n (e.toList.map .expr)) :
    Reports (FoundIn cx.table tree n (e.toList.map .expr))
      (loopCondition cx here construct n.span e) := by
  cases e with
  | none => exact report_missing rfl
  | some e =>
    have he := h.head
    cases e with
    | block b =>
      have hparts := he.parts rfl
      exact (Reports.judgeType he .boolean (hparts.whole (block_found here [] b hparts))).part
    | _ => exact (Reports.judgeType he .code (expr_found here _ he)).part

/-- A bound is checked, and then judged by its type. -/
theorem bound?_found {n : Node} (here : Nat) (e : Option Expr)
    (h : Parts tree n (e.toList.map .expr)) :
    Reports (FoundIn cx.table tree n (e.toList.map .expr)) (bound? cx here e) := by
  cases e with
  | none => exact .pure .nil
  | some e =>
    exact (Reports.judgeType h.head .number (expr_found here e h.head)).part

/-- A missing body is a verdict on the construct. -/
theorem body?_found {n : Node} (here : Nat) (locals : List (String × ValueType))
    (construct : String) (b : Option Block) (h : Parts tree n (b.toList.map .block)) :
    Reports (FoundIn cx.table tree n (b.toList.map .block))
      (body? cx here locals construct n.span b) := by
  cases b with
  | none => exact report_missing rfl
  | some b =>
    have hparts := h.head.parts rfl
    exact (hparts.whole (block_found here locals b hparts)).part.bind_pure _

/-- What a loop starts with is checked in the scope of the loop. -/
theorem init?_found {n : Node} (here : Nat) (e : Option Expr)
    (h : Parts tree n (e.toList.map .expr)) :
    Reports (FoundIn cx.table tree n (e.toList.map .expr)) (init? cx here e) := by
  cases e with
  | none => exact .pure .nil
  | some e =>
    have he := h.head
    cases e with
    | block b =>
      cases b with
      | mk id statements span =>
        have hparts := he.parts rfl
        exact (hparts.whole (stmts_found here .nothing statements hparts)).part.bind_pure _
    | _ => exact (expr_found here _ he).part.bind_pure _

/-- The parts of a construct are checked in the order in which they stand. -/
theorem control_found {n : Node} (here : Nat) (c : Control) (hspan : n.span = c.span)
    (h : Parts tree n c.children) :
    Reports (FoundIn cx.table tree n c.children) (control cx here c) := by
  cases c with
  | ifThen condition form branch otherwise span =>
    obtain rfl : n.span = span := hspan
    have hparts : Parts tree n (condition.toList.map .expr ++ ([.expr branch] ++
      otherwise.toList.map .expr)) := h
    have hthen : Reports (Found cx.table tree [] (Node.expr branch).spans)
        (thenPart cx here branch) := by
      cases branch with
      | block b =>
        have hinside := hparts.right.head.parts rfl
        exact hinside.whole (block_found here [] b hinside)
      | _ => exact expr_found here _ hparts.right.head
    -- With a condition or without, the branches are checked in the same way.
    have hbranches := hparts.right.bind hthen.part fun thenType =>
      (branch?_found here otherwise hparts.right.right).bind_pure (ifType form thenType)
    rw [control_ifThen]
    cases condition with
    | none => exact hparts.bind (report_missing rfl) fun _ => hbranches
    | some e =>
      have he := hparts.left.head
      have hcondition := Reports.judgeType he .boolean (expr_found here e he)
      have hwhole := hparts.bind hcondition.part fun _ => hbranches
      exact hwhole
  | whileDo condition body span =>
    obtain rfl : n.span = span := hspan
    have hparts : Parts tree n (condition.toList.map .expr ++ body.toList.map .block) := h
    exact hparts.bind (loopCondition_found here "while" condition hparts.left) fun _ =>
      (body?_found here [] "while" body hparts.right).bind_pure _
  | forDo header body span =>
    obtain rfl : n.span = span := hspan
    cases header with
    | range name first last step =>
      have hchildren : (Control.forDo (.range name first last step) body n.span).children =
          first.toList.map .expr ++ (last.toList.map .expr ++ (step.toList.map .expr ++
            body.toList.map .block)) := by
        simp [Control.children, ForHeader.parts]
      rw [hchildren] at h ⊢
      have hlast := h.right
      have hstep := hlast.right
      have hloop := h.bind (bound?_found here first h.left) fun _ =>
        hlast.bind (bound?_found here last hlast.left) fun _ =>
          hstep.bind (bound?_found here step hstep.left) fun _ =>
            (body?_found here [(name.text, .number)] "for" body hstep.right).bind_pure fun _ =>
              (.nothing : ValueType)
      rw [control]
      split
      · exact h.bind_own (report_missing rfl) fun _ => hloop
      · exact hloop
    | classic init condition step =>
      have hchildren : (Control.forDo (.classic init condition step) body n.span).children =
          init.toList.map .expr ++ (condition.toList.map .expr ++ (step.toList.map .expr ++
            body.toList.map .block)) := by
        simp [Control.children, ForHeader.parts]
      rw [hchildren] at h ⊢
      have hcondition := h.right
      have hstep := hcondition.right
      exact .quiet_bind (fun _ => rfl) fun loop => h.bind (init?_found loop init h.left) fun _ =>
        hcondition.bind (loopCondition_found loop "for" condition hcondition.left) fun _ =>
          hstep.bind (expr?_found loop step hstep.left) fun _ =>
            (body?_found loop [] "for" body hstep.right).bind_pure _
    | missing =>
      have hbody := (body?_found here [] "for" body h).bind_pure fun _ => (.nothing : ValueType)
      exact h.bind_own (report_missing rfl) fun _ => hbody
  | switchDo subject body span =>
    obtain rfl : n.span = span := hspan
    have hparts : Parts tree n (subject.toList.map .expr ++ body.toList.map .block) := h
    have hbody := (body?_found here [] "switch" body hparts.right).bind_pure fun _ =>
      (.any : ValueType)
    cases subject with
    | none => exact hparts.bind (report_missing rfl) fun _ => hbody
    | some e =>
      exact hparts.bind (expr_found here e hparts.left.head).part fun _ => hbody
  | case isDefault condition b span =>
    have hparts : Parts tree n (condition.toList.map .expr ++ b.toList.map .block) := h
    rw [control]
    refine hparts.bind (expr?_found here condition hparts.left) fun _ => ?_
    cases b with
    | none => exact .pure .nil
    | some b =>
      have hinside := hparts.right.head.parts rfl
      exact (hinside.whole (block_found here [] b hinside)).part.bind_pure _

end

end Walk

end Check

/-- What is reported of a script that has been read is in the order of the source, up to verdicts
on the constructs in which something has been reported before. -/
theorem check_in_order (table table' : Table) (settings : Settings) (source : String) :
    let p := (parseSource table source).program
    (check table' settings p).diagnostics.Pairwise (Node.InOrder table' (.program p)) := by
  intro p
  have hroot : Check.InTree (.program p) (.program p) :=
    ⟨Node.mem_walk_self _, Parse.spans_parse table source⟩
  have hparts := hroot.parts rfl
  obtain ⟨ds, hds, hfound⟩ := Check.stmts_found ⟨table', settings⟩ 0 .nothing p.statements hparts {}
  have hall : (check table' settings p).diagnostics = ds := hds
  rw [hall]
  exact hfound.ordered

/-- A condition that is no truth value, with an unknown command inside. -/
def arrayCondition : String := "if ([foo 1]) then \x7b\x7d"

/-- The command is reported before the condition that it stands in. -/
theorem condition_judged_late :
    ¬ (check .empty ⟨true, []⟩ (parseSource .empty arrayCondition).program).diagnostics.Pairwise
      fun d e => d.span.start ≤ e.span.start := by
  decide +kernel

end Sqf
