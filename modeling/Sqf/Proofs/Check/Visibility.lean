import Sqf.Proofs.Check.Events
import Sqf.Proofs.Check.Steps
import Sqf.Proofs.Scope

/-!
# Which locals are defined where they are read

The checker keeps scopes that change while it runs, and an assignment may bind in
a scope further out. Nevertheless it reports just the reads that are undefined by
position. The check of a part of a script does to the state what the walk through
that part does to the events (`Follows`), where a state goes with the events so
far if a name is visible from a scope just when an event binds it there or around
(`Tracks`).
-/

namespace Sqf.Check

/-! ## The checker follows the walk -/

/-- What the state of the checker has to do with a walk: a name is visible from a scope if
something so far has bound it there or around, and what was undefined has been reported. -/
structure Tracks (s : State) (w : Walk) : Prop where
  size : s.scopes.all.size = w.opened
  placed : ∀ name outer, .bind name outer ∈ w.events →
    ∃ i < s.scopes.all.size, s.scopes.path i = outer
  visible : ∀ i < s.scopes.all.size, ∀ key, s.scopes.Visible i key ↔
    w.events.any (Event.binds key (s.scopes.path i)) = true
  reported : s.diagnostics.toList.filter isUndefinedVariable =
    (undefinedReads [] w.events).map undefinedDiagnostic

/-- Scopes are opened, but none of those there are moves elsewhere. -/
structure Grows (s t : State) : Prop where
  size : s.scopes.all.size ≤ t.scopes.all.size
  path : ∀ i < s.scopes.all.size, t.scopes.path i = s.scopes.path i

/-- Nothing is added. -/
theorem Grows.refl (s : State) : Grows s s :=
  ⟨Nat.le_refl _, fun _ _ => rfl⟩

/-- Scopes that are kept by two checks are kept by both. -/
theorem Grows.trans {s t u : State} (h : Grows s t) (h' : Grows t u) : Grows s u := by
  refine ⟨Nat.le_trans h.size h'.size, ?_⟩
  intro i hi
  rw [h'.path i (Nat.lt_of_lt_of_le hi h.size), h.path i hi]

/-- The index of a scope and its path. -/
structure StandsIn (here : Nat) (scope : List Nat) (s : State) : Prop where
  lt : here < s.scopes.all.size
  path : s.scopes.path here = scope

/-- A scope stays where it is while others are added. -/
theorem StandsIn.grows {here : Nat} {scope : List Nat} {s t : State}
    (h : StandsIn here scope s) (hgrows : Grows s t) : StandsIn here scope t :=
  ⟨Nat.lt_of_lt_of_le h.lt hgrows.size, (hgrows.path here h.lt).trans h.path⟩

/-- A part of the check, in a scope, does to the state what a part of the walk does. -/
def Follows (here : Nat) (scope : List Nat) (c : Check α) (f : Walk → Walk) : Prop :=
  ∀ s w, StandsIn here scope s → Tracks s w → Tracks (c s).2 (f w) ∧ Grows s (c s).2

section Rules

variable {here : Nat} {scope : List Nat}

/-- A check that does nothing follows a walk that adds nothing. -/
theorem Follows.pure (a : α) : Follows here scope (Pure.pure a) id :=
  fun s _ _ htracks => ⟨htracks, Grows.refl s⟩

/-- Checks one after the other follow the walks through their parts. -/
theorem Follows.bind {c : Check α} {k : α → Check β} {f g : Walk → Walk}
    (h : Follows here scope c f) (hk : ∀ a, Follows here scope (k a) g) :
    Follows here scope (c >>= k) fun w => g (f w) := by
  intro s w hstands htracks
  rcases h s w hstands htracks with ⟨htracks, hgrows⟩
  rcases hk (c s).1 (c s).2 (f w) (hstands.grows hgrows) htracks with ⟨htracks', hgrows'⟩
  exact ⟨htracks', hgrows.trans hgrows'⟩

/-- A diagnostic about something else changes nothing that is tracked. -/
theorem Follows.report {cause : Cause} {span : Span}
    (h : isUndefinedVariable ⟨cause, span⟩ = false) :
    Follows here scope (Check.report cause span) id := by
  intro s w _ htracks
  refine ⟨⟨htracks.size, htracks.placed, htracks.visible, ?_⟩, Nat.le_refl _, fun _ _ => rfl⟩
  show (s.diagnostics.push ⟨cause, span⟩).toList.filter isUndefinedVariable = _
  rw [Array.toList_push, List.filter_append, htracks.reported]
  simp [h]

/-- What is tracked stays so if a binding makes visible what its event does. -/
theorem Tracks.bindAt {s : State} {w : Walk} (h : Tracks s w) (hstands : StandsIn here scope s)
    (index : Nat) (name : String) (type : ValueType)
    (hvisible : ∀ i key, (s.scopes.bindAt index name type).Visible i key ↔
      s.scopes.Visible i key ∨ name.toLower = key ∧ scope <:+ s.scopes.path i) :
    Tracks { s with scopes := s.scopes.bindAt index name type } (w.bind scope name) ∧
      Grows s { s with scopes := s.scopes.bindAt index name type } := by
  have hsize : (s.scopes.bindAt index name type).all.size = s.scopes.all.size :=
    Scopes.size_bindAt name type
  -- The number of scopes, their places, what is visible from them, and the reports so far.
  refine ⟨⟨?_, ?_, ?_, ?_⟩, Nat.le_of_eq hsize.symm, fun i _ => Scopes.path_bindAt name type i⟩
  · exact hsize.trans h.size
  · intro name' outer hmem
    simp only [hsize, Scopes.path_bindAt]
    rcases List.mem_append.1 hmem with hmem | hmem
    · exact h.placed name' outer hmem
    · rw [List.mem_singleton] at hmem
      cases hmem
      exact ⟨here, hstands.lt, hstands.path⟩
  · intro i hi key
    simp only [hsize] at hi
    simp only [hvisible, Scopes.path_bindAt]
    rw [h.visible i hi key]
    exact any_binds_bind.symm
  · show _ = (undefinedReads [] (w.events ++ [.bind name scope])).map undefinedDiagnostic
    rw [undefinedReads_bind]
    exact h.reported

/-- Where a name is bound it becomes visible, from the scopes that a binding event reaches. -/
theorem Follows.declare (name : String) (type : ValueType) :
    Follows here scope (Check.declare here name type) (Walk.bind scope name) := by
  intro s w hstands htracks
  refine htracks.bindAt hstands here name type ?_
  intro i key
  rw [Scopes.visible_bindAt hstands.lt, Scopes.mem_path_iff hstands.lt, hstands.path,
    eq_comm (a := key)]

/-- Declaring names adds the events that bind them here. -/
theorem Follows.declareAll (names : List String) :
    Follows here scope (Check.declareAll here names) (Walk.bindAll scope names) := by
  induction names with
  | nil => exact Follows.pure ()
  | cons name names ih => exact (Follows.declare name .any).bind fun _ => ih

/-- An assignment to a local that is bound further out changes nothing in what is visible, and
neither does a binding event for what is visible already. -/
theorem Follows.assign (name : String) (type : ValueType) :
    Follows here scope (Check.assign here name type) (Walk.bind scope name) := by
  intro s w hstands htracks
  rw [assign_eq]
  cases hresolve : s.scopes.resolve here name with
  | none => exact Follows.declare name type s w hstands htracks
  | some found =>
    rcases found with ⟨index, found⟩
    rcases Scopes.of_resolveKey hresolve with ⟨hindex, hhas⟩
    have hlt := Scopes.lt_size_of_mem_path hindex
    have hvisible : s.scopes.Visible here name.toLower := ⟨index, hindex, hhas⟩
    -- The name is visible here already, so its event makes it visible from nowhere else.
    refine htracks.bindAt hstands index name type ?_
    intro i key
    rw [Scopes.visible_bindAt hlt]
    constructor
    · rintro (h | ⟨rfl, hmem⟩)
      · exact .inl h
      · exact .inl ⟨index, hmem, hhas⟩
    · rintro (h | ⟨rfl, hsuffix⟩)
      · exact .inl h
      · rw [← hstands.path, ← Scopes.mem_path_iff hstands.lt] at hsuffix
        exact .inl (hvisible.of_mem_path hsuffix)

/-- What is tracked stays so if a read adds to the reports what it adds to the undefined reads. -/
theorem Tracks.read {s t : State} {w : Walk} (h : Tracks s w) (n : Name) (scope : List Nat)
    (hscopes : t.scopes = s.scopes)
    (hreported : t.diagnostics.toList.filter isUndefinedVariable =
      s.diagnostics.toList.filter isUndefinedVariable ++
        (if magicVariables.contains n.normalized ||
          w.events.any (Event.binds n.normalized scope) then [] else [n]).map
            undefinedDiagnostic) :
    Tracks t { w with events := w.events ++ [.read n scope] } ∧ Grows s t := by
  -- Only the last of the four facts about the state has to do with the read.
  refine ⟨⟨?_, ?_, ?_, ?_⟩, ?_, ?_⟩
  · rw [hscopes]
    exact h.size
  · intro name outer hmem
    rw [hscopes]
    rcases List.mem_append.1 hmem with hmem | hmem
    · exact h.placed name outer hmem
    · rw [List.mem_singleton] at hmem
      cases hmem
  · intro i hi key
    rw [hscopes] at hi ⊢
    rw [any_binds_read]
    exact h.visible i hi key
  · rw [undefinedReads_read, List.map_append, ← h.reported, hreported, List.nil_append]
  · exact Nat.le_of_eq (by rw [hscopes])
  · rw [hscopes]
    exact fun _ _ => rfl

/-- A local that is found has the type that is bound to it. -/
theorem localType_of_found (cx : Context) {n : Name} {s : State} {found : Nat × ValueType}
    (hmagic : ¬ magicVariables.contains n.normalized = true)
    (h : s.scopes.resolve here n.text = some found) :
    Check.localType cx here n s = (found.2, s) := by
  have hget (k : State → Check ValueType) : (get >>= k) s = k s s := rfl
  unfold Check.localType
  rw [if_neg hmagic, hget, h]
  rfl

/-- A local that is not found is reported if it is to be. -/
theorem localType_of_missing {table : Table} (known : List String) {n : Name} {s : State}
    (hmagic : ¬ magicVariables.contains n.normalized = true)
    (h : s.scopes.resolve here n.text = none) :
    Check.localType ⟨table, ⟨true, known⟩⟩ here n s =
      (.any, { s with diagnostics := s.diagnostics.push (undefinedDiagnostic n) }) := by
  have hget (k : State → Check ValueType) : (get >>= k) s = k s s := rfl
  unfold Check.localType
  rw [if_neg hmagic, hget, h]
  rfl

/-- A local that is read is reported just if nothing so far makes it defined. -/
theorem Follows.localType (table : Table) (known : List String) {n : Name}
    (hlocal : n.isLocal = true) :
    Follows here scope (Check.localType ⟨table, ⟨true, known⟩⟩ here n) (Walk.read scope n) := by
  intro s w hstands htracks
  have hwalk : w.read scope n = { w with events := w.events ++ [.read n scope] } := by
    rw [Walk.read, if_pos hlocal]
  have hvisible := htracks.visible here hstands.lt n.normalized
  rw [hstands.path] at hvisible
  rw [hwalk]
  -- A magic name is neither looked up nor reported.
  by_cases hmagic : magicVariables.contains n.normalized = true
  · have hrun : (Check.localType ⟨table, ⟨true, known⟩⟩ here n s).2 = s := by
      unfold Check.localType
      rw [if_pos hmagic]
      rfl
    rw [hrun]
    refine htracks.read n scope rfl ?_
    rw [hmagic, Bool.true_or, if_pos rfl, List.map_nil, List.append_nil]
  · -- The scopes find the name just if some event so far binds it here or around.
    cases hresolve : s.scopes.resolve here n.text with
    | some found =>
      rcases Scopes.of_resolveKey hresolve with ⟨hindex, hhas⟩
      have hbound := hvisible.1 ⟨found.1, hindex, hhas⟩
      rw [localType_of_found _ hmagic hresolve]
      refine htracks.read n scope rfl ?_
      rw [hbound, Bool.or_true, if_pos rfl, List.map_nil, List.append_nil]
    | none =>
      have hunbound : w.events.any (Event.binds n.normalized scope) = false := by
        rw [Bool.eq_false_iff]
        intro hbound
        exact Scopes.not_visible_of_resolveKey hresolve (hvisible.2 hbound)
      rw [localType_of_missing known hmagic hresolve]
      refine htracks.read n scope rfl ?_
      show (s.diagnostics.push (undefinedDiagnostic n)).toList.filter isUndefinedVariable = _
      rw [Array.toList_push, List.filter_append, hunbound, Bool.or_false, if_neg hmagic]
      rfl

/-- A global name is no event. -/
theorem Follows.globalType (cx : Context) (n : Name) :
    Follows here scope (Check.globalType cx n) id := by
  unfold Check.globalType
  split
  · exact Follows.pure _
  · split
    · exact Follows.pure _
    · split
      · exact (Follows.report rfl).bind fun _ => Follows.pure _
      · exact Follows.pure _

/-- A name is a read if it is a local. -/
theorem Follows.nameType (table : Table) (known : List String) (n : Name) :
    Follows here scope (Check.nameType ⟨table, ⟨true, known⟩⟩ here n) (Walk.read scope n) := by
  unfold Check.nameType
  split
  · next hlocal => exact Follows.localType table known hlocal
  · next hglobal =>
    have hread : Walk.read scope n = id := by
      funext w
      rw [Walk.read, if_neg hglobal]
      rfl
    rw [hread]
    exact Follows.globalType _ n

/-- Comparing types is no event, and reports no undefined read. -/
theorem Follows.checkType (expected received : ValueType) (span : Span) :
    Follows here scope (Check.checkType expected received span) id := by
  unfold Check.checkType
  split
  · exact Follows.report rfl
  · exact Follows.pure _

/-- Nor is looking up a command. -/
theorem Follows.commandExists (cx : Context) (command : Name) (arity : Arity) :
    Follows here scope (Check.commandExists cx command arity) id := by
  unfold Check.commandExists
  split
  · exact Follows.pure _
  · refine Follows.bind (f := id) (g := id) (Follows.report ?_) fun _ => Follows.pure _
    split
    · rfl
    · rfl

/-- Nor is choosing an overload. -/
theorem Follows.resultType (cx : Context) (command : Name) (arity : Arity)
    (operands : List (ValueType × Span)) :
    Follows here scope (Check.resultType cx command arity operands) id := by
  unfold Check.resultType
  split
  · exact Follows.pure _
  · exact (Follows.report rfl).bind fun _ => Follows.pure _
  · exact Follows.pure _
  · exact Follows.pure _

/-- What a command yields if it is known. -/
theorem Follows.resultIf (cx : Context) (isKnown : Bool) (command : Name) (arity : Arity)
    (operands : List (ValueType × Span)) :
    Follows here scope
      (if isKnown then Check.resultType cx command arity operands else return .any) id := by
  split
  · exact Follows.resultType cx command arity operands
  · exact Follows.pure _

/-- Locals with types of their own are bound like others. -/
theorem Follows.declareLocals (locals : List (String × ValueType)) :
    Follows here scope (locals.forM fun (name, type) => Check.declare here name type)
      (Walk.bindAll scope (locals.map (·.1))) := by
  induction locals with
  | nil => exact Follows.pure ()
  | cons entry locals ih => exact (Follows.declare entry.1 entry.2).bind fun _ => ih

/-- Nothing has been bound in a scope that is opened now. -/
theorem Tracks.openScope {s : State} {w : Walk} (h : Tracks s w)
    (hstands : StandsIn here scope s) (id : Nat) :
    Tracks { s with scopes := s.scopes.enter id here } w.openScope ∧
      Grows s { s with scopes := s.scopes.enter id here } ∧
      StandsIn w.opened (w.opened :: scope) { s with scopes := s.scopes.enter id here } := by
  have hsize : (s.scopes.enter id here).all.size = s.scopes.all.size + 1 :=
    Scopes.size_enter id here
  have hold : ∀ i < s.scopes.all.size, (s.scopes.enter id here).path i = s.scopes.path i :=
    fun i hi => Scopes.path_enter id here hi
  have hnew : (s.scopes.enter id here).path s.scopes.all.size =
      s.scopes.all.size :: scope := by
    rw [Scopes.path_enter_size id hstands.lt, hstands.path]
  refine ⟨⟨?_, ?_, ?_, h.reported⟩, ⟨?_, hold⟩, ?_, ?_⟩
  · exact hsize.trans (congrArg (· + 1) h.size)
  · intro name outer hmem
    rcases h.placed name outer hmem with ⟨i, hi, hpath⟩
    exact ⟨i, Nat.lt_of_lt_of_le hi (Nat.le_of_lt (hsize ▸ Nat.lt_succ_self _)),
      (hold i hi).trans hpath⟩
  · intro i hi key
    simp only [hsize] at hi
    show (s.scopes.enter id here).Visible i key ↔
      w.events.any (Event.binds key ((s.scopes.enter id here).path i)) = true
    rcases Nat.lt_or_eq_of_le (Nat.le_of_lt_succ hi) with hlt | rfl
    · rw [Scopes.visible_enter id here hlt, hold i hlt]
      exact h.visible i hlt key
    · -- From the new scope the same names are visible as from the one around it.
      rw [Scopes.visible_enter_size id hstands.lt, hnew, h.visible here hstands.lt key,
        hstands.path, List.any_eq_true, List.any_eq_true]
      have hbinds : ∀ e ∈ w.events, Event.binds key (s.scopes.all.size :: scope) e =
          Event.binds key scope e := by
        intro e he
        cases e with
        | read n outer => rfl
        | bind name outer =>
          -- The scope of an event is there already, so it is not the new one.
          rcases h.placed name outer he with ⟨i, hi, hpath⟩
          have hne : outer ≠ s.scopes.all.size :: scope := by
            rintro rfl
            rcases Scopes.path_cases hi with hcase | ⟨p, _, hcase⟩
            · rw [hcase] at hpath
              exact Nat.ne_of_lt hi (List.cons.inj hpath).1
            · rw [hcase] at hpath
              exact Nat.ne_of_lt hi (List.cons.inj hpath).1
          rw [Bool.eq_iff_iff, Event.binds_iff, Event.binds_iff, List.suffix_cons_iff,
            or_iff_right hne]
      constructor
      · rintro ⟨e, he, hbind⟩
        exact ⟨e, he, (hbinds e he).trans hbind⟩
      · rintro ⟨e, he, hbind⟩
        exact ⟨e, he, (hbinds e he).symm.trans hbind⟩
  · simp only [hsize]
    omega
  · simp only [hsize, h.size]
    omega
  · rw [← h.size]
    exact hnew

/-- A part that runs in a scope of its own. -/
theorem Follows.openScope {c : Nat → Check α} {f : List Nat → Walk → Walk} (id : Nat)
    (h : ∀ inside, Follows inside (inside :: scope) (c inside) (f (inside :: scope))) :
    Follows here scope (do c (← Check.openScope here id))
      fun w => f (w.opened :: scope) w.openScope := by
  intro s w hstands htracks
  rcases htracks.openScope hstands id with ⟨htracks', hgrows, hinside⟩
  have hrun : (do c (← Check.openScope here id)) s =
      c w.opened { s with scopes := s.scopes.enter id here } := by
    rw [← htracks.size]
    rfl
  rcases h w.opened _ _ hinside htracks' with ⟨htracks'', hgrows'⟩
  rw [hrun]
  exact ⟨htracks'', hgrows.trans hgrows'⟩

end Rules

/-! ## All of the check -/

variable (table : Table) (known : List String)

mutual

/-- The check of an expression follows the walk through it. The induction is on the tree; which
scope stands for which list of numbers is handed down with it. -/
theorem expr_follows (here : Nat) (scope : List Nat) (e : Expr) :
    Follows here scope (Check.expr ⟨table, ⟨true, known⟩⟩ here e) (Walk.expr scope e) := by
  cases e with
  | number value span => exact Follows.pure _
  | string value span => exact Follows.pure _
  | name n => exact Follows.nameType table known n
  | array elements span =>
    exact (exprs_follow here scope elements).bind fun _ => Follows.pure _
  | block b => exact (block_follows here scope [] b).bind fun _ => Follows.pure _
  | unary command operand span =>
    exact (Follows.commandExists _ command .unary).bind fun isKnown =>
      (Follows.declareAll (declaredNames command operand)).bind fun _ =>
        (expr_follows here scope operand).bind fun _ =>
          Follows.resultIf _ isKnown command .unary _
  -- Behind an operator the names are declared last, in front of an operand first.
  | binary joint left command right span =>
    exact (expr_follows here scope left).bind fun _ =>
      (Follows.commandExists _ command .binary).bind fun isKnown =>
        (expr_follows here scope right).bind fun _ =>
          (Follows.declareAll (declaredNames command right)).bind fun _ =>
            Follows.resultIf _ isKnown command .binary _
  | control c => exact control_follows here scope c
  | error span => exact Follows.pure _

/-- Elements are checked from left to right. -/
theorem exprs_follow (here : Nat) (scope : List Nat) (es : List Expr) :
    Follows here scope (Check.exprs ⟨table, ⟨true, known⟩⟩ here es) (Walk.exprs scope es) := by
  cases es with
  | nil => exact Follows.pure _
  | cons e es =>
    exact (expr_follows here scope e).bind fun _ =>
      (exprs_follow here scope es).bind fun _ => Follows.pure _

/-- A part that is missing is no event. -/
theorem expr?_follows (here : Nat) (scope : List Nat) (e : Option Expr) :
    Follows here scope (Check.expr? ⟨table, ⟨true, known⟩⟩ here e) (Walk.expr? scope e) := by
  cases e with
  | none => exact Follows.pure _
  | some e => exact (expr_follows here scope e).bind fun _ => Follows.pure _

/-- A branch is walked through as the expression or block that it is. -/
theorem branch?_follows (here : Nat) (scope : List Nat) (e : Option Expr) :
    Follows here scope (Check.branch? ⟨table, ⟨true, known⟩⟩ here e) (Walk.expr? scope e) := by
  cases e with
  | none => exact Follows.pure _
  | some e =>
    cases e with
    | block b => exact (block_follows here scope [] b).bind fun _ => Follows.pure _
    | _ => exact (expr_follows here scope _).bind fun _ => Follows.pure _

/-- A condition of a loop is walked through as a block or as an expression. -/
theorem loopCondition_follows (here : Nat) (scope : List Nat) (construct : String) (span : Span)
    (e : Option Expr) :
    Follows here scope (Check.loopCondition ⟨table, ⟨true, known⟩⟩ here construct span e)
      (Walk.expr? scope e) := by
  cases e with
  | none => exact Follows.report rfl
  | some e =>
    cases e with
    | block b => exact (block_follows here scope [] b).bind fun _ => Follows.checkType _ _ _
    | _ => exact (expr_follows here scope _).bind fun _ => Follows.checkType _ _ _

/-- A bound is an expression like others. -/
theorem bound?_follows (here : Nat) (scope : List Nat) (e : Option Expr) :
    Follows here scope (Check.bound? ⟨table, ⟨true, known⟩⟩ here e) (Walk.expr? scope e) := by
  cases e with
  | none => exact Follows.pure _
  | some e => exact (expr_follows here scope e).bind fun _ => Follows.checkType _ _ _

/-- A block binds what it is given in a new scope, and its events are there. -/
theorem block_follows (here : Nat) (scope : List Nat) (locals : List (String × ValueType))
    (b : Block) :
    Follows here scope (Check.block ⟨table, ⟨true, known⟩⟩ here locals b)
      (Walk.block scope (locals.map (·.1)) b) := by
  cases b with
  | mk id statements span =>
    exact Follows.openScope
      (f := fun path w => Walk.stmts path statements (w.bindAll path (locals.map (·.1)))) id
      fun inside => (Follows.declareLocals locals).bind fun _ =>
        stmts_follow inside (inside :: scope) .nothing statements

/-- A body that is missing is no event. -/
theorem body?_follows (here : Nat) (scope : List Nat) (locals : List (String × ValueType))
    (construct : String) (span : Span) (b : Option Block) :
    Follows here scope (Check.body? ⟨table, ⟨true, known⟩⟩ here locals construct span b)
      (Walk.block? scope (locals.map (·.1)) b) := by
  cases b with
  | none => exact Follows.report rfl
  | some b => exact (block_follows here scope locals b).bind fun _ => Follows.pure _

/-- An assignment has the events of its value, and then binds its target if this is a local. -/
theorem stmt_follows (here : Nat) (scope : List Nat) (a : Stmt) :
    Follows here scope (Check.stmt ⟨table, ⟨true, known⟩⟩ here a) (Walk.stmt scope a) := by
  cases a with
  | expression e => exact expr_follows here scope e
  | assignment isPrivate target value span =>
    have hvalue := expr_follows here scope value
    cases isPrivate with
    | true =>
      exact hvalue.bind fun type =>
        (Follows.declare target.text type).bind fun _ => Follows.pure _
    | false =>
      have hwalk : Walk.stmt scope (.assignment false target value span) = fun w =>
          if target.isLocal then (Walk.expr scope value w).bind scope target.text
          else Walk.expr scope value w := rfl
      rw [hwalk, Check.stmt]
      -- A global is bound nowhere, and the walk has no event for it.
      cases target.isLocal with
      | true =>
        exact hvalue.bind fun type =>
          (Follows.assign target.text type).bind fun _ => Follows.pure _
      | false => exact hvalue.bind fun _ => Follows.pure _
  | control c => exact control_follows here scope c
  | error span => exact Follows.pure _

/-- Statements have their events one after the other. -/
theorem stmts_follow (here : Nat) (scope : List Nat) (last : ValueType) (ss : List Stmt) :
    Follows here scope (Check.stmts ⟨table, ⟨true, known⟩⟩ here last ss)
      (Walk.stmts scope ss) := by
  cases ss with
  | nil => exact Follows.pure _
  | cons a ss =>
    exact (stmt_follows here scope a).bind fun type => stmts_follow here scope type ss

/-- What a loop starts with has its events in the scope of the loop. -/
theorem init?_follows (here : Nat) (scope : List Nat) (e : Option Expr) :
    Follows here scope (Check.init? ⟨table, ⟨true, known⟩⟩ here e) (Walk.init? scope e) := by
  cases e with
  | none => exact Follows.pure _
  | some e =>
    cases e with
    | block b =>
      cases b with
      | mk id statements span =>
        exact (stmts_follow here scope .nothing statements).bind fun _ => Follows.pure _
    | _ => exact (expr_follows here scope _).bind fun _ => Follows.pure _

/-- The constructs have the events of their parts in the order of the check. -/
theorem control_follows (here : Nat) (scope : List Nat) (c : Control) :
    Follows here scope (Check.control ⟨table, ⟨true, known⟩⟩ here c) (Walk.control scope c) := by
  cases c with
  | ifThen condition form branch otherwise span =>
    have hbranch : Follows here scope (Check.thenPart ⟨table, ⟨true, known⟩⟩ here branch)
        (Walk.expr scope branch) := by
      cases branch with
      | block b => exact block_follows here scope [] b
      | _ => exact expr_follows here scope _
    have hparts := hbranch.bind fun thenType =>
      (branch?_follows here scope otherwise).bind fun otherType =>
        Follows.pure (Check.ifType form thenType otherType)
    rw [Check.control_ifThen]
    cases condition with
    | none => exact (Follows.report rfl).bind fun _ => hparts
    | some e =>
      exact (expr_follows here scope e).bind fun _ =>
        (Follows.checkType _ _ _).bind fun _ => hparts
  | whileDo condition body span =>
    exact (loopCondition_follows here scope "while" span condition).bind fun _ =>
      (body?_follows here scope [] "while" span body).bind fun _ => Follows.pure _
  | forDo header body span =>
    cases header with
    | range name first last step =>
      have hloop := (bound?_follows here scope first).bind fun _ =>
        (bound?_follows here scope last).bind fun _ =>
          (bound?_follows here scope step).bind fun _ =>
            (body?_follows here scope [(name.text, .number)] "for" span body).bind fun _ =>
              Follows.pure (α := ValueType) .nothing
      -- A bound that is missing is reported first, which changes nothing that is tracked.
      rw [Check.control]
      split
      · exact (Follows.report rfl).bind fun _ => hloop
      · exact hloop
    | classic init condition step =>
      exact Follows.openScope
        (f := fun path w => Walk.block? path [] body
          (Walk.expr? path step (Walk.expr? path condition (Walk.init? path init w))))
        (classicScopeId init body) fun loop =>
        (init?_follows loop (loop :: scope) init).bind fun _ =>
          (loopCondition_follows loop (loop :: scope) "for" span condition).bind fun _ =>
            (expr?_follows loop (loop :: scope) step).bind fun _ =>
              (body?_follows loop (loop :: scope) [] "for" span body).bind fun _ =>
                Follows.pure _
    | missing =>
      exact (Follows.report rfl).bind fun _ =>
        (body?_follows here scope [] "for" span body).bind fun _ => Follows.pure _
  | switchDo subject body span =>
    have hbody := (body?_follows here scope [] "switch" span body).bind fun _ =>
      Follows.pure (α := ValueType) .any
    cases subject with
    | none => exact (Follows.report rfl).bind fun _ => hbody
    | some e => exact (expr_follows here scope e).bind fun _ => hbody
  | case isDefault condition b span =>
    unfold Check.control
    refine (expr?_follows here scope condition).bind fun _ => ?_
    cases b with
    | none => exact Follows.pure _
    | some b => exact (block_follows here scope [] b).bind fun _ => Follows.pure _

end

/-! ## What is reported -/

/-- At first there is the scope of the script, and nothing is bound. -/
theorem tracks_root : Tracks {} {} ∧ StandsIn 0 [0] {} := by
  have hroot : 0 < Scopes.root.all.size := Nat.zero_lt_one
  have hpath : Scopes.root.path 0 = [0] := by
    rcases Scopes.path_cases (i := 0) hroot with h | ⟨p, hp, _⟩
    · exact h
    · cases hp
  refine ⟨⟨rfl, ?_, ?_, rfl⟩, Nat.zero_lt_one, hpath⟩
  · intro name outer hmem
    cases hmem
  · intro i hi key
    constructor
    · -- The only scope is the one of the script, and it has no locals.
      rintro ⟨j, hj, s, hs, hfind⟩
      have hlt : j < 1 := Scopes.lt_size_of_mem_path hj
      rcases Nat.lt_one_iff.1 hlt with rfl
      rcases Option.some.inj hs with rfl
      cases hfind
    · intro hbound
      cases hbound

/-- With the warning switched on, the diagnostics about undefined variables are those of the
reads that are undefined by position, one for each and in the order of evaluation. Such a read
is one of a name that is not magic and that no earlier event binds in the scope of the read or
in one around it. -/
theorem undefined_reported (p : Program) :
    (check table ⟨true, known⟩ p).diagnostics.filter isUndefinedVariable =
      (undefinedReads [] (events p)).map undefinedDiagnostic ∧
    ∀ n, n ∈ undefinedReads [] (events p) ↔ ∃ before scope after,
      events p = before ++ .read n scope :: after ∧ magicVariables.contains n.normalized = false ∧
      before.any (Event.binds n.normalized scope) = false := by
  constructor
  · rcases tracks_root with ⟨htracks, hstands⟩
    have hfollows : Follows 0 [0] (Check.program ⟨table, ⟨true, known⟩⟩ p)
        (Walk.stmts [0] p.statements) :=
      (stmts_follow table known 0 [0] .nothing p.statements).bind fun _ => Follows.pure _
    exact (hfollows _ _ hstands htracks).1.reported
  · intro n
    exact mem_undefinedReads

end Sqf.Check
