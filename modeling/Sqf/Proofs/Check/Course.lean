import Mathlib.Data.List.Forall2
import Sqf.Proofs.Check.Visits

/-!
# The course of a visit

A visit that has a scope of its own opens it first. What it does then it does in one scope, step by
step: it reports, binds locals there, gives a type to a local that may be bound further out, and
makes visits (`Course`). It visits the parts of what is checked one after the other. These visits
are those of the checker, since without their list the check with visits is the check (`run_level`).
So what all steps of a check keep, the whole check keeps (`program_keeps`).
-/

namespace Sqf

/-- Of related lists each element has one that it is related to. -/
theorem exists_mem_of_forall₂ {R : α → β → Prop} {as : List α} {bs : List β}
    (h : List.Forall₂ R as bs) : ∀ a ∈ as, ∃ b ∈ bs, R a b := by
  induction h with
  | nil => exact List.forall_mem_nil _
  | cons hab _ ih =>
    refine List.forall_mem_cons.2 ⟨⟨_, List.mem_cons_self, hab⟩, fun a ha => ?_⟩
    obtain ⟨b, hb, hab⟩ := ih a ha
    exact ⟨b, List.mem_cons_of_mem _ hb, hab⟩

namespace Check

/-- The steps of a check of something in the scope at index `here`, from one state to another, with
the visits among them. Operands are refused only where a command is used with operands, a local
further out gets a type only by an assignment, and only what a loop starts with is checked without a
scope of its own. -/
inductive Course (cx : Context) (a : Subject) (here : Nat) : State → List Visit → State → Prop
  | refl (s : State) : Course cx a here s [] s
  | report {s t : State} {vs : List Visit} (h : Course cx a here s vs t) {cause : Cause}
      (span : Span) (hcause : cause.isRefusal = false) :
      Course cx a here s vs (Check.report cause span t).2
  | resolve {s t : State} {vs : List Visit} (h : Course cx a here s vs t) (command : Name)
      (arity : Arity) (operands : List (ValueType × Span)) (hcall : a.call? ≠ none) :
      Course cx a here s vs (resultType cx command arity operands t).2
  | declare {s t : State} {vs : List Visit} (h : Course cx a here s vs t) (name : String)
      (type : ValueType) : Course cx a here s vs (Check.declare here name type t).2
  | assign {s t : State} {vs : List Visit} (h : Course cx a here s vs t) (name : String)
      (type : ValueType) (htarget : a.target? ≠ none) :
      Course cx a here s vs (Check.assign here name type t).2
  | visit {s t : State} {vs : List Visit} (h : Course cx a here s vs t) (b : Subject)
      (hinline : ∀ x ∈ b.inline?, a.init? = some (.block x)) :
      Course cx a here s (vs ++ [⟨here, b, t⟩]) (b.check cx here t).2

/-- A part of a check that makes no visits. -/
def Steps (cx : Context) (a : Subject) (here : Nat) (c : Check α) : Prop :=
  ∀ s, Course cx a here s [] (c s).2

/-- A part of a check with visits does what the part without them does. It visits what stands at
some nodes, one after the other. -/
def Runs (cx : Context) (a : Subject) (here : Nat) (ns : List Node) (x : Visiting α)
    (c : Check α) : Prop :=
  ∀ before s, ∃ vs, x before s = (((c s).1, before ++ vs), (c s).2) ∧
    List.Forall₂ (fun v n => v.subject.IsAt n) vs ns ∧ Course cx a here s vs (c s).2

/-- The same for a part that opens a scope first, if there is a number for one. -/
def RunsIn (cx : Context) (a : Subject) (here : Nat) (id? : Option Nat) (ns : List Node)
    (x : Visiting α) (c : Check α) : Prop :=
  ∀ before s, ∃ vs, x before s = (((c s).1, before ++ vs), (c s).2) ∧
    List.Forall₂ (fun v n => v.subject.IsAt n) vs ns ∧
    Course cx a (scopeFor here s id?) (stateFor here s id?) vs (c s).2

namespace Course

variable {cx : Context} {a : Subject} {here : Nat} {s t u : State} {vs ws : List Visit}

/-- Courses one after the other are a course, with the visits of both. -/
theorem trans (h : Course cx a here s vs t) (h' : Course cx a here t ws u) :
    Course cx a here s (vs ++ ws) u := by
  induction h' with
  | refl =>
    rw [List.append_nil]
    exact h
  | report _ span hcause ih => exact ih.report span hcause
  | resolve _ command arity operands hcall ih => exact ih.resolve command arity operands hcall
  | declare _ name type ih => exact ih.declare name type
  | assign _ name type htarget ih => exact ih.assign name type htarget
  | visit _ b hinline ih =>
    rw [← List.append_assoc]
    exact ih.visit b hinline

/-- All visits are made in the same scope. -/
theorem forall_visit (h : Course cx a here s vs t) :
    ∀ v ∈ vs, v.here = here ∧ ∀ x ∈ v.subject.inline?, a.init? = some (.block x) := by
  induction h with
  | refl => exact List.forall_mem_nil _
  | visit _ b hinline ih =>
    exact List.forall_mem_append.2 ⟨ih, List.forall_mem_singleton.2 ⟨rfl, hinline⟩⟩
  | report _ _ _ ih | resolve _ _ _ _ _ ih | declare _ _ _ ih | assign _ _ _ _ ih => exact ih

/-- The course up to a visit, and the course behind it. -/
theorem split {v : Visit} {ws : List Visit} (h : Course cx a here s (vs ++ v :: ws) t) :
    Course cx a here s vs v.state ∧ Course cx a here (v.after cx) ws t := by
  generalize hall : vs ++ v :: ws = all at h
  induction h generalizing ws with
  | refl => cases List.append_ne_nil_of_right_ne_nil vs (List.cons_ne_nil v ws) hall
  | report _ span hcause ih => exact ⟨(ih hall).1, (ih hall).2.report span hcause⟩
  | resolve _ command arity operands hcall ih =>
    exact ⟨(ih hall).1, (ih hall).2.resolve command arity operands hcall⟩
  | declare _ name type ih => exact ⟨(ih hall).1, (ih hall).2.declare name type⟩
  | assign _ name type htarget ih => exact ⟨(ih hall).1, (ih hall).2.assign name type htarget⟩
  | @visit t before h b hinline ih =>
    -- The visit is the last one, or it is among those before the last one.
    rcases List.eq_nil_or_concat ws with rfl | ⟨ws, w, rfl⟩
    · obtain ⟨rfl, hv⟩ := List.append_inj' hall rfl
      cases hv
      exact ⟨h, .refl _⟩
    · rw [List.concat_eq_append] at hall ⊢
      rw [← List.cons_append, ← List.append_assoc] at hall
      obtain ⟨hbefore, hw⟩ := List.append_inj' hall rfl
      cases hw
      exact ⟨(ih hbefore).1, (ih hbefore).2.visit b hinline⟩

end Course

section Rules

variable {cx : Context} {a : Subject} {here : Nat}

namespace Steps

/-- A step that does nothing. -/
theorem pure (b : β) : Steps cx a here (Pure.pure b) := .refl

/-- Steps one after the other are steps. -/
theorem bind {c : Check α} {k : α → Check β} (h : Steps cx a here c)
    (hk : ∀ b, Steps cx a here (k b)) : Steps cx a here (c >>= k) :=
  fun s => (h s).trans (hk (c s).1 (c s).2)

/-- A look at the state is no step. -/
theorem get_bind {k : State → Check β} (hk : ∀ s, Steps cx a here (k s)) :
    Steps cx a here (get >>= k) :=
  fun s => hk s s

/-- A report is a step, unless it is about operands that are refused. -/
theorem report {cause : Cause} (span : Span) (h : cause.isRefusal = false) :
    Steps cx a here (Check.report cause span) :=
  fun s => (Course.refl s).report span h

/-- A local is bound here. -/
theorem declare (name : String) (type : ValueType) :
    Steps cx a here (Check.declare here name type) :=
  fun s => (Course.refl s).declare name type

/-- A local that is bound further out gets a type, which only an assignment may do. -/
theorem assign (h : a.target? ≠ none) (name : String) (type : ValueType) :
    Steps cx a here (Check.assign here name type) :=
  fun s => (Course.refl s).assign name type h

/-- Several locals are bound here. -/
theorem declareAll (names : List String) : Steps cx a here (Check.declareAll here names) := by
  induction names with
  | nil => exact pure ()
  | cons name names ih => exact (declare name .any).bind fun _ => ih

/-- Locals are bound with types of their own. -/
theorem declareLocals (locals : List (String × ValueType)) :
    Steps cx a here (locals.forM fun (name, type) => Check.declare here name type) := by
  induction locals with
  | nil => exact pure ()
  | cons entry locals ih => exact (declare entry.1 entry.2).bind fun _ => ih

/-- A type that does not fit is a report. -/
theorem checkType (expected received : ValueType) (span : Span) :
    Steps cx a here (Check.checkType expected received span) := by
  unfold Check.checkType
  split
  · exact report span rfl
  · exact pure ()

/-- A name is looked up, and reported if it is not known. -/
theorem nameType (n : Name) : Steps cx a here (Check.nameType cx here n) := by
  -- Of the ways to look up a name only two end with a report.
  unfold Check.nameType
  split
  · unfold localType
    split
    · exact pure _
    · refine get_bind fun s => ?_
      split
      · exact pure _
      · split
        · exact (report n.span rfl).bind fun _ => pure _
        · exact pure _
  · unfold globalType
    split
    · exact pure _
    · split
      · exact pure _
      · split
        · exact (report n.span rfl).bind fun _ => pure _
        · exact pure _

/-- A command that is not there is reported. -/
theorem commandExists (command : Name) (arity : Arity) :
    Steps cx a here (Check.commandExists cx command arity) := by
  unfold Check.commandExists
  split
  · exact pure _
  · refine (report command.span ?_).bind fun _ => pure _
    split <;> rfl

/-- The operands of a call may be refused, which only a call reports. -/
theorem resultIf (hcall : a.call? ≠ none) (known : Bool) (command : Name) (arity : Arity)
    (operands : List (ValueType × Span)) :
    Steps cx a here (resultIf cx known command arity operands) := by
  unfold Check.resultIf
  split
  · exact fun s => (Course.refl s).resolve command arity operands hcall
  · exact pure _

end Steps

namespace Runs

variable {ns ms : List Node}

/-- Nothing is visited. -/
theorem pure (b : β) : Runs cx a here [] (Pure.pure b) (Pure.pure b) :=
  fun before s => ⟨[], by rw [List.append_nil]; rfl, .nil, .refl s⟩

/-- A part that makes no visits. -/
theorem lift {c : Check α} (h : Steps cx a here c) : Runs cx a here [] (liftM c) c :=
  fun before s => ⟨[], by rw [List.append_nil]; rfl, .nil, h s⟩

/-- One visit, at its node. -/
theorem visit {b : Subject} {n : Node} (hat : b.IsAt n)
    (hinline : ∀ x ∈ b.inline?, a.init? = some (.block x)) :
    Runs cx a here [n] (Visiting.visit cx here b) (b.check cx here) :=
  fun _ s => ⟨[⟨here, b, s⟩], rfl, .cons hat .nil, (Course.refl s).visit b hinline⟩

/-- Visits one after the other, at the nodes one after the other. -/
theorem bind {x : Visiting α} {c : Check α} {f : α → Visiting β} {k : α → Check β}
    (h : Runs cx a here ns x c) (hk : ∀ b, Runs cx a here ms (f b) (k b)) :
    Runs cx a here (ns ++ ms) (x >>= f) (c >>= k) := by
  intro before s
  obtain ⟨vs, hrun, hvs, hcourse⟩ := h before s
  obtain ⟨ws, hrun', hws, hcourse'⟩ := hk (c s).1 (before ++ vs) (c s).2
  refine ⟨vs ++ ws, ?_, List.rel_append hvs hws, hcourse.trans hcourse'⟩
  show f (x before s).1.1 (x before s).1.2 (x before s).2 = _
  rw [hrun, hrun', List.append_assoc]
  rfl

/-- A part with nothing behind it that makes visits. -/
theorem bind_still {x : Visiting α} {c : Check α} {f : α → Visiting β} {k : α → Check β}
    (h : Runs cx a here ns x c) (hk : ∀ b, Runs cx a here [] (f b) (k b)) :
    Runs cx a here ns (x >>= f) (c >>= k) := by
  have := h.bind hk
  rwa [List.append_nil] at this

/-- An expression is visited in the scope that it stands in. -/
theorem expr (e : Expr) :
    Runs cx a here [.expr e] (Visiting.visit cx here (.expr e)) (Check.expr cx here e) :=
  visit (b := .expr e) (.expr e) nofun

/-- A branch is visited as what it is, a block or an expression. -/
theorem branch (e : Expr) :
    Runs cx a here [.expr e] (Visiting.visit cx here (.ofBranch e))
      ((Subject.ofBranch e).check cx here) := by
  refine visit (Subject.isAt_ofBranch e) ?_
  cases e <;> exact nofun

/-- A body is visited with the locals that it is given. -/
theorem body (locals : List (String × ValueType)) (b : Block) :
    Runs cx a here [.block b] (Visiting.visit cx here (.block locals b))
      (Check.block cx here locals b) :=
  visit (b := .block locals b) (.body locals b) nofun

end Runs

/-! ## One level of a tree -/

/-- Elements are visited from left to right. -/
theorem exprs_run (es : List Expr) :
    Runs cx a here (es.map .expr) (Visiting.exprs cx here es) (exprs cx here es) := by
  induction es with
  | nil => exact .pure []
  | cons e es ih => exact (Runs.expr e).bind fun _ => ih.bind_still fun _ => .pure _

/-- Statements are visited one after the other. -/
theorem stmts_run (last : ValueType) (ss : List Stmt) :
    Runs cx a here (ss.map .stmt) (Visiting.stmts cx here last ss) (stmts cx here last ss) := by
  induction ss generalizing last with
  | nil => exact .pure last
  | cons s ss ih =>
    exact (Runs.visit (b := .stmt s) (.stmt s) nofun).bind fun type => ih type

/-- A part that is missing is not visited. -/
theorem expr?_runs (e : Option Expr) :
    Runs cx a here (e.toList.map .expr) (Visiting.expr? cx here e) (expr? cx here e) := by
  cases e with
  | none => exact .pure none
  | some e => exact (Runs.expr e).bind_still fun _ => .pure _

/-- A branch that is missing is not visited. -/
theorem branch?_runs (e : Option Expr) :
    Runs cx a here (e.toList.map .expr) (Visiting.branch? cx here e) (branch? cx here e) := by
  cases e with
  | none => exact .pure none
  | some e =>
    cases e with
    | block b => exact (Runs.branch (.block b)).bind_still fun _ => .pure _
    | _ => exact (Runs.branch _).bind_still fun _ => .pure _

/-- A condition of a loop is visited as a block or as an expression, and a missing one is
reported. -/
theorem loopCondition_runs (construct : String) (span : Span) (e : Option Expr) :
    Runs cx a here (e.toList.map .expr) (Visiting.loopCondition cx here construct span e)
      (loopCondition cx here construct span e) := by
  cases e with
  | none => exact .lift (.report span rfl)
  | some e =>
    cases e with
    | block b =>
      exact (Runs.branch (.block b)).bind_still fun type =>
        .lift (.checkType .boolean type b.span)
    | _ => exact (Runs.branch _).bind_still fun type => .lift (.checkType .code type _)

/-- A bound is visited, and compared with the type of numbers. -/
theorem bound?_runs (e : Option Expr) :
    Runs cx a here (e.toList.map .expr) (Visiting.bound? cx here e) (bound? cx here e) := by
  cases e with
  | none => exact .pure ()
  | some e => exact (Runs.expr e).bind_still fun type => .lift (.checkType .number type e.span)

/-- A body is visited in a scope of its own; a missing one is reported. -/
theorem body?_runs (locals : List (String × ValueType)) (construct : String) (span : Span)
    (b : Option Block) :
    Runs cx a here (b.toList.map .block) (Visiting.body? cx here locals construct span b)
      (body? cx here locals construct span b) := by
  cases b with
  | none => exact .lift (.report span rfl)
  | some b => exact (Runs.body locals b).bind_still fun _ => .pure ()

/-- What a loop starts with is visited without a scope of its own if it is a block, since the scope
of the loop has been opened for it. -/
theorem init?_runs {e : Option Expr} (hinit : a.init? = e) :
    Runs cx a here (e.toList.map .expr) (Visiting.init? cx here e) (init? cx here e) := by
  cases e with
  | none => exact .pure ()
  | some e =>
    cases e with
    | block b =>
      cases b with
      | mk id statements span =>
        have hinline : ∀ x ∈ (Subject.inline ⟨id, statements, span⟩).inline?,
            a.init? = some (.block x) := by
          rintro x ⟨⟩
          exact hinit
        exact (Runs.visit (.inline _) hinline).bind_still fun _ => .pure ()
    | _ => exact (Runs.expr _).bind_still fun _ => .pure ()

/-- A construct that opens no scope for all of its parts. -/
theorem control_runs {c : Control} (hscope : controlScope? c = none) :
    Runs cx a here c.children (Visiting.control cx here c) (control cx here c) := by
  cases c with
  | ifThen condition form branch otherwise span =>
    have hthen : Runs cx a here [.expr branch] (Visiting.visit cx here (.ofBranch branch))
        (thenPart cx here branch) := by
      rw [Subject.thenPart_eq]
      exact .branch branch
    have hparts := hthen.bind fun thenType => (branch?_runs otherwise).bind_still fun otherType =>
      .pure (ifType form thenType otherType)
    rw [control_ifThen]
    cases condition with
    | none => exact (Runs.lift (.report span rfl)).bind fun _ => hparts
    | some e =>
      exact ((Runs.expr e).bind_still fun type => .lift (.checkType .boolean type e.span)).bind
        fun _ => hparts
  | whileDo condition body span =>
    exact (loopCondition_runs "while" span condition).bind fun _ =>
      (body?_runs [] "while" span body).bind_still fun _ => .pure _
  | forDo header body span =>
    cases header with
    | range name first last step =>
      have hloop := (@bound?_runs cx a here first).bind fun _ =>
        (bound?_runs last).bind fun _ => (bound?_runs step).bind fun _ =>
          (body?_runs [(name.text, .number)] "for" span body).bind_still fun _ =>
            .pure ValueType.nothing
      simp only [Control.children, ForHeader.parts, List.map_append, List.append_assoc]
      -- A bound that is missing is reported first, which makes no visit.
      rw [control, Visiting.control]
      split
      · exact (Runs.lift (.report span rfl)).bind fun _ => hloop
      · exact hloop
    | classic init condition step => cases hscope
    | missing =>
      exact (Runs.lift (.report span rfl)).bind fun _ =>
        (body?_runs [] "for" span body).bind_still fun _ => .pure _
  | switchDo subject body span =>
    have hbody := (@body?_runs cx a here [] "switch" span body).bind_still fun _ =>
      .pure ValueType.any
    cases subject with
    | none => exact (Runs.lift (.report span rfl)).bind fun _ => hbody
    | some e => exact (Runs.expr e).bind fun _ => hbody
  | case isDefault condition b span =>
    rw [control, Visiting.control]
    refine (expr?_runs condition).bind fun _ => ?_
    cases b with
    | none => exact .pure _
    | some b => exact (Runs.body [] b).bind_still fun _ => .pure _

/-- What follows in a loop with a header of three parts, once it has its scope. -/
theorem classic_runs {init : Option Expr} (hinit : a.init? = init) (condition step : Option Expr)
    (body : Option Block) (span : Span) :
    Runs cx a here ((init.toList ++ condition.toList ++ step.toList).map .expr ++
        body.toList.map .block)
      (do
        Visiting.init? cx here init
        Visiting.loopCondition cx here "for" span condition
        let _ ← Visiting.expr? cx here step
        Visiting.body? cx here [] "for" span body
        return ValueType.nothing)
      (do
        init? cx here init
        loopCondition cx here "for" span condition
        let _ ← expr? cx here step
        body? cx here [] "for" span body
        return ValueType.nothing) := by
  simp only [List.map_append, List.append_assoc]
  exact (init?_runs hinit).bind fun _ => (loopCondition_runs "for" span condition).bind fun _ =>
    (expr?_runs step).bind fun _ => (body?_runs [] "for" span body).bind_still fun _ => .pure _

/-- An expression without a scope of its own visits its children, in the order in which they
stand. -/
theorem expr_runs {e : Expr} (hscope : (Subject.expr e).opens? = none) :
    Runs cx (.expr e) here (Node.expr e).children (Visiting.expr cx here e) (expr cx here e) := by
  cases e with
  | number value span => exact .pure _
  | string value span => exact .pure _
  | name n => exact .lift (.nameType n)
  | array elements span => exact (exprs_run elements).bind_still fun _ => .pure _
  | block b => cases hscope
  | unary command operand span =>
    -- Operands may be refused here, because this is a call.
    have hcall : (Subject.expr (.unary command operand span)).call? ≠ none :=
      Option.some_ne_none _
    exact (Runs.lift (.commandExists command .unary)).bind fun known =>
      (Runs.lift (.declareAll (declaredNames command operand))).bind fun _ =>
        (Runs.expr operand).bind fun _ =>
          .lift (.resultIf hcall known command .unary _)
  | binary joint left command right span =>
    have hcall : (Subject.expr (.binary joint left command right span)).call? ≠ none :=
      Option.some_ne_none _
    exact (Runs.expr left).bind fun _ =>
      (Runs.lift (.commandExists command .binary)).bind fun known =>
        (Runs.expr right).bind fun _ =>
          (Runs.lift (.declareAll (declaredNames command right))).bind fun _ =>
            .lift (.resultIf hcall known command .binary _)
  | control c => exact control_runs hscope
  | error span => exact .pure _

/-- A statement visits its children and then binds what it assigns. -/
theorem stmt_runs {b : Stmt} (hscope : (Subject.stmt b).opens? = none) :
    Runs cx (.stmt b) here (Node.stmt b).children (Visiting.stmt cx here b) (stmt cx here b) := by
  cases b with
  | expression e => exact .expr e
  | assignment isPrivate target value span =>
    rw [stmt, Visiting.stmt]
    refine (Runs.expr value).bind_still fun type => ?_
    split
    · exact (Runs.lift (.declare target.text type)).bind fun _ => .pure _
    · next hprivate =>
      split
      · next hlocal =>
        obtain rfl := Bool.eq_false_iff.2 hprivate
        -- The assignment may change the type of a local, because its target is one.
        have htarget : (Subject.stmt (.assignment false target value span)).target? ≠ none := by
          simp [Subject.target?, hlocal]
        exact (Runs.lift (.assign htarget target.text type)).bind fun _ => .pure _
      · exact .pure _
  | control c => exact control_runs hscope
  | error span => exact .pure _

end Rules

section Level

variable {cx : Context} {a : Subject} {here : Nat}

/-- The scope of a block is opened before anything else. -/
theorem block_level (locals : List (String × ValueType)) (b : Block) :
    RunsIn cx a here (some b.id) (Node.block b).children (Visiting.block cx here locals b)
      (block cx here locals b) := by
  intro before s
  cases b with
  | mk id statements span =>
    have hinside (inside : Nat) := (Runs.lift (.declareLocals locals)).bind fun _ =>
      @stmts_run cx a inside .nothing statements
    exact hinside s.scopes.all.size before (stateFor here s (some id))

/-- A loop with a header of three parts opens its scope before anything else. -/
theorem control_level {c : Control} (hinit : a.init? = c.init?) :
    RunsIn cx a here (controlScope? c) c.children (Visiting.control cx here c)
      (control cx here c) := by
  cases hscope : controlScope? c with
  | none => exact control_runs hscope
  | some id =>
    unfold controlScope? at hscope
    split at hscope
    · next init condition step body span =>
      cases hscope
      intro before s
      exact classic_runs hinit condition step body span before
        (stateFor here s (some (classicScopeId init body)))
    · cases hscope

/-- An expression opens the scope that it has and visits its children in there. -/
theorem expr_level (e : Expr) :
    RunsIn cx (.expr e) here (Subject.expr e).opens? (Node.expr e).children
      (Visiting.expr cx here e) (expr cx here e) := by
  cases hscope : (Subject.expr e).opens? with
  | none => exact expr_runs hscope
  | some id =>
    cases e with
    | block b =>
      cases hscope
      intro before s
      -- The type of the block is dropped, as that of the expression is code.
      obtain ⟨vs, hrun, hvs⟩ := @block_level cx (.expr (.block b)) here [] b before s
      refine ⟨vs, ?_, hvs⟩
      show ((ValueType.code, (Visiting.block cx here [] b before s).1.2),
        (Visiting.block cx here [] b before s).2) = _
      rw [hrun]
      rfl
    | control c => exact hscope ▸ control_level rfl
    | _ => cases hscope

/-- A statement has a scope of its own only if it is a loop. -/
theorem stmt_level (b : Stmt) :
    RunsIn cx (.stmt b) here (Subject.stmt b).opens? (Node.stmt b).children
      (Visiting.stmt cx here b) (stmt cx here b) := by
  cases hscope : (Subject.stmt b).opens? with
  | none => exact stmt_runs hscope
  | some id =>
    cases b with
    | control c => exact hscope ▸ control_level rfl
    | _ => cases hscope

/-- Every subject opens the scope that it has and visits its parts in there. -/
theorem level_runs (a : Subject) :
    RunsIn cx a here a.opens? a.parts (Visiting.level cx here a) (a.check cx here) := by
  cases a with
  | expr e => exact expr_level e
  | stmt b => exact stmt_level b
  | block locals b => exact block_level locals b
  | inline b => exact stmts_run .nothing b.statements

end Level

section Visits

variable (cx : Context)

/-- Without the list of visits, the check with visits is the check. -/
theorem run_level (v : Visit) :
    Visiting.level cx v.here v.subject [] v.state = ((v.type cx, v.inside cx), v.after cx) := by
  obtain ⟨vs, hrun, -⟩ := level_runs v.subject [] v.state
  rw [Visit.inside, hrun]
  rfl

/-- A visit comes to the parts of what is checked, one after the other. -/
theorem Visit.inside_isAt (v : Visit) :
    List.Forall₂ (fun w n => w.subject.IsAt n) (v.inside cx) v.subject.parts := by
  obtain ⟨vs, hrun, hvs, -⟩ := @level_runs cx v.here v.subject [] v.state
  rw [Visit.inside, hrun]
  exact hvs

/-- A visit takes its course in its scope, making the visits inside. -/
theorem Visit.course (v : Visit) :
    Course cx v.subject v.scope v.start (v.inside cx) (v.after cx) := by
  obtain ⟨vs, hrun, -, hcourse⟩ := @level_runs cx v.here v.subject [] v.state
  rw [Visit.inside, hrun]
  exact hcourse

/-- Visits inside a visit are at its parts. -/
theorem Visit.isAmong_of_inside {v w : Visit} (h : w ∈ v.inside cx) :
    w.subject.IsAmong v.subject.parts :=
  exists_mem_of_forall₂ (v.inside_isAt cx) w h

/-- The check of a script as a visit of its statements, in the scope at index 0. -/
def whole (p : Program) : Visit := ⟨0, .inline ⟨0, p.statements, p.span⟩, {}⟩

/-- The check of a script is the visit of the whole. -/
theorem whole_after (p : Program) : (whole p).after cx = (program cx p {}).2 := rfl

variable {cx} {p : Program}

/-- What a check comes to stands in the script. -/
theorem Reached.isAmong {v : Visit} (h : Reached cx p v) :
    v.subject.IsAmong (Node.program p).walk := by
  induction h with
  | @statement v hv =>
    obtain ⟨n, hn, hat⟩ := (whole p).isAmong_of_inside cx hv
    exact ⟨n, Node.mem_walk_of_mem_children (Node.mem_walk_self _) hn, hat⟩
  | @inside v w _ hw ih =>
    obtain ⟨n, hn, hat⟩ := ih
    obtain ⟨m, hm, hat'⟩ := Visit.isAmong_of_inside cx hw
    exact ⟨m, Node.mem_walk_of_mem_children hn (hat.parts_eq ▸ hm), hat'⟩

/-- The check comes to all that is below what it comes to. -/
theorem Reached.exists_of_mem_walk {v : Visit} {n m : Node} (hv : Reached cx p v)
    (hat : v.subject.IsAt n) (hm : m ∈ n.walk) : ∃ w, Reached cx p w ∧ w.subject.IsAt m := by
  rw [Node.walk_eq] at hm
  rcases List.mem_cons.1 hm with rfl | hm
  · exact ⟨v, hv, hat⟩
  · obtain ⟨k, hk, hm⟩ := List.mem_flatMap.1 hm
    have hsize := Node.size_lt_of_mem_children hk
    rw [← hat.parts_eq] at hk
    obtain ⟨w, hw, hwat⟩ := exists_mem_of_forall₂ (v.inside_isAt cx).flip k hk
    exact (hv.inside hw).exists_of_mem_walk hwat hm
termination_by n.size

/-- The check comes to all parts of the script. -/
theorem exists_reached {m : Node} (hm : m ∈ (Node.program p).walk) (hne : m ≠ .program p) :
    ∃ w, Reached cx p w ∧ w.subject.IsAt m := by
  rw [Node.walk_eq] at hm
  obtain ⟨k, hk, hm⟩ := List.mem_flatMap.1 ((List.mem_cons.1 hm).resolve_left hne)
  obtain ⟨w, hw, hwat⟩ := exists_mem_of_forall₂ ((whole p).inside_isAt cx).flip k hk
  exact (Reached.statement hw).exists_of_mem_walk hwat hm

end Visits

/-! ## What the steps keep -/

/-- The relation holds between the state before and the state behind a part of a check. -/
def Moves (R : State → State → Prop) (c : Check α) : Prop := ∀ s, R s (c s).2

/-- A relation that holds of each step between visits. The report that operands are refused is not
among these, since what it says depends on the visits of the operands. -/
structure Keeps (R : State → State → Prop) : Prop where
  refl : ∀ s, R s s
  trans : ∀ {s t u}, R s t → R t u → R s u
  report : ∀ {cause : Cause} (sp : Span), cause.isRefusal = false → Moves R (report cause sp)
  openScope : ∀ here id, Moves R (openScope here id)
  declare : ∀ here name type, Moves R (declare here name type)

section Keeping

variable {cx : Context} {R : State → State → Prop} (hR : Keeps R)

include hR

/-- What steps and visits keep, a course keeps that is not that of a call. -/
theorem Course.keeps {a : Subject} {here : Nat} {s t : State} {vs : List Visit}
    (h : Course cx a here s vs t) (hcall : a.call? = none)
    (hvs : ∀ v ∈ vs, R v.state (v.after cx)) : R s t := by
  induction h with
  | refl => exact hR.refl s
  | report _ span hcause ih => exact hR.trans (ih hvs) (hR.report span hcause _)
  | resolve _ _ _ _ hne _ => exact absurd hcall hne
  | declare _ name type ih => exact hR.trans (ih hvs) (hR.declare here name type _)
  | assign _ name type _ ih => exact hR.trans (ih hvs) (hR.declare _ name type _)
  | visit _ b _ ih =>
    obtain ⟨hvs, hlast⟩ := List.forall_mem_append.1 hvs
    exact hR.trans (ih hvs) (hlast _ (List.mem_singleton_self _))

/-- It is kept by declaring locals. -/
theorem Keeps.declareAll {here : Nat} (names : List String) :
    Moves R (Check.declareAll here names) := by
  induction names with
  | nil => exact hR.refl
  | cons name names ih => exact fun s => hR.trans (hR.declare here name .any s) (ih _)

/-- It is kept by looking up a command. -/
theorem Keeps.commandExists (command : Name) (arity : Arity) :
    Moves R (Check.commandExists cx command arity) := by
  unfold Check.commandExists
  split
  · exact hR.refl
  · refine hR.report command.span ?_
    split <;> rfl

/-- What the steps of a visit keep and the visits that it makes, the visit keeps. -/
theorem Visit.related (v : Visit) (hcall : v.subject.call? = none)
    (h : ∀ w ∈ v.inside cx, R w.state (w.after cx)) : R v.state (v.after cx) := by
  have hstart : R v.state v.start := by
    unfold Visit.start stateFor
    split
    · exact hR.openScope v.here _ v.state
    · exact hR.refl _
  exact hR.trans hstart ((v.course cx).keeps hR hcall h)

/-- What all steps of a check keep, the whole check keeps. Where a command is used with operands, it
is to be shown of the use as a whole, and its operands may be taken to keep it. -/
theorem program_keeps {p : Program} (hcall : ∀ v, Reached cx p v → v.subject.call? ≠ none →
      (∀ w ∈ v.inside cx, R w.state (w.after cx)) → R v.state (v.after cx)) :
    R {} (program cx p {}).2 := by
  have hreached (n : Nat) (v : Visit) (hsize : v.subject.size < n) (hv : Reached cx p v) :
      R v.state (v.after cx) := by
    -- The induction is on a bound of the size of the subject, as visits inside are at smaller ones.
    induction n generalizing v with
    | zero => exact absurd hsize (Nat.not_lt_zero _)
    | succ n ih =>
      have hinside : ∀ w ∈ v.inside cx, R w.state (w.after cx) := fun w hw =>
        ih w (Nat.lt_of_lt_of_le (Visit.isAmong_of_inside cx hw).size_lt (Nat.le_of_lt_succ hsize))
          (.inside hv hw)
      by_cases h : v.subject.call? = none
      · exact v.related hR h hinside
      · exact hcall v hv h hinside
  exact (whole p).related hR rfl fun v hv => hreached _ v (Nat.lt_succ_self _) (.statement hv)

end Keeping

end Check

end Sqf
