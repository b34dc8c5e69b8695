import Sqf.CommandLine.Outcome
import Sqf.Proofs.Check.Course
import Sqf.Proofs.Command.Resolution

/-!
# Refused operands

An overload that is loaded has as many parameters as its arity has operands. So where no overload of
a command takes the operands, the check can always tell which operand is refused: the one at the
mismatch index of the closest overload, with the type that was found for it (`refused_operand`).
-/

namespace Sqf

/-! ## Loaded tables -/

namespace Table

/-- The table comes about by loading descriptors and by extending one such table with another. -/
inductive Loaded : Table → Prop
  | load {ds : List Descriptor} {t : Table} (h : Table.ofDescriptors ds = .ok t) : Loaded t
  | extend {t u : Table} (ht : Loaded t) (hu : Loaded u) : Loaded (t ++ u)

/-- A table that is read from JSON is loaded. -/
theorem loaded_ofJson {source : String} {t : Table} (h : Table.ofJson source = .ok t) :
    t.Loaded := by
  unfold Table.ofJson at h
  split at h
  · cases h
  · split at h
    · next hload =>
      cases h
      exact .load hload
    · cases h

/-- So is the one that comes with the program. -/
theorem loaded_bundled : Table.bundled.Loaded := by
  unfold Table.bundled
  split
  · next h => exact .load h
  · have hnone : Table.ofDescriptors [] = .ok .empty := rfl
    exact .load hnone

end Table

/-- The table of every invocation is loaded. -/
theorem CommandLine.Options.loaded_table {o : Options} {read? : FileReader} {t : Table}
    (h : o.table read? = .ok t) : t.Loaded := by
  unfold table at h
  split at h
  · rw [← Except.ok.inj h]
    exact Table.loaded_bundled
  · split at h
    · cases h
    · split at h
      · next hextra =>
        rw [← Except.ok.inj h]
        exact .extend Table.loaded_bundled (Table.loaded_ofJson hextra)
      · cases h

theorem isSome_of_mapM {ε α β : Type} {f : α → Except ε β} {o : Option α} {p : Option β}
    (h : o.mapM f = .ok p) : p.isSome = o.isSome := by
  cases o with
  | none =>
    cases h
    rfl
  | some a =>
    obtain ⟨b, -, h⟩ := bind_eq_ok_iff.1 h
    cases h
    rfl

/-- A signature has a parameter for each operand of its arity. -/
def Signature.IsFull (s : Signature) : Prop := s.parameters.length = s.arity.operands

/-- A usage makes a signature with as many parameters as its arity has operands. -/
theorem Usage.isFull_of_toSignature {command : String} {u : Usage} {s : Signature}
    (h : u.toSignature command = .ok s) : s.IsFull := by
  unfold toSignature at h
  split at h
  · cases h
  · next arity harity =>
    obtain ⟨left, hleft, h⟩ := bind_eq_ok_iff.1 h
    obtain ⟨right, hright, h⟩ := bind_eq_ok_iff.1 h
    obtain ⟨returns, -, h⟩ := bind_eq_ok_iff.1 h
    cases h
    show (left.toList ++ right.toList).length = arity.operands
    rw [List.length_append, Option.length_toList, Option.length_toList, isSome_of_mapM hleft,
      isSome_of_mapM hright]
    unfold arity? at harity
    revert harity
    cases u.left <;> cases u.right <;> rintro ⟨⟩ <;> rfl

/-- So all signatures of a table that is loaded are full. -/
theorem Table.Loaded.isFull {t : Table} (h : t.Loaded) : ∀ s ∈ t.signatures, s.IsFull := by
  induction h with
  | load h =>
    obtain ⟨usages, husages, hsignatures⟩ := exists_of_ofDescriptors h
    rw [hsignatures]
    intro s hs
    obtain ⟨ss, hss, hs⟩ := List.mem_flatten.1 hs
    obtain ⟨d, -, hd⟩ := exists_of_mapM husages ss hss
    obtain ⟨u, -, hu⟩ := exists_of_mapM hd s hs
    exact u.isFull_of_toSignature hu
  | extend _ _ iht ihu =>
    rw [signatures_append]
    exact List.forall_mem_append.2 ⟨iht, ihu⟩

/-! ## What is refused -/

/-- A full overload that does not accept all operands refuses one of them. -/
theorem Signature.mismatch?_eq_some {s : Signature} {supplied : List ValueType} {i : Nat}
    (hlength : s.parameters.length = supplied.length) (h : s.mismatch? supplied = some i) :
    ∃ (hi : i < supplied.length) (hp : i < s.parameters.length),
      s.parameters[i].accepts supplied[i] = false ∧
        ∀ j (_ : j < i), s.parameters[j].accepts supplied[j] = true := by
  rw [mismatch?, if_pos hlength] at h
  obtain ⟨hi, hrefused, haccepted⟩ := List.findIdx?_eq_some_iff_getElem.1 h
  rw [List.length_zip] at hi
  refine ⟨by omega, by omega, by simpa using hrefused, fun j hj => ?_⟩
  simpa using haccepted j hj

/-- The closest of full overloads refuses an operand that is there, and accepts those before. -/
theorem Table.refused_of_noMatch {table : Table} (hfull : ∀ s ∈ table.signatures, s.IsFull)
    {name : String} {arity : Arity} {supplied : List ValueType}
    (hlength : supplied.length = arity.operands) {closest : Signature} {i : Nat}
    (h : table.resolve name arity supplied = .noMatch closest i) :
    closest ∈ table.overloads name arity ∧
      ∃ (hi : i < supplied.length) (hp : i < closest.parameters.length),
        closest.parameters[i].accepts supplied[i] = false ∧
          ∀ j (_ : j < i), closest.parameters[j].accepts supplied[j] = true := by
  obtain ⟨before, behind, hoverloads, hmismatch, -⟩ := resolve_eq_noMatch_iff.1 h
  have hclosest : closest ∈ table.overloads name arity := by simp [hoverloads]
  refine ⟨hclosest, closest.mismatch?_eq_some ?_ hmismatch⟩
  rw [overloads_eq, List.mem_filter, Bool.and_eq_true, decide_eq_true_eq] at hclosest
  rw [hfull closest hclosest.1, hclosest.2.1, hlength]

/-- A use of a command, with the types that are found for its operands. -/
structure Use where
  command : Name
  arity : Arity
  operands : List (Expr × ValueType)

/-- The diagnostic says of a use of a command which operand the overload refuses: the first one that
it does not accept, by its place in the source and by the type that is found for it. -/
structure Signature.Refuses (overload : Signature) (u : Use) (i : Nat) (d : Diagnostic) : Prop where
  isOperand : i < u.operands.length
  isParameter : i < overload.parameters.length
  cause_eq : d.cause = .noApplicableOverload u.command.text (some i)
    overload.parameters[i].type.displayName u.operands[i].2.displayName
  span_eq : d.span = u.operands[i].1.span
  refused : overload.parameters[i].accepts u.operands[i].2 = false
  accepted : ∀ j (_ : j < i), overload.parameters[j].accepts u.operands[j].2 = true

namespace Check

/-- Resolves the command of a use. -/
def resolveUse (cx : Context) (known : Bool) (u : Use) : Check ValueType :=
  resultIf cx known u.command u.arity (u.operands.map fun o => (o.2, o.1.span))

/-- What resolving a command reports: nothing, or what the closest overload refuses. -/
theorem resolveUse_cases {cx : Context} (hfull : ∀ s ∈ cx.table.signatures, s.IsFull) {u : Use}
    (hlength : u.operands.length = u.arity.operands) (known : Bool) (s : State) :
    let after := (resolveUse cx known u s).2
    after = s ∨ ∃ overload ∈ cx.table.overloads u.command.text u.arity, ∃ i d,
      overload.Refuses u i d ∧ after = { s with diagnostics := s.diagnostics.push d } := by
  intro after
  have hunfold : after = (resolveUse cx known u s).2 := rfl
  unfold resolveUse resultIf at hunfold
  cases known with
  | false => exact .inl hunfold
  | true =>
    rw [if_pos rfl, resultType] at hunfold
    -- Only the last outcome reports a type that does not fit.
    cases hresolve : cx.table.resolve u.command.text u.arity
      ((u.operands.map fun o => (o.2, o.1.span)).map (·.1)) with
    | unknown | unsupportedArity | found =>
      rw [hresolve] at hunfold
      exact .inl hunfold
    | noMatch closest i =>
      obtain ⟨hclosest, hi, hp, hrefused, haccepted⟩ :=
        Table.refused_of_noMatch hfull (by simpa using hlength) hresolve
      rw [List.length_map, List.length_map] at hi
      rw [hresolve] at hunfold
      simp only [List.getElem?_map, List.getElem?_eq_getElem hi, List.getElem?_eq_getElem hp,
        Option.map_some, Option.getD_some] at hunfold
      exact .inr ⟨closest, hclosest, i, _,
        ⟨hi, hp, rfl, rfl, by simpa using hrefused, fun j hj => by simpa using haccepted j hj⟩,
        hunfold⟩

/-! ## Where it comes from -/

/-- The visit checks an expression that uses a command, and visits its operands. -/
structure Visit.Uses (cx : Context) (v : Visit) (e : Expr) (u : Use) : Prop where
  subject_eq : v.subject = .expr e
  call : e.call? = some (u.command, u.arity, u.operands.map Prod.fst)
  inside : (v.inside cx).map (fun w => (w.subject, w.type cx)) =
    u.operands.map fun o => (Subject.expr o.1, o.2)

/-- A command is used with as many operands as its arity says. -/
theorem Visit.Uses.length_eq {cx : Context} {v : Visit} {e : Expr} {u : Use} (h : v.Uses cx e u) :
    u.operands.length = u.arity.operands := by
  rw [← Expr.length_of_call? h.call, List.length_map]

/-- The diagnostic is about a use of a command that the check comes to in the script, and says which
operand is refused by an overload of the command in this arity. -/
def Explained (cx : Context) (p : Program) (d : Diagnostic) : Prop :=
  ∃ v e u overload i, Reached cx p v ∧ Node.expr e ∈ (Node.program p).walk ∧ v.Uses cx e u ∧
    overload ∈ cx.table.overloads u.command.text u.arity ∧ overload.Refuses u i d

/-- What is reported behind a part of a check is explained, if it is what was before. -/
def Explains (cx : Context) (p : Program) (s t : State) : Prop :=
  (∀ d ∈ s.diagnostics, d.cause.isRefusal = true → Explained cx p d) →
    ∀ d ∈ t.diagnostics, d.cause.isRefusal = true → Explained cx p d

section Reasons

variable {cx : Context} {p : Program}

/-- A report is explained if it is no refusal, or has its reason. -/
theorem explains_push {s : State} {d : Diagnostic}
    (h : d.cause.isRefusal = true → Explained cx p d) :
    Explains cx p s { s with diagnostics := s.diagnostics.push d } := by
  intro hs d' hd'
  rcases Array.mem_push.1 hd' with hd' | rfl
  · exact hs d' hd'
  · exact h

/-- Checks that are explained one after the other are explained together. -/
theorem keeps_explains : Keeps (Explains cx p) where
  refl _ h := h
  trans h h' hs := h' (h hs)
  report _ hcause _ := explains_push fun hrefusal => by
    rw [hcause] at hrefusal
    cases hrefusal
  openScope _ _ _ h := h
  declare _ _ _ _ h := h

variable (hfull : ∀ s ∈ cx.table.signatures, s.IsFull)

include hfull

/-- What is reported when the command of a use is resolved is explained by this use. -/
theorem resolveUse_explains {v : Visit} (hv : Reached cx p v) {e : Expr} {u : Use}
    (huses : v.Uses cx e u) (known : Bool) : Moves (Explains cx p) (resolveUse cx known u) := by
  intro s
  rcases resolveUse_cases hfull huses.length_eq known s with
    hnone | ⟨overload, hoverload, i, d, hd, hafter⟩
  · rw [hnone]
    exact keeps_explains.refl s
  · rw [hafter]
    have hpart : Node.expr e ∈ (Node.program p).walk := by
      obtain ⟨n, hn, hat⟩ := hv.isAmong
      rw [huses.subject_eq] at hat
      cases hat
      exact hn
    exact explains_push fun _ => ⟨v, e, u, overload, i, hv, hpart, huses, hoverload, hd⟩

/-- Where the reports on its operands are explained, so are those on a use of a command. -/
theorem call_explains {v : Visit} (hv : Reached cx p v) (hcall : v.subject.call? ≠ none)
    (h : ∀ w ∈ v.inside cx, Explains cx p w.state (w.after cx)) :
    Explains cx p v.state (v.after cx) := by
  obtain ⟨here, subject, s⟩ := v
  cases subject with
  | expr e =>
    cases e with
    | unary command operand span =>
      -- The states between the steps of the check are named as the check goes through them.
      let known := commandExists cx command .unary s
      let w : Visit := ⟨here, .expr operand,
        (declareAll here (declaredNames command operand) known.2).2⟩
      let u : Use := ⟨command, .unary, [(operand, w.type cx)]⟩
      have huses : Visit.Uses cx ⟨here, .expr (.unary command operand span), s⟩
        (.unary command operand span) u := ⟨rfl, rfl, rfl⟩
      have hdeclared : Explains cx p s w.state :=
        keeps_explains.trans (keeps_explains.commandExists command .unary s)
          (keeps_explains.declareAll _ known.2)
      have hoperand : Explains cx p w.state (w.after cx) := h w (List.mem_singleton_self w)
      have hresult := resolveUse_explains hfull hv huses known.1 (w.after cx)
      exact keeps_explains.trans hdeclared (keeps_explains.trans hoperand hresult)
    | binary joint left command right span =>
      let v : Visit := ⟨here, .expr left, s⟩
      let known := commandExists cx command .binary (v.after cx)
      let w : Visit := ⟨here, .expr right, known.2⟩
      let declared := (declareAll here (declaredNames command right) (w.after cx)).2
      let u : Use := ⟨command, .binary, [(left, v.type cx), (right, w.type cx)]⟩
      have huses : Visit.Uses cx ⟨here, .expr (.binary joint left command right span), s⟩
        (.binary joint left command right span) u := ⟨rfl, rfl, rfl⟩
      have hleft : Explains cx p s (v.after cx) := h v List.mem_cons_self
      have hknown : Explains cx p (v.after cx) w.state :=
        keeps_explains.commandExists command .binary (v.after cx)
      have hright : Explains cx p w.state (w.after cx) :=
        h w (List.mem_cons_of_mem v (List.mem_singleton_self w))
      have hdeclared : Explains cx p (w.after cx) declared :=
        keeps_explains.declareAll _ (w.after cx)
      have hresult := resolveUse_explains hfull hv huses known.1 declared
      exact keeps_explains.trans hleft (keeps_explains.trans hknown
        (keeps_explains.trans hright (keeps_explains.trans hdeclared hresult)))
    | _ => exact absurd rfl hcall
  | _ => exact absurd rfl hcall

end Reasons

end Check

/-- Where no overload of a command takes the operands, the diagnostic stands at one of the operands
of a use of the command in the script. It names the type that is found for this operand, and the one
that an overload asks for there which accepts all operands before it. -/
theorem refused_operand {table : Table} (h : table.Loaded) (settings : Settings) (p : Program)
    {d : Diagnostic} (hd : d ∈ (check table settings p).diagnostics)
    (hrefusal : d.cause.isRefusal = true) : Check.Explained ⟨table, settings⟩ p d := by
  have hreasons : Check.Explains ⟨table, settings⟩ p {}
      (Check.program ⟨table, settings⟩ p {}).2 :=
    Check.program_keeps Check.keeps_explains fun v hv hcall hinside =>
      Check.call_explains h.isFull hv hcall hinside
  have hnone : ∀ d ∈ (#[] : Array Diagnostic), d.cause.isRefusal = true →
      Check.Explained ⟨table, settings⟩ p d := by
    intro d hd
    cases Array.not_mem_empty d hd
  exact hreasons hnone d (Array.mem_toList_iff.1 hd) hrefusal

/-- A command on numbers is given a string. -/
theorem refused_operand_string :
    let foo : Signature := ⟨"foo", .unary, none, some ⟨.number, "", false⟩, .nothing⟩
    let p := (parseSource (.ofSignatures [foo]) "foo \"a\"").program
    let d : Diagnostic := ⟨.noApplicableOverload "foo" (some 0) "Number" "String", ⟨4, 7⟩⟩
    Table.ofDescriptors [⟨"foo", [⟨none, some "number", "nothing"⟩]⟩] = .ok (.ofSignatures [foo]) ∧
      d ∈ (check (.ofSignatures [foo]) {} p).diagnostics ∧
      Check.Explained ⟨.ofSignatures [foo], {}⟩ p d := by
  intro foo p d
  have hload : Table.ofDescriptors [⟨"foo", [⟨none, some "number", "nothing"⟩]⟩] =
      .ok (.ofSignatures [foo]) := rfl
  have hd : d ∈ (check (.ofSignatures [foo]) {} p).diagnostics := by
    decide +kernel
  exact ⟨hload, hd, refused_operand (.load hload) {} p hd rfl⟩

end Sqf
