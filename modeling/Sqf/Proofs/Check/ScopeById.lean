import Sqf.Proofs.Check.Noting
import Sqf.Proofs.Parse.BlockNumbers

/-!
# Finding the scope of a block

A scope is found by the number it was opened with, and of two scopes with one number
the later is found. In a script that was read only the scope of a loop may have a
number in common with another: that of its body, which is opened after it, or 0 if
there is no body. So each block leads to the scope that its statements were checked
in, but a loop without a body stands in for the script itself (`scopes_byId`,
`root_not_found`).
-/

namespace Sqf

/-! ## Numbers that two scopes have -/

/-- What gives its number to the scope of a loop comes later. -/
def Announced : List Opener → Prop
  | [] => True
  | o :: os => (∀ b, o = .loop (some b) → .block b ∈ os) ∧ Announced os

/-- Two lists in which every loop comes with its body, one behind the other. -/
theorem Announced.append {os others : List Opener} (h : Announced os) (h' : Announced others) :
    Announced (os ++ others) := by
  induction os with
  | nil => exact h'
  | cons o os ih =>
    obtain ⟨hfirst, hrest⟩ := h
    exact ⟨fun b hb => List.mem_append_left _ (hfirst b hb), ih hrest⟩

/-- The end of such a list is one. -/
theorem Announced.of_append {os others : List Opener} (h : Announced (os ++ others)) :
    Announced others := by
  induction os with
  | nil => exact h
  | cons o os ih => exact ih h.2

theorem Announced.mem {os : List Opener} {b : Block} (h : Announced os)
    (hb : .loop (some b) ∈ os) : .block b ∈ os := by
  induction os with
  | nil => cases hb
  | cons o os ih =>
    obtain ⟨hfirst, hrest⟩ := h
    rcases List.mem_cons.1 hb with rfl | hb
    · exact List.mem_cons_of_mem _ (hfirst b rfl)
    · exact List.mem_cons_of_mem _ (ih hrest hb)

namespace Node

theorem block_mem_openers (b : Block) : .block b ∈ (block b).openers := by
  rw [openers_some (n := .block b) rfl]
  exact List.mem_cons_self

/-- The body of a loop stands in the scope of the loop. -/
theorem body_mem_scope {n : Node} {b : Block} {inside : List Node}
    (h : n.scope? = some (.loop (some b), inside)) : .block b ∈ inside := by
  -- A loop may stand as a statement or as an operand.
  have hcontrol : ∀ c : Control, c.scope? = some (.loop (some b), inside) →
      .block b ∈ inside := by
    intro c hc
    unfold Control.scope? at hc
    split at hc
    · cases hc
    · cases hc
      exact List.mem_append_right _ List.mem_cons_self
    · cases hc
  unfold scope? at h
  split at h
  · cases h
  · cases h
  · exact hcontrol _ h
  · exact hcontrol _ h
  · cases h

theorem announced_flatMap {ns : List Node} (h : ∀ m ∈ ns, Announced m.openers) :
    Announced (ns.flatMap openers) := by
  induction ns with
  | nil => trivial
  | cons m ns ih =>
    rw [List.flatMap_cons]
    exact (h m List.mem_cons_self).append (ih fun k hk => h k (List.mem_cons_of_mem _ hk))

/-- In a tree every loop comes with its body. -/
theorem announced_openers (n : Node) : Announced n.openers := by
  cases h : n.scope? with
  | none =>
    rw [openers_none h]
    exact announced_flatMap fun m hm => announced_openers m
  | some scope =>
    rcases scope with ⟨o, inside⟩
    rw [openers_some h]
    refine ⟨?_, announced_flatMap fun m hm => announced_openers m⟩
    rintro b rfl
    exact List.mem_flatMap.2 ⟨.block b, body_mem_scope h, block_mem_openers b⟩
termination_by n.size
decreasing_by
  · exact size_lt_of_mem_children hm
  · exact size_lt_of_mem_scope h hm

/-- The numbers of the blocks are those of the scopes that are opened for them. -/
theorem blockIds_eq_openers (n : Node) :
    n.blockIds = (n.openers.filterMap Opener.block?).map Block.id := by
  rw [openers, List.filterMap_filterMap, blockIds]
  congr 2
  funext m
  exact m.block?_eq_bind_opener?

end Node

section Numbers

variable {os : List Opener} (hannounced : Announced os)
  (hrising : ((os.filterMap Opener.block?).map Block.id).Pairwise (· < ·))
  (hpositive : ∀ i ∈ (os.filterMap Opener.block?).map Block.id, 1 ≤ i)

omit hannounced hrising hpositive in
theorem id_mem_of_block_mem {b : Block} (h : .block b ∈ os) :
    b.id ∈ (os.filterMap Opener.block?).map Block.id :=
  List.mem_map_of_mem (List.mem_filterMap.2 ⟨.block b, h, rfl⟩)

include hannounced hpositive

/-- No scope but that of a loop without a body has number 0. -/
theorem Opener.id_pos {o : Opener} (ho : o ∈ os) (hloop : o ≠ .loop none) : 1 ≤ o.id := by
  cases o with
  | block b => exact hpositive _ (id_mem_of_block_mem ho)
  | loop body =>
    cases body with
    | none => exact absurd rfl hloop
    | some b => exact hpositive _ (id_mem_of_block_mem (hannounced.mem ho))

include hrising

/-- Behind the scope of a block its number does not come again. -/
theorem Opener.id_ne_of_behind {before behind : List Opener} {b : Block}
    (hos : os = before ++ .block b :: behind) {o : Opener} (ho : o ∈ behind) : o.id ≠ b.id := by
  have hpos : 1 ≤ b.id := hpositive _ (id_mem_of_block_mem (by simp [hos]))
  have hlater : ∀ c, .block c ∈ behind → b.id < c.id := by
    intro c hc
    rw [hos, List.filterMap_append, List.map_append, List.pairwise_append] at hrising
    exact (List.pairwise_cons.1 hrising.2.1).1 _ (id_mem_of_block_mem hc)
  rw [hos] at hannounced
  have hbehind : Announced behind := hannounced.of_append.2
  cases o with
  | block c => exact Nat.ne_of_gt (hlater c ho)
  | loop body =>
    cases body with
    | none => exact Nat.ne_of_lt hpos
    | some c => exact Nat.ne_of_gt (hlater c (hbehind.mem ho))

end Numbers

/-! ## Looking for a scope -/

namespace Scopes

/-- The last scope with a number is found by it. -/
theorem byId?_of_last {ss : Scopes} {before behind : List Scope} {s : Scope}
    (hall : ss.all.toList = before ++ s :: behind) (hlast : ∀ t ∈ behind, t.id ≠ s.id) :
    ss.byId? s.id = some s := by
  have hnone : (behind.reverse.find? fun t => t.id == s.id) = none := by
    rw [List.find?_eq_none]
    intro t ht
    simpa using hlast t (List.mem_reverse.1 ht)
  simp [byId?, hall, List.find?_append, hnone]

/-- If the first scope has its number in common with another, another is found by it. -/
theorem byId?_of_again {ss : Scopes} {s : Scope} {behind : List Scope}
    (hall : ss.all.toList = s :: behind) (hagain : s.id ∈ behind.map Scope.id) :
    ∃ t ∈ behind, ss.byId? s.id = some t := by
  obtain ⟨u, hu, hid⟩ := List.mem_map.1 hagain
  have hfound : (behind.reverse.find? fun t => t.id == s.id).isSome := by
    rw [List.find?_isSome]
    exact ⟨u, List.mem_reverse.2 hu, by simp [hid]⟩
  obtain ⟨t, ht⟩ := Option.isSome_iff_exists.1 hfound
  refine ⟨t, List.mem_reverse.1 (List.mem_of_find?_eq_some ht), ?_⟩
  simp [byId?, hall, List.find?_append, ht]

end Scopes

/-- The scopes that a check leaves: that of the script, and one for each opener of the tree. -/
theorem scopes_check (table : Table) (settings : Settings) (p : Program) :
    ∃ root behind, (check table settings p).scopes.all.toList = root :: behind ∧
      root.id = 0 ∧ root.parent = none ∧
      behind.map Scope.id = (Node.program p).openers.map Opener.id ∧
      ∀ s ∈ behind, s.parent ≠ none := by
  have hgoes : Check.Goes 0 (Check.program ⟨table, settings⟩ p) (Node.program p).moves := by
    rw [Node.moves_of_none rfl]
    exact (Check.stmts_go _ 0 .nothing p.statements).bind_still fun _ => Check.Goes.pure _
  -- What the check opens is what the outline of the tree says, block by block.
  have houtlined := (Node.program p).outlined [(0, none)] 0 []
  have hframe : (check table settings p).scopes.frame =
      (0, none) :: ((Node.program p).outline 0 1).map entry :=
    congrArg Trail.opened ((hgoes {} []).symm.trans houtlined)
  obtain ⟨root, behind, hall, hroot, hbehind⟩ := List.map_eq_cons_iff.1 hframe
  refine ⟨root, behind, hall, congrArg Prod.fst hroot, congrArg Prod.snd hroot, ?_, ?_⟩
  · have hids := congrArg (List.map Prod.fst) hbehind
    rw [Node.openers, ← Node.openers_outline _ 0 1, List.map_map]
    rw [List.map_map, List.map_map] at hids
    exact hids
  · intro s hs
    have hmem : (s.id, s.parent) ∈ ((Node.program p).outline 0 1).map entry :=
      hbehind ▸ List.mem_map_of_mem hs
    obtain ⟨found, -, hfound⟩ := List.mem_map.1 hmem
    have hparent : some found.2 = s.parent := congrArg Prod.snd hfound
    rw [← hparent]
    exact Option.some_ne_none _

/-- Where a block among some openers is placed, the openers before it are counted. -/
theorem mem_placed {next i : Nat} {os : List Opener} {b : Block} (h : (b, i) ∈ placed next os) :
    ∃ before behind, os = before ++ .block b :: behind ∧ i = next + before.length := by
  induction os generalizing next with
  | nil => cases h
  | cons o os ih =>
    have hlater : (b, i) ∈ placed (next + 1) os → ∃ before behind,
        o :: os = before ++ .block b :: behind ∧ i = next + before.length := by
      intro hmem
      obtain ⟨before, behind, hos, hi⟩ := ih hmem
      refine ⟨o :: before, behind, by rw [hos, List.cons_append], ?_⟩
      rw [hi, List.length_cons]
      omega
    -- A loop takes a place but is no block.
    cases o with
    | block c =>
      rcases List.mem_cons.1 h with heq | hmem
      · cases heq
        exact ⟨[], os, rfl, rfl⟩
      · exact hlater hmem
    | loop body => exact hlater h

/-- The blocks that are placed are those of the list. -/
theorem map_placed (next : Nat) (os : List Opener) :
    (placed next os).map (·.1) = os.filterMap Opener.block? := by
  induction os generalizing next with
  | nil => rfl
  | cons o os ih =>
    cases o with
    | block b => exact congrArg (b :: ·) (ih _)
    | loop body => exact ih _

/-- In a script that was read each block leads by its number to the scope in which its statements
were checked, which is noted for each block once. The number 0 leads to the scope of the script
unless there is a loop with a header of three parts that has no body and does not start with a
block. -/
theorem scopes_byId (table : Table) (settings : Settings) (source : String) :
    let p := (parseSource table source).program
    let (checked, notes) := checkNoting table settings p
    checked = check table settings p ∧
      notes.map (·.1) = (Node.program p).walk.filterMap Node.block? ∧
      (∀ b i, (b, i) ∈ notes → ∃ s, checked.scopes.all[i]? = some s ∧ s.id = b.id ∧
        checked.scopes.byId? b.id = some s) ∧
      ∃ root, checked.scopes.all[0]? = some root ∧ root.id = 0 ∧ root.parent = none ∧
        (checked.scopes.byId? 0 = some root ↔
          ∀ n ∈ (Node.program p).walk, n.opener? ≠ some (.loop none)) := by
  intro p
  rw [checkNoting_eq]
  obtain ⟨root, behind, hall, hroot, hparent, hids, hparents⟩ := scopes_check table settings p
  have hannounced := (Node.program p).announced_openers
  obtain ⟨hrising, hpositive⟩ : (Node.program p).blockIds.Pairwise (· < ·) ∧
      ∀ i ∈ (Node.program p).blockIds, 1 ≤ i := blockIds_parse table (scan source).tokens
  rw [Node.blockIds_eq_openers] at hrising hpositive
  refine ⟨rfl, ?_, ?_, root, ?_, hroot, hparent, ?_⟩
  · rw [map_placed, Node.openers, List.filterMap_filterMap]
    congr 1
    funext n
    exact n.block?_eq_bind_opener?.symm
  · intro b i hmem
    obtain ⟨openersBefore, openersBehind, hos, hi⟩ := mem_placed hmem
    -- The scopes are cut where the openers are.
    rw [hos, List.map_append, List.map_cons, List.map_eq_append_iff] at hids
    obtain ⟨scopesBefore, rest, hsplit, hbefore, hrest⟩ := hids
    obtain ⟨s, scopesBehind, hcons, hid, hbehind⟩ := List.map_eq_cons_iff.1 hrest
    have hlength : scopesBefore.length = openersBefore.length := by
      simpa using congrArg List.length hbefore
    have hcut : (check table settings p).scopes.all.toList =
        (root :: scopesBefore) ++ s :: scopesBehind := by
      rw [hall, hsplit, hcons, List.cons_append]
    refine ⟨s, ?_, hid, ?_⟩
    · rw [← Array.getElem?_toList, hcut, List.getElem?_append_right (by simp; omega)]
      simp [hi, hlength, Nat.add_comm]
    · have hlast : ∀ t ∈ scopesBehind, t.id ≠ s.id := by
        intro t ht
        have hmem : t.id ∈ openersBehind.map Opener.id := hbehind ▸ List.mem_map_of_mem ht
        obtain ⟨o, ho, hoid⟩ := List.mem_map.1 hmem
        rw [← hoid, hid]
        exact Opener.id_ne_of_behind hannounced hrising hpositive hos ho
      have hfound := Scopes.byId?_of_last hcut hlast
      rwa [hid] at hfound
  · rw [← Array.getElem?_toList, hall]
    rfl
  · rw [← hroot]
    constructor
    · intro hfound n hn hloop
      have hagain : root.id ∈ behind.map Scope.id := by
        rw [hids, hroot]
        exact List.mem_map.2 ⟨.loop none, List.mem_filterMap.2 ⟨n, hn, hloop⟩, rfl⟩
      obtain ⟨t, ht, hother⟩ := Scopes.byId?_of_again hall hagain
      cases hfound.symm.trans hother
      exact hparents root ht hparent
    · intro hnone
      have hcut : (check table settings p).scopes.all.toList = [] ++ root :: behind := hall
      refine Scopes.byId?_of_last hcut fun t ht => ?_
      have hmem : t.id ∈ (Node.program p).openers.map Opener.id := hids ▸ List.mem_map_of_mem ht
      obtain ⟨o, ho, hid⟩ := List.mem_map.1 hmem
      obtain ⟨n, hn, hopener⟩ := List.mem_filterMap.1 ho
      have hne : o ≠ .loop none := fun hloop => hnone n hn (hopener.trans (congrArg some hloop))
      have hpos := Opener.id_pos hannounced hpositive ho hne
      omega

/-- A loop without a body, whose scope has number 0 as that of the script. -/
def bodilessLoop : String := "for [1, \x7btrue\x7d, \x7b\x7d]"

/-- The number 0 leads to the scope of the loop, which stands in that of the script. -/
theorem root_not_found :
    let scopes := (check .empty ⟨true, []⟩ (parseSource .empty bodilessLoop).program).scopes
    (scopes.byId? 0).map Scope.parent = some (some 0) ∧
      scopes.all[0]?.map Scope.parent = some none ∧ scopes.byId? 0 ≠ scopes.all[0]? := by
  intro scopes
  have hloop : (scopes.byId? 0).map Scope.parent = some (some 0) := by decide +kernel
  have hroot : scopes.all[0]?.map Scope.parent = some none := by decide +kernel
  refine ⟨hloop, hroot, fun heq => ?_⟩
  rw [heq, hroot] at hloop
  cases hloop

end Sqf
