/-
# Marking by recursion

The plain way to mark is to recurse: a handle that names no cell ends the marking, a cell
that is marked already is left alone, and any other cell is marked before what its first link
leads to, and that before what its second link leads to.  `Marking.visit` does that, and
`Marking.visit_some` is the recursion in one equation.  It ends because no call leaves more to
mark than it found, which the recursion has to know of itself to get to the second link.

The worklist does the same on any heap, whatever is marked on it and wherever its links lead
(`Heap.mark_eq_markByRecursion`).  Nothing may be waiting from before, and nothing ever is
(`Heap.worklist_carryOut`).  What makes the two comparable is that the handles behind the first
do not matter to the recursion: with a link in front of a worklist, the loop comes to where the
recursion on that link ends, and has the rest of the worklist still to do
(`Marking.run_awaiting`).
-/

import MarkSweep.Proofs.Heap.Inventory

namespace MarkSweep

namespace Marking

/-- What there is left to mark. -/
def work (marking : Marking) : Nat :=
  Heap.weight Slot.markingWork marking.heap.slots

/-- Marks the cell of a handle. -/
def enter (marking : Marking) (r : Ref) : Marking :=
  ⟨marking.heap.setMark r, r :: marking.order⟩

theorem work_enter_lt {marking : Marking} {r : Ref} {cell : Cell}
    (h : marking.heap.get? r = some cell) (hm : ¬ cell.marked = true) :
    (marking.enter r).work < marking.work := by
  have hs := Heap.get?_eq_some_iff.1 h
  have hw : (marking.enter r).work + Slot.markingWork ⟨r.generation, some cell⟩ =
      marking.work + Slot.markingWork _ := Heap.weight_modify Slot.markingWork
    (·.update r.generation fun cell => { cell with marked := true }) hs
  simp [Slot.markingWork, Slot.update, hm] at hw
  omega

/-- The recursion, with the bound that lets it go on to the second link. -/
def visitWithin (marking : Marking) :
    Option Ref → { result : Marking × Option Ref // result.1.work ≤ marking.work }
  | none => ⟨(marking, none), Nat.le_refl _⟩
  | some r =>
    match h : marking.heap.get? r with
    | none => ⟨(marking, some r), Nat.le_refl _⟩
    | some cell =>
      if hm : cell.marked = true then
        ⟨(marking, none), Nat.le_refl _⟩
      else
        have hr : (marking.enter r).work < marking.work := work_enter_lt h hm
        match visitWithin (marking.enter r) cell.payload.first? with
        | ⟨(first, some lost), hfirst⟩ =>
          ⟨(first, some lost), Nat.le_of_lt (Nat.lt_of_le_of_lt hfirst hr)⟩
        | ⟨(first, none), hfirst⟩ =>
          have hfirst : first.work < marking.work := Nat.lt_of_le_of_lt hfirst hr
          match visitWithin first cell.payload.second? with
          | ⟨second, hsecond⟩ => ⟨second, Nat.le_of_lt (Nat.lt_of_le_of_lt hsecond hfirst)⟩
termination_by marking.work

/-- Marks by recursion what a link leads to, if there is one, and answers the handle that it
broke off at, if there was such a handle. -/
def visit (marking : Marking) (link : Option Ref) : Marking × Option Ref :=
  (marking.visitWithin link).val

variable {marking : Marking} {r : Ref} {cell : Cell}

theorem visit_none (marking : Marking) : marking.visit none = (marking, none) := by
  rw [visit, visitWithin]

/-- **The recursion.** -/
theorem visit_some (marking : Marking) (r : Ref) :
    marking.visit (some r) =
      match marking.heap.get? r with
      | none => (marking, some r)
      | some cell =>
        if cell.marked then
          (marking, none)
        else
          match (marking.enter r).visit cell.payload.first? with
          | (first, some lost) => (first, some lost)
          | (first, none) => first.visit cell.payload.second? := by
  rw [visit, visitWithin]
  split
  · rename_i h
    simp only [h]
  · rename_i cell h
    by_cases hm : cell.marked = true
    · simp only [h, hm, dif_pos, if_pos]
    · simp only [h, dif_neg hm, if_neg hm, visit]
      split <;> rename_i hfirst <;> rw [hfirst]

theorem visit_of_gone (h : marking.heap.get? r = none) :
    marking.visit (some r) = (marking, some r) := by
  rw [visit_some, h]

theorem visit_of_marked (h : marking.heap.get? r = some cell) (hm : cell.marked = true) :
    marking.visit (some r) = (marking, none) := by
  rw [visit_some, h]
  exact if_pos hm

theorem visit_of_unmarked (h : marking.heap.get? r = some cell) (hm : ¬ cell.marked = true) :
    marking.visit (some r) =
      match (marking.enter r).visit cell.payload.first? with
      | (first, some lost) => (first, some lost)
      | (first, none) => first.visit cell.payload.second? := by
  rw [visit_some, h]
  exact if_neg hm

/-- What holds of each way in which the recursion can go holds of the recursion. -/
theorem visit_induction {P : Marking → Option Ref → Marking × Option Ref → Prop}
    (absent : ∀ marking, P marking none (marking, none))
    (gone : ∀ marking r, marking.heap.get? r = none → P marking (some r) (marking, some r))
    (marked : ∀ marking r cell, marking.heap.get? r = some cell → cell.marked = true →
      P marking (some r) (marking, none))
    (lost : ∀ marking r cell first s, marking.heap.get? r = some cell → ¬ cell.marked = true →
      P (marking.enter r) cell.payload.first? (first, some s) →
      P marking (some r) (first, some s))
    (both : ∀ marking r cell first result, marking.heap.get? r = some cell →
      ¬ cell.marked = true → P (marking.enter r) cell.payload.first? (first, none) →
      P first cell.payload.second? result → P marking (some r) result)
    (marking : Marking) (link : Option Ref) : P marking link (marking.visit link) := by
  induction marking, link using visitWithin.induct with
  | case1 marking =>
    rw [visit_none]
    exact absent marking
  | case2 marking r h =>
    rw [visit_of_gone h]
    exact gone marking r h
  | case3 marking r cell h hm =>
    rw [visit_of_marked h hm]
    exact marked marking r cell h hm
  | case4 marking r cell h hm _ first s _ hvisit ih =>
    have hfirst : (marking.enter r).visit cell.payload.first? = (first, some s) :=
      congrArg Subtype.val hvisit
    rw [hfirst] at ih
    rw [visit_of_unmarked h hm, hfirst]
    exact lost marking r cell first s h hm ih
  | case5 marking r cell h hm _ first _ hvisit _ result _ _ ih₁ ih₂ =>
    have hfirst : (marking.enter r).visit cell.payload.first? = (first, none) :=
      congrArg Subtype.val hvisit
    rw [hfirst] at ih₁
    rw [visit_of_unmarked h hm, hfirst]
    exact both marking r cell first _ h hm ih₁ ih₂

/-- The recursion leaves alone what waits on the heap. -/
theorem worklist_visit (marking : Marking) (link : Option Ref) :
    (marking.visit link).1.heap.worklist = marking.heap.worklist :=
  visit_induction (P := fun marking _ result => result.1.heap.worklist = marking.heap.worklist)
    (fun _ => rfl) (fun _ _ _ => rfl) (fun _ _ _ _ _ => rfl) (fun _ _ _ _ _ _ _ ih => ih)
    (fun _ _ _ _ _ _ _ ih₁ ih₂ => ih₂.trans ih₁) marking link

/-! ### The loop beside it -/

/-- A marking with these handles still to be visited. -/
def awaiting (marking : Marking) (worklist : List Ref) : Marking :=
  ⟨marking.heap.await worklist, marking.order⟩

theorem run_awaiting_nil (marking : Marking) : (marking.awaiting []).run = marking.awaiting [] :=
  run_of_halted rfl

theorem run_awaiting_gone (h : marking.heap.get? r = none) (rest : List Ref) :
    (marking.awaiting (r :: rest)).run = marking.awaiting (r :: rest) := by
  refine run_of_halted ?_
  show (!marking.heap.contains r) = true
  rw [Heap.get?_eq_none_iff.1 h]
  rfl

theorem run_awaiting_of_get? (h : marking.heap.get? r = some cell) (rest : List Ref) :
    (marking.awaiting (r :: rest)).run =
      if cell.marked then (marking.awaiting rest).run
      else ((marking.enter r).awaiting (cell.payload.edges ++ rest)).run := by
  have hhalted : (marking.awaiting (r :: rest)).halted = false := by
    show (!marking.heap.contains r) = false
    rw [Heap.contains_iff_exists.2 ⟨cell, h⟩]
    rfl
  have hstep : (marking.awaiting (r :: rest)).step =
      if cell.marked then marking.awaiting rest
      else (marking.enter r).awaiting (cell.payload.edges ++ rest) := by
    show (match marking.heap.get? r with
      | none => marking.awaiting (r :: rest)
      | some cell =>
        if cell.marked then marking.awaiting rest
        else (marking.enter r).awaiting (cell.payload.edges ++ rest)) = _
    rw [h]
  rw [run_of_not_halted hhalted, hstep]
  split_ifs <;> rfl

/-- A loop that has these handles still to visit behind a link ends as it would after the
recursion on that link: with the rest still to visit, or at the handle that the recursion broke
off at. -/
def EndsAfter (rest : List Ref) (run : Marking) : Marking × Option Ref → Prop
  | (marking, none) => run = (marking.awaiting rest).run
  | (marking, some lost) => ∃ worklist, run = marking.awaiting (lost :: worklist)

/-- **The loop follows the recursion**, whatever waits behind the link. -/
theorem run_awaiting (marking : Marking) (link : Option Ref) (rest : List Ref) :
    EndsAfter rest (marking.awaiting (link.toList ++ rest)).run (marking.visit link) := by
  refine visit_induction (P := fun marking link result => ∀ rest,
    EndsAfter rest (marking.awaiting (link.toList ++ rest)).run result)
    (fun _ _ => rfl) (fun marking r h rest => ⟨rest, run_awaiting_gone h rest⟩)
    (fun marking r cell h hm rest => ?_) (fun marking r cell first s h hm ih rest => ?_)
    (fun marking r cell first result h hm ih₁ ih₂ rest => ?_) marking link rest
  · exact (run_awaiting_of_get? h rest).trans (if_pos hm)
  all_goals
    have hrun : (marking.awaiting (r :: rest)).run = ((marking.enter r).awaiting
        (cell.payload.first?.toList ++ (cell.payload.second?.toList ++ rest))).run := by
      rw [run_awaiting_of_get? h, if_neg hm, Payload.edges, List.append_assoc]
  · obtain ⟨worklist, hfirst⟩ := ih (cell.payload.second?.toList ++ rest)
    exact ⟨worklist, hrun.trans hfirst⟩
  · have hfirst : ((marking.enter r).awaiting
        (cell.payload.first?.toList ++ (cell.payload.second?.toList ++ rest))).run =
        (first.awaiting (cell.payload.second?.toList ++ rest)).run := ih₁ _
    have hsecond := ih₂ rest
    rwa [← hfirst, ← hrun] at hsecond

end Marking

namespace Heap

/-- Marks by recursion what a root leads to, and answers how many cells that were. -/
def markByRecursion (root : Ref) : Action Heap Nat := do
  let (marked, lost) ← Action.transition fun heap =>
    match Marking.visit ⟨heap, []⟩ (some root) with
    | (⟨heap, order⟩, lost) => ((order.length, lost), heap)
  match lost with
  | none => return marked
  | some r => Action.abort (.danglingEdge r)

/-- **Marking with a worklist is marking by recursion.**  Both mark the same cells in the same
order and leave the same heap, and answer the same number or break off at the same handle; and
however that ends, nothing is left waiting.  The marks that were there before and the links,
which may be absent or dangle, can be any at all. -/
theorem mark_eq_markByRecursion {session : Session Heap} (hidle : session.state.worklist = [])
    (root : Ref) :
    mark root session = markByRecursion root session ∧
    (Marking.ofRoot session.state root).run.order =
      (Marking.visit ⟨session.state, []⟩ (some root)).1.order ∧
    ((mark root).after session).state.worklist = [] := by
  obtain ⟨heap, journal, output⟩ := session
  simp only [] at hidle
  have hstart : Marking.ofRoot heap root = Marking.awaiting ⟨heap, []⟩ [root] := by
    show Marking.mk (heap.await (root :: heap.worklist)) [] = _
    rw [hidle]
    rfl
  have hends := Marking.run_awaiting ⟨heap, []⟩ (some root) []
  have hwork := Marking.worklist_visit ⟨heap, []⟩ (some root)
  rw [show (some root).toList ++ [] = [root] from rfl, ← hstart] at hends
  rw [mark_apply, after_mark]
  simp only [markByRecursion, Action.bind_apply, Action.transition_apply]
  cases hvisit : Marking.visit ⟨heap, []⟩ (some root) with
  | mk marking lost =>
    obtain ⟨heap', order⟩ := marking
    rw [hvisit] at hends hwork
    have hawait : heap'.await [] = heap' := by
      rw [← hidle, ← hwork]
      rfl
    have hnone : heap'.worklist = [] := hwork.trans hidle
    cases lost with
    | none =>
      have hrun : (Marking.ofRoot heap root).run = ⟨heap', order⟩ := by
        rw [show _ = _ from hends, Marking.run_awaiting_nil, Marking.awaiting, hawait]
      simp [hrun, hnone, hawait]
    | some s =>
      obtain ⟨worklist, hrun⟩ := hends
      have hhead : (heap'.await (s :: worklist)).worklist.head? = some s := rfl
      have hback : (heap'.await (s :: worklist)).await [] = heap' := hawait
      simp [hrun, Marking.awaiting, hhead, hback, hnone]

/-- Two pairs that are linked to each other, the first to itself as well and the second to a
cell that there never was. -/
def tangle : Session Heap :=
  carryOut [.allocate (.pair none none), .allocate (.pair (some ⟨0, 0⟩) (some ⟨9, 0⟩)),
    .setPair ⟨0, 0⟩ ⟨1, 0⟩ ⟨0, 0⟩] ⟨{}, [], ""⟩

/-- Marked from the first, both are marked, the first before the second, when the loop and the
recursion break off at the cell that is missing. -/
theorem tangle_marked : tangle.state.worklist = [] ∧
    mark ⟨0, 0⟩ tangle = markByRecursion ⟨0, 0⟩ tangle ∧
    (markByRecursion ⟨0, 0⟩).failure? tangle = some (.fault (.danglingEdge ⟨9, 0⟩)) ∧
    (Marking.visit ⟨tangle.state, []⟩ (some ⟨0, 0⟩)).1.order = [⟨1, 0⟩, ⟨0, 0⟩] := by
  have hidle : tangle.state.worklist = [] := worklist_carryOut _
  have hmark : (mark ⟨0, 0⟩).failure? tangle = some (.fault (.danglingEdge ⟨9, 0⟩)) := by
    decide +kernel
  have horder : (Marking.ofRoot tangle.state ⟨0, 0⟩).run.order = [⟨1, 0⟩, ⟨0, 0⟩] := by
    decide +kernel
  obtain ⟨heq, hsame, -⟩ := mark_eq_markByRecursion hidle ⟨0, 0⟩
  refine ⟨hidle, heq, ?_, hsame ▸ horder⟩
  rwa [Action.failure?, heq] at hmark

end Heap

end MarkSweep
