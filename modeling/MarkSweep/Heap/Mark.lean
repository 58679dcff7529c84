/-
# Marking

Marking visits every cell that can be reached from a root, by a worklist on the
heap instead of recursion: take a handle off the list, mark its cell, and put
the cell's edges in front.  A cell that is marked already is passed over, so
cycles come to an end.

A `Marking` is what the loop works on.  It halts when the worklist is empty, or
when the handle in front names no cell; that handle then stays in front, to tell
which it was.  A round either drops a handle, or turns an unmarked cell into at
most two handles, so `Marking.remaining` goes down every time
(`remaining_step_lt`), and that is why the loop ends on any heap whatever.
-/

import MarkSweep.Action
import MarkSweep.Heap.Weight

namespace MarkSweep

/-- The rounds that marking may yet spend on a slot. -/
def Slot.markingWork (slot : Slot) : Nat :=
  match slot.cell with
  | some cell => if cell.marked then 0 else 2
  | none => 0

/-- Marks the cell that a handle names. -/
def Heap.setMark (heap : Heap) (r : Ref) : Heap :=
  heap.update r fun cell => { cell with marked := true }

/-- A marking under way: a heap whose worklist holds what is still to be visited,
and the cells marked so far. -/
structure Marking where
  heap : Heap
  /-- The cells that this marking marked, the latest first. -/
  order : List Ref := []

namespace Marking

/-- The start of a marking from one root. -/
def ofRoot (heap : Heap) (root : Ref) : Marking :=
  match heap with
  | ⟨slots, free, head, count, worklist⟩ => ⟨⟨slots, free, head, count, root :: worklist⟩, []⟩

/-- Nothing is left to visit, or what comes next is gone. -/
def halted (marking : Marking) : Bool :=
  match marking.heap.worklist with
  | [] => true
  | r :: _ => !marking.heap.contains r

/-- Visits the handle in front of the worklist. -/
def step (marking : Marking) : Marking :=
  match marking with
  | ⟨heap, order⟩ =>
    match heap.worklist with
    | [] => ⟨heap, order⟩
    | r :: rest =>
      match heap.get? r with
      | none => ⟨heap, order⟩
      | some cell =>
        if cell.marked then
          ⟨heap.await rest, order⟩
        else
          ⟨(heap.setMark r).await (cell.payload.edges ++ rest), r :: order⟩

/-- A bound on the rounds still to come. -/
def remaining (marking : Marking) : Nat :=
  Heap.weight Slot.markingWork marking.heap.slots + marking.heap.worklist.length

/-- Each round brings the end nearer. -/
theorem remaining_step_lt {marking : Marking} (h : marking.halted = false) :
    marking.step.remaining < marking.remaining := by
  obtain ⟨heap, order⟩ := marking
  cases hw : heap.worklist with
  | nil => simp [halted, hw] at h
  | cons r rest =>
    cases hr : heap.get? r with
    | none => simp [halted, hw, Heap.contains, hr] at h
    | some cell =>
      obtain ⟨payload, marked, next⟩ := cell
      cases marked with
      | true => simp [step, hw, hr, remaining, Heap.await]
      | false =>
        have hs := Heap.get?_eq_some_iff.1 hr
        have hwt := Heap.weight_modify Slot.markingWork
          (·.update r.generation fun cell => { cell with marked := true }) hs
        have hl := payload.length_edges_le
        simp [Slot.markingWork, Slot.update] at hwt
        simp [step, hw, hr, remaining, Heap.await, Heap.setMark, Heap.update, Slot.update]
        omega

/-- Visits handles until none is left or one is gone. -/
def run (marking : Marking) : Marking :=
  if h : marking.halted then
    marking
  else
    have : marking.step.remaining < marking.remaining := remaining_step_lt (by simpa using h)
    run marking.step
termination_by marking.remaining

/-- What a halted marking leaves: how many cells it marked, the handle it halted
at if that cell is gone, and the heap, where nothing waits any longer. -/
def finish (marking : Marking) : (Nat × Option Ref) × Heap :=
  match marking with
  | ⟨heap, order⟩ => ((order.length, heap.worklist.head?), heap.await [])

end Marking

namespace Heap

/-- Marks everything that can be reached from a root through unmarked cells, and
answers how many cells that were. -/
def mark (root : Ref) : Action Heap Nat := do
  let (marked, lost) ← Action.transition fun heap => (Marking.ofRoot heap root).run.finish
  match lost with
  | none => return marked
  | some r => Action.abort (.danglingEdge r)

/-- Marks from each root in turn. -/
def markFrom (roots : List Ref) : Action Heap Nat :=
  roots.foldlM (fun marked root => do return marked + (← mark root)) 0

end Heap

end MarkSweep
