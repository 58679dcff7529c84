/-
# Sweeping

The sweep walks the allocation list once.  A marked cell stays and loses its
mark; an unmarked one is unlinked from its predecessor (the survivor met last,
or the head of the list) and its slot becomes vacant.

A `Sweeping` is what the loop works on.  Every round either clears a mark or
empties a slot, so `Sweeping.remaining` goes down (`remaining_step_lt`); this
needs nothing of the list, so the loop ends even on a list that is no list.
-/

import MarkSweep.Action
import MarkSweep.Heap.Weight

namespace MarkSweep

/-- The rounds that a sweep may yet spend on a slot. -/
def Slot.sweepingWork (slot : Slot) : Nat :=
  match slot.cell with
  | some cell => if cell.marked then 2 else 1
  | none => 0

namespace Heap

/-- Clears the mark of the cell that a handle names. -/
def clearMark (heap : Heap) (r : Ref) : Heap :=
  heap.update r fun cell => { cell with marked := false }

/-- Makes the allocation list go on at `target` after a cell, or start there. -/
def relink (heap : Heap) (link : Option Ref) (target : Option Ref) : Heap :=
  match link with
  | none =>
    match heap with
    | ⟨slots, free, _, count, worklist⟩ => ⟨slots, free, target, count, worklist⟩
  | some r => heap.update r fun cell => { cell with next := target }

/-- Empties the slot of a cell and lists it as free. -/
def release (heap : Heap) (r : Ref) : Heap :=
  match heap with
  | ⟨slots, free, head, count, worklist⟩ =>
    ⟨slots.modify r.index Slot.vacate, r.index :: free, head, count - 1, worklist⟩

/-- No handle finds a cell in a slot that was emptied; the other slots are as they
were. -/
theorem get?_release (heap : Heap) (r s : Ref) :
    (heap.release r).get? s = if s.index = r.index then none else heap.get? s := by
  by_cases h : r.index = s.index
  · cases hs : heap.slots[s.index]? <;>
      simp [get?, release, Array.getElem?_modify, h, hs, Slot.read, Slot.vacate]
  · simp [get?, release, Array.getElem?_modify, h, Ne.symm h]

end Heap

/-- A sweep under way. -/
structure Sweeping where
  heap : Heap
  /-- The survivor met last. -/
  link : Option Ref := none
  /-- The cell to look at next. -/
  cursor : Option Ref
  /-- The cells freed so far, the latest first. -/
  freed : List Ref := []

namespace Sweeping

/-- The start of a sweep, at the newest cell. -/
def ofHeap (heap : Heap) : Sweeping :=
  match heap with
  | ⟨slots, free, head, count, worklist⟩ =>
    ⟨⟨slots, free, head, count, worklist⟩, none, head, []⟩

/-- What keeps the sweep from dealing with the cell at the cursor. -/
def obstacle? (sweeping : Sweeping) : Option Fault :=
  match sweeping.cursor with
  | none => none
  | some r =>
    match sweeping.heap.get? r with
    | none => some (.brokenLink r)
    | some cell =>
      if cell.marked then
        none
      else
        match sweeping.link.filter (!sweeping.heap.contains ·) with
        | some survivor => some (.lostSurvivor survivor)
        | none => if sweeping.heap.count = 0 then some .countUnderflow else none

/-- The list is at its end, or something is in the way. -/
def halted (sweeping : Sweeping) : Bool :=
  sweeping.cursor.isNone || sweeping.obstacle?.isSome

/-- Deals with the cell at the cursor. -/
def step (sweeping : Sweeping) : Sweeping :=
  match sweeping with
  | ⟨heap, link, cursor, freed⟩ =>
    match cursor with
    | none => ⟨heap, link, none, freed⟩
    | some r =>
      match heap.get? r with
      | none => ⟨heap, link, some r, freed⟩
      | some cell =>
        if cell.marked then
          ⟨heap.clearMark r, some r, cell.next, freed⟩
        else
          ⟨(heap.relink link cell.next).release r, link, cell.next, r :: freed⟩

/-- A bound on the rounds still to come. -/
def remaining (sweeping : Sweeping) : Nat :=
  Heap.weight Slot.sweepingWork sweeping.heap.slots

/-- Relinking the list neither marks nor frees a cell. -/
private theorem sweepingWork_update_next (slot : Slot) (generation : UInt32)
    (target : Option Ref) :
    (slot.update generation fun cell => { cell with next := target }).sweepingWork =
      slot.sweepingWork := by
  obtain ⟨held, cell⟩ := slot
  by_cases h : held = generation <;> cases cell <;> simp [Slot.update, Slot.sweepingWork, h]

private theorem weight_relink (heap : Heap) (link target : Option Ref) :
    Heap.weight Slot.sweepingWork (heap.relink link target).slots =
      Heap.weight Slot.sweepingWork heap.slots := by
  cases link with
  | none => rfl
  | some p => exact Heap.weight_modify_of_forall _ _ _ _ (sweepingWork_update_next · _ _)

private theorem getElem?_relink {heap : Heap} {i : Nat} {slot : Slot} (link target : Option Ref)
    (h : heap.slots[i]? = some slot) :
    ∃ slot', (heap.relink link target).slots[i]? = some slot' ∧
      slot'.sweepingWork = slot.sweepingWork := by
  cases link with
  | none => exact ⟨slot, h, rfl⟩
  | some p =>
    simp only [Heap.relink, Heap.update, Array.getElem?_modify, h]
    split
    · exact ⟨_, rfl, sweepingWork_update_next _ _ _⟩
    · exact ⟨slot, rfl, rfl⟩

/-- Each round brings the end nearer. -/
theorem remaining_step_lt {sweeping : Sweeping} (h : sweeping.halted = false) :
    sweeping.step.remaining < sweeping.remaining := by
  obtain ⟨heap, link, cursor, freed⟩ := sweeping
  cases cursor with
  | none => simp [halted] at h
  | some r =>
    cases hr : heap.get? r with
    | none => simp [halted, obstacle?, hr] at h
    | some cell =>
      obtain ⟨payload, marked, next⟩ := cell
      have hs := Heap.get?_eq_some_iff.1 hr
      cases marked with
      | true =>
        have hw := Heap.weight_modify Slot.sweepingWork
          (·.update r.generation fun cell => { cell with marked := false }) hs
        simp [Slot.sweepingWork, Slot.update] at hw
        simp [step, hr, remaining, Heap.clearMark, Heap.update, Slot.update]
        omega
      | false =>
        obtain ⟨slot, hs', hslot⟩ := getElem?_relink link next hs
        have hw := Heap.weight_modify Slot.sweepingWork Slot.vacate hs'
        have := weight_relink heap link next
        simp [Slot.sweepingWork, Slot.vacate] at hw hslot
        simp [step, hr, remaining, Heap.release]
        omega

/-- Deals with cells until the list ends or something is in the way. -/
def run (sweeping : Sweeping) : Sweeping :=
  if h : sweeping.halted then
    sweeping
  else
    have : sweeping.step.remaining < sweeping.remaining := remaining_step_lt (by simpa using h)
    run sweeping.step
termination_by sweeping.remaining

/-- What a halted sweep leaves: the cells it freed in the order in which it freed
them, what stopped it short of the end, and the heap. -/
def finish (sweeping : Sweeping) : (List Ref × Option Fault) × Heap :=
  let obstacle := sweeping.obstacle?
  match sweeping with
  | ⟨heap, _, _, freed⟩ => ((freed.reverse, obstacle), heap)

end Sweeping

namespace Heap

/-- Frees every unmarked cell, clears every mark, and answers how many cells were
freed. -/
def sweep : Action Heap Nat := do
  let (freed, obstacle) ← Action.transition fun heap => (Sweeping.ofHeap heap).run.finish
  Action.recordAll (freed.map fun r => .freed r.index)
  match obstacle with
  | none => return freed.length
  | some cause => Action.abort cause

end Heap

end MarkSweep
