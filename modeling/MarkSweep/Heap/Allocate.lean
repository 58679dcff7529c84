/-
# Allocation

A new cell moves into the slot vacated last, or else into a new slot at the end
of the arena, and becomes the head of the allocation list.
-/

import MarkSweep.Action
import MarkSweep.Heap.Basic

namespace MarkSweep

namespace Heap

/-- The slot for the next cell.  The arena has room for a new one until it has
`maxSlots`; that memory is refused before that is left out, see
`Failure.outOfMemory`. -/
def vacancy (heap : Heap) : Except Failure Nat :=
  match heap.free with
  | [] => if heap.slotCount < maxSlots then .ok heap.slotCount else .error .outOfMemory
  | index :: _ =>
    match heap.slots[index]? with
    | none => .error (.fault (.missingSlot index))
    | some slot => if slot.cell.isSome then .error (.fault (.liveSlot index)) else .ok index

/-- The handle of whichever cell moves into a slot next. -/
def handle (heap : Heap) (index : Nat) : Ref :=
  ⟨index, (heap.slots[index]?.map Slot.generation).getD 0⟩

/-- Puts a new cell into a vacant slot, or into a new one behind the last. -/
def occupy (heap : Heap) (index : Nat) (payload : Payload) : Heap :=
  let head := heap.handle index
  match heap with
  | ⟨slots, free, link, count, worklist⟩ =>
    let cell : Cell := ⟨payload, false, link⟩
    let slots :=
      if index < slots.size then slots.modify index (·.occupy cell) else slots.push ⟨0, some cell⟩
    ⟨slots, free.tail, some head, count + 1, worklist⟩

/-- The slot that is chosen is free: the first one past the end, or one that is
empty. -/
theorem slot_of_vacancy {heap : Heap} {index : Nat} (h : heap.vacancy = .ok index) :
    index = heap.slotCount ∨ ∃ slot, heap.slots[index]? = some slot ∧ slot.cell = none := by
  unfold vacancy at h
  split at h
  · left
    split at h <;> simp_all
  · right
    split at h
    · simp at h
    · rename_i slot hs
      split at h
      · simp at h
      · obtain rfl := Except.ok.inj h
        exact ⟨slot, hs, by simp_all⟩

/-- A new cell is found under its own handle, and every other handle names what it
named before. -/
theorem get?_occupy {heap : Heap} {index : Nat} (h : heap.vacancy = .ok index)
    (payload : Payload) (r : Ref) :
    (heap.occupy index payload).get? r =
      if r = heap.handle index then some ⟨payload, false, heap.head⟩ else heap.get? r := by
  obtain ⟨i, g⟩ := r
  rcases slot_of_vacancy h with rfl | ⟨⟨held, _⟩, hs, rfl⟩
  · rcases Nat.lt_trichotomy i heap.slotCount with hi | rfl | hi
    · simp [get?, occupy, handle, slotCount] at hi ⊢
      simp [Array.getElem?_push, Nat.ne_of_lt hi]
    · by_cases hg : g = 0
      · simp [get?, occupy, handle, slotCount, Slot.read, hg]
      · simp [get?, occupy, handle, slotCount, Slot.read, hg, Ne.symm hg]
    · simp [get?, occupy, handle, slotCount] at hi ⊢
      have := Nat.ne_of_gt hi
      simp [Array.getElem?_push, this, Array.getElem?_eq_none (Nat.le_of_lt hi)]
  · have hi := (Array.getElem?_eq_some_iff.1 hs).1
    have hhandle : heap.handle index = ⟨index, held⟩ := by simp [handle, hs]
    have hslots : (heap.occupy index payload).slots =
        heap.slots.modify index (·.occupy ⟨payload, false, heap.head⟩) := by
      simp [occupy, hi]
    rw [hhandle]
    by_cases hij : index = i
    · subst hij
      by_cases hg : g = held
      · simp [get?, hslots, Array.getElem?_modify, hs, Slot.read, Slot.occupy, hg]
      · simp [get?, hslots, Array.getElem?_modify, hs, Slot.read, Slot.occupy, hg, Ne.symm hg]
    · simp [get?, hslots, Array.getElem?_modify, hij, Ne.symm hij]

/-- Allocates a cell. -/
def allocate (payload : Payload) : Action Heap Ref := do
  match ← Action.observe vacancy with
  | .error failure => throw failure
  | .ok index =>
    let r ← Action.observe (·.handle index)
    Action.update (·.occupy index payload)
    Action.record (.allocated payload.kind index)
    return r

/-- Puts two links into the cell of a handle. -/
def fill (heap : Heap) (pair first second : Ref) : Heap :=
  heap.update pair fun cell => { cell with payload := .pair (some first) (some second) }

/-- Fills both links of a pair. -/
def setPair (pair first second : Ref) : Action Heap Unit := do
  match ← Action.observe (·.get? pair) with
  | none => Action.abort (.danglingPair pair)
  | some cell =>
    if cell.payload.kind = .scalar then
      Action.abort (.notAPair pair)
    Action.update (·.fill pair first second)

end Heap

end MarkSweep
