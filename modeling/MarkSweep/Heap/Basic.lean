/-
# The heap

A `Heap` is an arena of slots.  The occupied ones are threaded on an allocation
list, newest cell first; the vacant ones wait on a free list, the last vacated
first.  `Heap.get?` is the only way to a cell: it resolves a handle if the slot
is occupied and its generation is the handle's, so everything the heap does can
be told by what it does to `get?`.
-/

import MarkSweep.Cell

namespace MarkSweep

/-- A place for one cell.  The generation counts how often it was vacated, and
wraps. -/
structure Slot where
  generation : UInt32 := 0
  cell : Option Cell := none

namespace Slot

/-- The cell in the slot, for a reader who knows its generation. -/
def read (slot : Slot) (generation : UInt32) : Option Cell :=
  if slot.generation = generation then slot.cell else none

/-- Changes the cell in the slot, for a writer who knows its generation. -/
def update (slot : Slot) (generation : UInt32) (f : Cell → Cell) : Slot :=
  if slot.generation = generation then ⟨slot.generation, slot.cell.map f⟩ else slot

/-- Puts a cell into the slot. -/
def occupy (slot : Slot) (cell : Cell) : Slot :=
  ⟨slot.generation, some cell⟩

/-- Empties the slot, so that no handle given out so far fits it. -/
def vacate (slot : Slot) : Slot :=
  ⟨slot.generation + 1, none⟩

end Slot

/-- An arena of cells. -/
structure Heap where
  slots : Array Slot := #[]
  /-- The vacant slots, the last vacated first. -/
  free : List Nat := []
  /-- The newest cell, where the allocation list starts. -/
  head : Option Ref := none
  /-- How many cells there are. -/
  count : Nat := 0
  /-- The handles that marking has still to visit; empty between markings. -/
  worklist : List Ref := []

namespace Heap

/-- How many slots an arena can have: as many as 32 bits can number. -/
def maxSlots : Nat :=
  UInt32.size

def slotCount (heap : Heap) : Nat :=
  heap.slots.size

def isEmpty (heap : Heap) : Bool :=
  heap.count == 0

/-- The cell that a handle names, unless it is gone. -/
def get? (heap : Heap) (r : Ref) : Option Cell :=
  heap.slots[r.index]?.bind (·.read r.generation)

def contains (heap : Heap) (r : Ref) : Bool :=
  (heap.get? r).isSome

/-- Changes the cell that a handle names. -/
def update (heap : Heap) (r : Ref) (f : Cell → Cell) : Heap :=
  match heap with
  | ⟨slots, free, head, count, worklist⟩ =>
    ⟨slots.modify r.index (·.update r.generation f), free, head, count, worklist⟩

/-- Sets what marking has still to visit. -/
def await (heap : Heap) (worklist : List Ref) : Heap :=
  match heap with
  | ⟨slots, free, head, count, _⟩ => ⟨slots, free, head, count, worklist⟩

/-- The cells met when the allocation list is followed from a link, for at most
`limit` cells. -/
def follow (heap : Heap) : (limit : Nat) → (link : Option Ref) → List (Ref × Cell)
  | 0, _ => []
  | _, none => []
  | limit + 1, some r =>
    match heap.get? r with
    | none => []
    | some cell => (r, cell) :: heap.follow limit cell.next

/-- The cells of the heap with their handles, newest first.  Each sits in a slot
of its own, so there are no more of them than slots. -/
def cells (heap : Heap) : List (Ref × Cell) :=
  heap.follow heap.slotCount heap.head

/-- A handle resolves exactly when its slot is occupied in its own generation. -/
theorem get?_eq_some_iff {heap : Heap} {r : Ref} {cell : Cell} :
    heap.get? r = some cell ↔ heap.slots[r.index]? = some ⟨r.generation, some cell⟩ := by
  cases h : heap.slots[r.index]? with
  | none => simp [get?, h]
  | some slot =>
    obtain ⟨generation, content⟩ := slot
    by_cases hg : generation = r.generation <;> simp [get?, h, Slot.read, hg]

/-- An update shows through the handle it was made with, and through no other. -/
theorem get?_update (heap : Heap) (r s : Ref) (f : Cell → Cell) :
    (heap.update r f).get? s = if s = r then (heap.get? r).map f else heap.get? s := by
  obtain ⟨i, g⟩ := r
  obtain ⟨j, h⟩ := s
  by_cases hij : i = j
  · subst hij
    cases hs : heap.slots[i]? with
    | none => simp [get?, update, Array.getElem?_modify, hs]
    | some slot =>
      obtain ⟨held, cell⟩ := slot
      by_cases hg : held = g
      · by_cases hh : h = g
        · simp [get?, update, Array.getElem?_modify, hs, Slot.read, Slot.update, hg, hh]
        · simp [get?, update, Array.getElem?_modify, hs, Slot.read, Slot.update, hg, hh,
            Ne.symm hh]
      · by_cases hh : h = g <;>
          simp [get?, update, Array.getElem?_modify, hs, Slot.read, Slot.update, hg, hh]
  · simp [get?, update, Array.getElem?_modify, hij, Ne.symm hij]

/-- What waits to be marked has no say in what a handle names. -/
@[simp] theorem get?_await (heap : Heap) (worklist : List Ref) (r : Ref) :
    (heap.await worklist).get? r = heap.get? r := rfl

end Heap

end MarkSweep
