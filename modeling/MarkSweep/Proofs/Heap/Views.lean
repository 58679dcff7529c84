/-
# The heap by what can be read off it

A handle shows three things of its cell: what the cell holds (`Heap.payload?`),
its mark (`Heap.mark?`) and the next cell of the allocation list (`Heap.next?`).
The arena shows two more of every slot: whether it is vacant (`Heap.Vacant`), and
the handle that fits it (`Heap.handle`).  Here is what each change to a heap does
to these five; the lemmas on whole operations use nothing else.

A handle resolves exactly when its slot is taken and it is the handle that fits
(`Heap.contains_iff`), so two handles of one slot that both resolve are the same
(`Heap.eq_of_index_eq`).
-/

import MarkSweep.Heap.Allocate
import MarkSweep.Heap.Mark
import MarkSweep.Heap.Sweep
import Mathlib.Tactic.SplitIfs

namespace MarkSweep

namespace Heap

/-- What the cell of a handle holds. -/
def payload? (heap : Heap) (r : Ref) : Option Payload :=
  (heap.get? r).map Cell.payload

/-- The mark of the cell of a handle. -/
def mark? (heap : Heap) (r : Ref) : Option Bool :=
  (heap.get? r).map Cell.marked

/-- The link that the cell of a handle has on the allocation list. -/
def next? (heap : Heap) (r : Ref) : Option (Option Ref) :=
  (heap.get? r).map Cell.next

/-- The handle resolves to a marked cell. -/
def Marked (heap : Heap) (r : Ref) : Prop :=
  heap.mark? r = some true

/-- The slot exists and holds no cell. -/
def Vacant (heap : Heap) (i : Nat) : Prop :=
  ∃ slot, heap.slots[i]? = some slot ∧ slot.cell = none

variable {heap : Heap}

/-! ### Handles -/

theorem contains_iff_exists {r : Ref} :
    heap.contains r = true ↔ ∃ cell, heap.get? r = some cell := by
  rw [contains, Option.isSome_iff_exists]

theorem get?_eq_none_iff {r : Ref} : heap.get? r = none ↔ heap.contains r = false := by
  rw [contains, Option.isSome_eq_false_iff, Option.isNone_iff_eq_none]

theorem contains_iff_payload? {r : Ref} :
    heap.contains r = true ↔ ∃ payload, heap.payload? r = some payload := by
  rw [contains_iff_exists, payload?]
  constructor
  · rintro ⟨cell, h⟩
    exact ⟨cell.payload, by rw [h]; rfl⟩
  · rintro ⟨payload, h⟩
    obtain ⟨cell, hcell, -⟩ := Option.map_eq_some_iff.1 h
    exact ⟨cell, hcell⟩

theorem contains_eq_of_payload? {heap' : Heap} {r : Ref}
    (h : heap'.payload? r = heap.payload? r) : heap'.contains r = heap.contains r := by
  rw [Bool.eq_iff_iff, contains_iff_payload?, contains_iff_payload?, h]

theorem contains_iff_next? {r : Ref} :
    heap.contains r = true ↔ ∃ link, heap.next? r = some link := by
  rw [contains_iff_exists, next?]
  constructor
  · rintro ⟨cell, h⟩
    exact ⟨cell.next, by rw [h]; rfl⟩
  · rintro ⟨link, h⟩
    obtain ⟨cell, hcell, -⟩ := Option.map_eq_some_iff.1 h
    exact ⟨cell, hcell⟩

theorem contains_of_marked {r : Ref} (h : heap.Marked r) : heap.contains r = true := by
  obtain ⟨cell, hcell, -⟩ := Option.map_eq_some_iff.1 h
  exact contains_iff_exists.2 ⟨cell, hcell⟩

/-- A handle resolves exactly when it is the one that fits its slot, and the slot
exists and is taken. -/
theorem contains_iff {r : Ref} :
    heap.contains r = true ↔
      r.index < heap.slotCount ∧ ¬ heap.Vacant r.index ∧ heap.handle r.index = r := by
  obtain ⟨i, g⟩ := r
  rw [contains_iff_exists, slotCount, Vacant, handle]
  constructor
  · rintro ⟨cell, h⟩
    have hs := get?_eq_some_iff.1 h
    simp only [] at hs
    refine ⟨(Array.getElem?_eq_some_iff.1 hs).1, ?_, ?_⟩
    · rintro ⟨slot, hslot, hnone⟩
      obtain rfl : _ = slot := Option.some.inj (hs.symm.trans hslot)
      simp at hnone
    · simp [hs]
  · rintro ⟨hi, hv, hh⟩
    obtain ⟨⟨generation, content⟩, hs⟩ : ∃ slot, heap.slots[i]? = some slot :=
      ⟨_, Array.getElem?_eq_getElem hi⟩
    cases content with
    | none => exact absurd ⟨_, hs, rfl⟩ hv
    | some cell =>
      obtain rfl : generation = g := by simpa [hs] using hh
      exact ⟨cell, get?_eq_some_iff.2 hs⟩

/-- Two handles of one slot that both resolve are the same. -/
theorem eq_of_index_eq {r s : Ref} (hr : heap.contains r = true) (hs : heap.contains s = true)
    (h : r.index = s.index) : r = s := by
  rw [← (contains_iff.1 hr).2.2, ← (contains_iff.1 hs).2.2, h]

theorem not_vacant_of_contains {r : Ref} (h : heap.contains r = true) : ¬ heap.Vacant r.index :=
  (contains_iff.1 h).2.1

theorem Vacant.lt {i : Nat} (h : heap.Vacant i) : i < heap.slotCount := by
  obtain ⟨slot, hs, -⟩ := h
  exact (Array.getElem?_eq_some_iff.1 hs).1

/-! ### The heap as a whole -/

/-- What is in a slot, by the handle that fits it. -/
theorem getElem?_slots {i : Nat} (h : i < heap.slotCount) :
    heap.slots[i]? = some ⟨(heap.handle i).generation, heap.get? (heap.handle i)⟩ := by
  rw [slotCount] at h
  simp [get?, handle, Slot.read, Array.getElem?_eq_getElem h]

/-- A cell is what it shows. -/
theorem get?_eq_of_parts {heap' : Heap} {r : Ref} (payload : heap'.payload? r = heap.payload? r)
    (mark : heap'.mark? r = heap.mark? r) (next : heap'.next? r = heap.next? r) :
    heap'.get? r = heap.get? r := by
  simp only [payload?, mark?, next?] at payload mark next
  cases h : heap.get? r with
  | none => simpa [h] using payload
  | some cell =>
    obtain ⟨cell', hcell', hpayload⟩ : ∃ cell', heap'.get? r = some cell' ∧
        cell'.payload = cell.payload := by simpa [h] using payload
    have hmark : cell'.marked = cell.marked := by simpa [h, hcell'] using mark
    have hnext : cell'.next = cell.next := by simpa [h, hcell'] using next
    obtain ⟨_, _, _⟩ := cell
    obtain ⟨_, _, _⟩ := cell'
    simp only [] at hpayload hmark hnext
    rw [hcell', hpayload, hmark, hnext]

/-- A mark is there or not where there is a cell. -/
theorem mark?_eq_of_marked {heap' : Heap} {r : Ref} (hc : heap'.contains r = heap.contains r)
    (hm : heap'.Marked r ↔ heap.Marked r) : heap'.mark? r = heap.mark? r := by
  cases h : heap.get? r with
  | none =>
    have h' : heap'.get? r = none := by rw [get?_eq_none_iff, hc, ← get?_eq_none_iff, h]
    rw [mark?, mark?, h, h']
  | some cell =>
    obtain ⟨cell', h'⟩ := contains_iff_exists.1 (hc.trans (contains_iff_exists.2 ⟨cell, h⟩))
    rw [Marked, Marked, mark?, mark?, h, h', Option.map_some, Option.map_some, Option.some_inj,
      Option.some_inj, ← Bool.eq_iff_iff] at hm
    rw [mark?, mark?, h, h', Option.map_some, Option.map_some, hm]

/-- A heap is what its handles and its slots show, with its two lists, its count and what waits
to be marked. -/
theorem eq_of_get? {heap' : Heap} (get? : ∀ r, heap'.get? r = heap.get? r)
    (handle : ∀ i, heap'.handle i = heap.handle i) (slotCount : heap'.slotCount = heap.slotCount)
    (free : heap'.free = heap.free) (head : heap'.head = heap.head)
    (count : heap'.count = heap.count) (worklist : heap'.worklist = heap.worklist) :
    heap' = heap := by
  have hslots : heap'.slots = heap.slots := by
    refine Array.ext_getElem? fun i => ?_
    by_cases hi : i < heap.slotCount
    · rw [getElem?_slots hi, getElem?_slots (slotCount ▸ hi), handle, get?]
    · have hi' : ¬ i < heap'.slotCount := slotCount ▸ hi
      rw [Array.getElem?_eq_none (Nat.not_lt.1 hi), Array.getElem?_eq_none (Nat.not_lt.1 hi')]
  obtain ⟨_, _, _, _, _⟩ := heap
  obtain ⟨_, _, _, _, _⟩ := heap'
  simp only [] at hslots free head count worklist
  rw [hslots, free, head, count, worklist]

/-! ### Changing a cell in place -/

/-- What an update leaves of each cell, it leaves of the heap. -/
theorem map_get?_update {β : Type} (part : Cell → β) (heap : Heap) (r s : Ref) (f : Cell → Cell)
    (h : ∀ cell, part (f cell) = part cell) :
    ((heap.update r f).get? s).map part = (heap.get? s).map part := by
  rw [get?_update]
  split_ifs with hs
  · rw [hs, Option.map_map]
    congr 1
    funext cell
    exact h cell
  · rfl

theorem contains_update (heap : Heap) (r s : Ref) (f : Cell → Cell) :
    (heap.update r f).contains s = heap.contains s := by
  have h := map_get?_update (fun _ => ()) heap r s f fun _ => rfl
  rw [contains, contains, ← Option.isSome_map (f := fun _ => ()), h, Option.isSome_map]

theorem vacant_update (heap : Heap) (r : Ref) (f : Cell → Cell) (i : Nat) :
    (heap.update r f).Vacant i ↔ heap.Vacant i := by
  simp only [Vacant, update, Array.getElem?_modify]
  split_ifs with hi
  · cases hs : heap.slots[i]? with
    | none => simp
    | some slot =>
      obtain ⟨held, content⟩ := slot
      by_cases hg : held = r.generation <;> simp [Slot.update, hg]
  · rfl

theorem handle_update (heap : Heap) (r : Ref) (f : Cell → Cell) (i : Nat) :
    (heap.update r f).handle i = heap.handle i := by
  simp only [handle, update, Array.getElem?_modify]
  split_ifs with hi
  · cases hs : heap.slots[i]? with
    | none => rfl
    | some slot =>
      obtain ⟨held, content⟩ := slot
      by_cases hg : held = r.generation <;> simp [Slot.update, hg]
  · rfl

@[simp] theorem slotCount_update (heap : Heap) (r : Ref) (f : Cell → Cell) :
    (heap.update r f).slotCount = heap.slotCount := by
  simp [slotCount, update]

@[simp] theorem head_update (heap : Heap) (r : Ref) (f : Cell → Cell) :
    (heap.update r f).head = heap.head := rfl

@[simp] theorem free_update (heap : Heap) (r : Ref) (f : Cell → Cell) :
    (heap.update r f).free = heap.free := rfl

@[simp] theorem count_update (heap : Heap) (r : Ref) (f : Cell → Cell) :
    (heap.update r f).count = heap.count := rfl

@[simp] theorem worklist_update (heap : Heap) (r : Ref) (f : Cell → Cell) :
    (heap.update r f).worklist = heap.worklist := rfl

/-! ### A pair filled -/

theorem payload?_fill {pair : Ref} (h : heap.contains pair = true) (first second r : Ref) :
    (heap.fill pair first second).payload? r =
      if r = pair then some (.pair (some first) (some second)) else heap.payload? r := by
  obtain ⟨cell, hcell⟩ := contains_iff_exists.1 h
  rw [payload?, fill, get?_update]
  split_ifs with hr
  · simp [hcell]
  · rfl

theorem mark?_fill (heap : Heap) (pair first second r : Ref) :
    (heap.fill pair first second).mark? r = heap.mark? r :=
  map_get?_update Cell.marked heap pair r _ fun _ => rfl

theorem contains_fill (heap : Heap) (pair first second r : Ref) :
    (heap.fill pair first second).contains r = heap.contains r :=
  contains_update heap pair r _

/-- Only the links of a pair can be filled. -/
theorem setPair_eq_ok {pair : Ref} {old₁ old₂ : Option Ref}
    (h : heap.payload? pair = some (.pair old₁ old₂)) (first second : Ref)
    (journal : List Record) (output : String) :
    setPair pair first second ⟨heap, journal, output⟩ =
      .ok () ⟨heap.fill pair first second, journal, output⟩ := by
  obtain ⟨cell, hcell, hp⟩ := Option.map_eq_some_iff.1 h
  simp [setPair, hcell, hp, Payload.kind]

theorem setPair_of_scalar {pair : Ref} {value : Int64}
    (h : heap.payload? pair = some (.scalar value)) (first second : Ref)
    (journal : List Record) (output : String) :
    setPair pair first second ⟨heap, journal, output⟩ =
      .error (.fault (.notAPair pair)) ⟨heap, journal, output⟩ := by
  obtain ⟨cell, hcell, hp⟩ := Option.map_eq_some_iff.1 h
  simp [setPair, hcell, hp, Payload.kind]

theorem setPair_of_not_contains {pair : Ref} (h : heap.contains pair = false)
    (first second : Ref) (journal : List Record) (output : String) :
    setPair pair first second ⟨heap, journal, output⟩ =
      .error (.fault (.danglingPair pair)) ⟨heap, journal, output⟩ := by
  simp [setPair, get?_eq_none_iff.2 h]

/-- A pair is filled, or what is no pair is left alone. -/
theorem setPair_cases (pair first second : Ref) (session : Session Heap) :
    ((∀ old₁ old₂, session.state.payload? pair ≠ some (.pair old₁ old₂)) ∧
      (setPair pair first second).after session = session) ∨
    ∃ old₁ old₂, session.state.payload? pair = some (.pair old₁ old₂) ∧
      (setPair pair first second).after session =
        ⟨session.state.fill pair first second, session.journal, session.output⟩ := by
  obtain ⟨heap, journal, output⟩ := session
  cases hp : heap.payload? pair with
  | none =>
    have hc := get?_eq_none_iff.1 (Option.map_eq_none_iff.1 hp)
    exact Or.inl ⟨by simp,
      Action.after_of_error (setPair_of_not_contains hc first second journal output)⟩
  | some payload =>
    cases payload with
    | scalar value =>
      exact Or.inl ⟨by simp,
        Action.after_of_error (setPair_of_scalar hp first second journal output)⟩
    | pair old₁ old₂ =>
      exact Or.inr ⟨old₁, old₂, rfl,
        Action.after_of_ok (setPair_eq_ok hp first second journal output)⟩

/-! ### A new cell -/

section Occupy

variable {index : Nat}

@[simp] theorem head_occupy (heap : Heap) (index : Nat) (payload : Payload) :
    (heap.occupy index payload).head = some (heap.handle index) := rfl

@[simp] theorem free_occupy (heap : Heap) (index : Nat) (payload : Payload) :
    (heap.occupy index payload).free = heap.free.tail := rfl

@[simp] theorem count_occupy (heap : Heap) (index : Nat) (payload : Payload) :
    (heap.occupy index payload).count = heap.count + 1 := rfl

@[simp] theorem worklist_occupy (heap : Heap) (index : Nat) (payload : Payload) :
    (heap.occupy index payload).worklist = heap.worklist := rfl

/-- The arena grows by a slot if the cell needs a new one. -/
theorem slotCount_occupy (heap : Heap) (index : Nat) (payload : Payload) :
    (heap.occupy index payload).slotCount =
      if index < heap.slotCount then heap.slotCount else heap.slotCount + 1 := by
  by_cases hlt : index < heap.slots.size <;> simp [slotCount, occupy, hlt]

theorem slotCount_le_occupy (heap : Heap) (index : Nat) (payload : Payload) :
    heap.slotCount ≤ (heap.occupy index payload).slotCount := by
  rw [slotCount_occupy]
  split_ifs <;> omega

/-- The handle given out next names nothing yet. -/
theorem contains_handle_of_vacancy (h : heap.vacancy = .ok index) :
    heap.contains (heap.handle index) = false := by
  rw [Bool.eq_false_iff]
  intro hc
  obtain ⟨hlt, hv, -⟩ := contains_iff.1 hc
  rcases slot_of_vacancy h with rfl | hslot
  · exact absurd hlt (Nat.lt_irrefl _)
  · exact hv hslot

theorem payload?_occupy (h : heap.vacancy = .ok index) (payload : Payload) (r : Ref) :
    (heap.occupy index payload).payload? r =
      if r = heap.handle index then some payload else heap.payload? r := by
  rw [payload?, get?_occupy h]
  split_ifs <;> rfl

/-- The new handle resolves, and what resolved before. -/
theorem contains_occupy (h : heap.vacancy = .ok index) (payload : Payload) (r : Ref) :
    (heap.occupy index payload).contains r = true ↔
      r = heap.handle index ∨ heap.contains r = true := by
  rw [contains, get?_occupy h]
  split_ifs with hr
  · simp [hr]
  · simp [hr, contains]

theorem mark?_occupy (h : heap.vacancy = .ok index) (payload : Payload) (r : Ref) :
    (heap.occupy index payload).mark? r =
      if r = heap.handle index then some false else heap.mark? r := by
  rw [mark?, get?_occupy h]
  split_ifs <;> rfl

theorem next?_occupy (h : heap.vacancy = .ok index) (payload : Payload) (r : Ref) :
    (heap.occupy index payload).next? r =
      if r = heap.handle index then some heap.head else heap.next? r := by
  rw [next?, get?_occupy h]
  split_ifs <;> rfl

theorem vacant_occupy (h : heap.vacancy = .ok index) (payload : Payload) (i : Nat) :
    (heap.occupy index payload).Vacant i ↔ heap.Vacant i ∧ i ≠ index := by
  rcases slot_of_vacancy h with rfl | ⟨slot, hs, -⟩
  · simp only [Vacant, occupy, slotCount, Nat.lt_irrefl, if_false, Array.getElem?_push]
    split_ifs with hi
    · simp [hi]
    · simp [hi]
  · have hi := (Array.getElem?_eq_some_iff.1 hs).1
    simp only [Vacant, occupy, if_pos hi, Array.getElem?_modify]
    split_ifs with hij
    · subst hij
      simp [hs, Slot.occupy]
    · simp [Ne.symm hij]

theorem handle_occupy (h : heap.vacancy = .ok index) (payload : Payload) (i : Nat) :
    (heap.occupy index payload).handle i = heap.handle i := by
  rcases slot_of_vacancy h with rfl | ⟨slot, hs, -⟩
  · simp only [handle, occupy, slotCount, Nat.lt_irrefl, if_false, Array.getElem?_push]
    split_ifs with hi
    · simp [hi]
    · rfl
  · have hi := (Array.getElem?_eq_some_iff.1 hs).1
    simp only [handle, occupy, if_pos hi, Array.getElem?_modify]
    split_ifs with hij
    · subst hij
      simp [hs, Slot.occupy]
    · rfl

end Occupy

/-! ### A cell set free -/

@[simp] theorem head_release (heap : Heap) (r : Ref) : (heap.release r).head = heap.head := rfl

@[simp] theorem free_release (heap : Heap) (r : Ref) :
    (heap.release r).free = r.index :: heap.free := rfl

@[simp] theorem count_release (heap : Heap) (r : Ref) :
    (heap.release r).count = heap.count - 1 := rfl

@[simp] theorem worklist_release (heap : Heap) (r : Ref) :
    (heap.release r).worklist = heap.worklist := rfl

@[simp] theorem slotCount_release (heap : Heap) (r : Ref) :
    (heap.release r).slotCount = heap.slotCount := by
  simp [slotCount, release]

/-- What a freed cell was is gone, and nothing else. -/
theorem map_get?_release {β : Type} (part : Cell → β) {r : Ref} (hr : heap.contains r = true)
    (s : Ref) :
    ((heap.release r).get? s).map part = if s = r then none else (heap.get? s).map part := by
  rw [get?_release]
  by_cases hsr : s = r
  · simp [hsr]
  · rw [if_neg hsr]
    split_ifs with hi
    · -- another handle of the same slot named nothing to begin with
      cases hs : heap.get? s with
      | none => rfl
      | some cell => exact absurd (eq_of_index_eq (contains_iff_exists.2 ⟨cell, hs⟩) hr hi) hsr
    · rfl

theorem vacant_release {r : Ref} (hr : heap.contains r = true) (i : Nat) :
    (heap.release r).Vacant i ↔ heap.Vacant i ∨ i = r.index := by
  have hi := (contains_iff.1 hr).1
  simp only [Vacant, release, Array.getElem?_modify]
  split_ifs with hri
  · subst hri
    simp [Array.getElem?_eq_getElem hi, Slot.vacate]
  · simp [Ne.symm hri]

/-- Freeing a cell moves the handle of its slot on to the next generation. -/
theorem handle_release {r : Ref} (hr : heap.contains r = true) (i : Nat) :
    (heap.release r).handle i =
      if i = r.index then ⟨i, (heap.handle i).generation + 1⟩ else heap.handle i := by
  have hi := (contains_iff.1 hr).1
  by_cases hir : i = r.index
  · subst hir
    simp [handle, release, Array.getElem?_modify, Array.getElem?_eq_getElem hi, Slot.vacate]
  · simp [handle, release, Array.getElem?_modify, hir, Ne.symm hir]

/-! ### A link of the allocation list bent -/

theorem head_relink (heap : Heap) (link target : Option Ref) :
    (heap.relink link target).head = if link = none then target else heap.head := by
  cases link <;> rfl

@[simp] theorem free_relink (heap : Heap) (link target : Option Ref) :
    (heap.relink link target).free = heap.free := by
  cases link <;> rfl

@[simp] theorem count_relink (heap : Heap) (link target : Option Ref) :
    (heap.relink link target).count = heap.count := by
  cases link <;> rfl

@[simp] theorem worklist_relink (heap : Heap) (link target : Option Ref) :
    (heap.relink link target).worklist = heap.worklist := by
  cases link <;> rfl

@[simp] theorem slotCount_relink (heap : Heap) (link target : Option Ref) :
    (heap.relink link target).slotCount = heap.slotCount := by
  cases link with
  | none => rfl
  | some r => exact slotCount_update heap r _

theorem map_get?_relink {β : Type} (part : Cell → β) (heap : Heap) (link target : Option Ref)
    (s : Ref) (h : ∀ cell : Cell, part { cell with next := target } = part cell) :
    ((heap.relink link target).get? s).map part = (heap.get? s).map part := by
  cases link with
  | none => rfl
  | some r => exact map_get?_update part heap r s _ h

theorem next?_relink {heap : Heap} {link : Option Ref} {s : Ref} (target : Option Ref)
    (h : link ≠ some s) : (heap.relink link target).next? s = heap.next? s := by
  cases link with
  | none => rfl
  | some r =>
    rw [next?, relink, get?_update, if_neg (by rintro rfl; exact h rfl)]
    rfl

theorem next?_relink_self {heap : Heap} {r : Ref} (target : Option Ref)
    (h : heap.contains r = true) : (heap.relink (some r) target).next? r = some target := by
  obtain ⟨cell, hcell⟩ := contains_iff_exists.1 h
  rw [next?, relink, get?_update, if_pos rfl, hcell]
  rfl

theorem vacant_relink (heap : Heap) (link target : Option Ref) (i : Nat) :
    (heap.relink link target).Vacant i ↔ heap.Vacant i := by
  cases link with
  | none => rfl
  | some r => exact vacant_update ..

theorem handle_relink (heap : Heap) (link target : Option Ref) (i : Nat) :
    (heap.relink link target).handle i = heap.handle i := by
  cases link with
  | none => rfl
  | some r => exact handle_update ..

theorem contains_relink (heap : Heap) (link target : Option Ref) (s : Ref) :
    (heap.relink link target).contains s = heap.contains s :=
  contains_eq_of_payload? (map_get?_relink _ heap link target s fun _ => rfl)

end Heap

end MarkSweep
