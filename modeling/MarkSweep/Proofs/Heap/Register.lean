/-
# The register of a heap

A register lists cells by their slots, with their kinds.  That of a heap is read off its
allocation list (`Heap.register`); another one is kept by a reader of the journal, who enters a
cell when it is recorded as allocated and strikes it out when it is recorded as freed
(`Register.replay`).  The reader notices records that contradict each other: a cell in a slot that
is taken already, or one that was freed where there was none.

Here is what each change to a heap does to its register.  A new cell stands in front, filling a
pair changes nothing, and cells that are taken off the list are struck out.
-/

import MarkSweep.Proofs.Heap.Listing

namespace MarkSweep

/-- Cells by the slots that they sit in, with their kinds. -/
abbrev Register : Type :=
  List (Nat × Kind)

namespace Register

/-- The slots in which the register has a cell. -/
def indices (register : Register) : List Nat :=
  register.map Prod.fst

/-- The register without what it has in some slots. -/
def strike (register : Register) (slots : List Nat) : Register :=
  register.filter fun entry => entry.1 ∉ slots

/-- Enters one record, if the register allows it. -/
def note (register : Register) : Record → Option Register
  | .allocated kind index =>
    if index ∈ register.indices then none else some ((index, kind) :: register)
  | .freed index => if index ∈ register.indices then some (register.strike [index]) else none
  | _ => some register

/-- Enters records in the order in which they were made, starting from nothing. -/
def replay (records : List Record) : Option Register :=
  records.foldlM note []

variable {register register' : Register} {records : List Record} {record : Record}

theorem replay_concat (h : replay records = some register)
    (hnote : register.note record = some register') :
    replay (records ++ [record]) = some register' := by
  have hfold : records.foldlM note [] = some register := h
  rw [replay, List.foldlM_append, hfold]
  simpa using hnote

theorem mem_indices_strike {slots : List Nat} {index : Nat} :
    index ∈ (register.strike slots).indices ↔ index ∈ register.indices ∧ index ∉ slots := by
  simp only [indices, strike, List.mem_map, List.mem_filter, decide_eq_true_iff]
  constructor
  · rintro ⟨entry, ⟨hentry, hslot⟩, rfl⟩
    exact ⟨⟨entry, hentry, rfl⟩, hslot⟩
  · rintro ⟨⟨entry, hentry, rfl⟩, hslot⟩
    exact ⟨entry, ⟨hentry, hslot⟩, rfl⟩

theorem strike_nil (register : Register) : register.strike [] = register :=
  List.filter_eq_self.2 fun _ _ => by simp

theorem strike_strike (register : Register) (index : Nat) (slots : List Nat) :
    (register.strike [index]).strike slots = register.strike (index :: slots) := by
  rw [strike, strike, List.filter_filter]
  refine List.filter_congr fun entry _ => ?_
  simp [Bool.and_comm]

end Register

namespace Heap

variable {heap heap' : Heap} {refs : List Ref} {index : Nat} {payload : Payload}

/-- The kind of the cell of a handle. -/
def kind? (heap : Heap) (r : Ref) : Option Kind :=
  (heap.payload? r).map Payload.kind

/-- The cells of the heap, newest first. -/
def register (heap : Heap) : Register :=
  heap.cells.map fun (r, cell) => (r.index, cell.payload.kind)

theorem isSome_kind? (heap : Heap) (r : Ref) : (heap.kind? r).isSome = heap.contains r := by
  rw [kind?, payload?, contains, Option.isSome_map, Option.isSome_map]

theorem contains_iff_kind? {r : Ref} :
    heap.contains r = true ↔ ∃ kind, heap.kind? r = some kind := by
  rw [← isSome_kind?, Option.isSome_iff_exists]

theorem Listed.register_eq (h : heap.Listed refs) :
    heap.register = refs.filterMap fun r => (heap.kind? r).map (r.index, ·) := by
  rw [register, h.cells_eq, List.map_filterMap]
  refine List.filterMap_congr fun r _ => ?_
  rw [kind?, payload?]
  cases heap.get? r <;> rfl

theorem Listed.indices_register (h : heap.Listed refs) :
    heap.register.indices = refs.map Ref.index := by
  rw [Register.indices, h.register_eq, List.map_filterMap, ← List.filterMap_eq_map]
  refine List.filterMap_congr fun r hr => ?_
  obtain ⟨kind, hkind⟩ := contains_iff_kind?.1 (h.mem_iff.1 hr)
  rw [hkind]
  rfl

theorem Listed.length_register (h : heap.Listed refs) : heap.register.length = heap.count := by
  have hlength := congrArg List.length h.indices_register
  rw [Register.indices, List.length_map, List.length_map] at hlength
  rw [hlength, h.count]

/-- The second heap has the cells of the first, listed as they were and of the same kinds. -/
structure SameCells (heap heap' : Heap) : Prop where
  listed : ∀ refs, heap.Listed refs → heap'.Listed refs
  kind : ∀ r, heap'.kind? r = heap.kind? r

theorem SameCells.refl (heap : Heap) : heap.SameCells heap :=
  ⟨fun _ => id, fun _ => rfl⟩

theorem SameCells.contains (h : heap.SameCells heap') (r : Ref) :
    heap'.contains r = heap.contains r := by
  rw [← isSome_kind?, ← isSome_kind?, h.kind]

theorem SameCells.register_eq (h : heap.SameCells heap') (hl : heap.Listed refs) :
    heap'.register = heap.register := by
  rw [(h.listed refs hl).register_eq, hl.register_eq]
  simp only [h.kind]

/-- A pair stays one when it is filled. -/
theorem sameCells_fill {pair : Ref} {old₁ old₂ : Option Ref}
    (h : heap.payload? pair = some (.pair old₁ old₂)) (first second : Ref) :
    heap.SameCells (heap.fill pair first second) where
  listed _ hrefs := hrefs.update pair fun _ => rfl
  kind r := by
    rw [kind?, payload?_fill (contains_iff_payload?.2 ⟨_, h⟩)]
    split_ifs with hr
    · rw [hr, kind?, h]
      rfl
    · rfl

/-- A new cell stands in front. -/
theorem Gains.register_eq (h : heap.Gains index payload heap') (hl : heap.Listed refs)
    (hfresh : heap.contains (heap.handle index) = false) :
    heap'.register = (index, payload.kind) :: heap.register := by
  have hnew : heap'.kind? (heap.handle index) = some payload.kind := by
    rw [kind?, h.payload?, if_pos rfl]
    rfl
  rw [(h.listed refs hl).register_eq, hl.register_eq, List.filterMap_cons, hnew]
  refine congrArg _ (List.filterMap_congr fun r hr => ?_)
  have hne : r ≠ heap.handle index := by
    rintro rfl
    rw [hl.mem_iff.1 hr] at hfresh
    cases hfresh
  rw [kind?, h.payload?, if_neg hne]
  rfl

/-- Cells that are taken off the list are struck out, if the others keep their kinds. -/
theorem Listed.register_filter {keep : Ref → Bool} {freed : List Ref} (hl : heap.Listed refs)
    (hl' : heap'.Listed (refs.filter keep))
    (hkind : ∀ r, heap'.contains r = true → heap'.kind? r = heap.kind? r)
    (hfreed : ∀ r, r ∈ freed ↔ heap.contains r = true ∧ heap'.contains r = false) :
    heap'.register = heap.register.strike (freed.map Ref.index) := by
  rw [Register.strike, hl'.register_eq, hl.register_eq, List.filterMap_filter,
    List.filter_filterMap]
  refine List.filterMap_congr fun r hr => ?_
  have hc := hl.mem_iff.1 hr
  obtain ⟨kind, hk⟩ := contains_iff_kind?.1 hc
  have hmem : r.index ∈ freed.map Ref.index ↔ heap'.contains r = false := by
    rw [List.mem_map]
    constructor
    · rintro ⟨s, hs, hindex⟩
      obtain ⟨hsc, hgone⟩ := (hfreed s).1 hs
      rwa [← eq_of_index_eq hsc hc hindex]
    · exact fun hgone => ⟨r, (hfreed r).2 ⟨hc, hgone⟩, rfl⟩
  have hkeep : keep r = heap'.contains r := by
    rw [Bool.eq_iff_iff, ← hl'.mem_iff, List.mem_filter]
    exact (and_iff_right hr).symm
  cases hr' : heap'.contains r with
  | true =>
    rw [hkeep, hr', if_pos rfl, hkind r hr', hk]
    simp [Option.filter, hmem, hr']
  | false =>
    rw [hkeep, hr', hk]
    simp [Option.filter, hmem, hr']

end Heap

end MarkSweep
