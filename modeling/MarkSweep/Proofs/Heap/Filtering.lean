/-
# A sweep is a filter

A sweep rewrites the allocation list while it walks along it.  What comes of that is what
filtering the list by the marks would give (`Heap.sweep_filters`): the marked cells, in the
order they were in and under the handles they had, with their marks cleared.  This asks of the
heap that its lists are in order and nothing else; the marks may be any at all, and the links of
a cell that stays may lead to one that does not.

Every slot is accounted for as well.  That of a cell that stays is in the same generation, that
of a cell that goes is empty and in the next one, and any other was vacant and is left alone.
Which generation a slot is in follows from how often it was vacated (`Heap.Ages`), and a sweep
vacates the slot of each cell that goes once, since no two cells share one.
-/

import MarkSweep.Proofs.Heap.Generations
import MarkSweep.Proofs.Heap.Inventory
import Mathlib.Data.List.Count

namespace MarkSweep

namespace Heap

/-- The second heap is the first with its allocation list filtered by the marks. -/
structure Filtered (heap : Heap) (refs : List Ref) (heap' : Heap) : Prop where
  /-- Following the links from the head on meets the marked cells, in the order of the old
  list, and then ends. -/
  threads : heap'.Threads heap'.head (heap.survivors refs)
  cells : heap'.cells.map (fun (r, cell) => (r, cell.payload, cell.marked)) =
    (heap.cells.filter fun (_, cell) => cell.marked).map fun (r, cell) => (r, cell.payload, false)
  kept : ∀ r ∈ refs, ∀ payload, heap.Marked r → heap.payload? r = some payload →
    ∃ next, heap'.slots[r.index]? = some ⟨r.generation, some ⟨payload, false, next⟩⟩
  removed : ∀ r ∈ refs, ¬ heap.Marked r → heap'.slots[r.index]? = some ⟨r.generation + 1, none⟩
  untouched : ∀ i ∉ refs.map Ref.index, heap'.slots[i]? = heap.slots[i]?
  /-- The slots of the cells removed were put on the free list in the order of the old list. -/
  free : heap'.free = ((heap.victims refs).map Ref.index).reverse ++ heap.free
  /-- The slot of the oldest cell removed is taken first. -/
  vacancy : ∀ oldest, (heap.victims refs).getLast? = some oldest →
    heap'.vacancy = .ok oldest.index
  count : heap'.count + (heap.victims refs).length = heap.count
  worklist : heap'.worklist = heap.worklist

variable {heap heap' : Heap} {refs : List Ref}

/-- How often a sweep vacates a slot. -/
theorem count_victims (h : heap.Listed refs) {r : Ref} (hr : r ∈ refs) :
    ((heap.victims refs).map Ref.index).count r.index = if heap.Marked r then 0 else 1 := by
  have hnodup : ((heap.victims refs).map Ref.index).Nodup :=
    h.nodup_map_index.sublist (List.filter_sublist.map Ref.index)
  split_ifs with hm
  · refine List.count_eq_zero.2 fun hmem => ?_
    obtain ⟨s, hs, hindex⟩ := List.mem_map.1 hmem
    obtain ⟨hs, hunmarked⟩ := mem_victims.1 hs
    rw [eq_of_index_eq (h.mem_iff.1 hs) (h.mem_iff.1 hr) hindex] at hunmarked
    exact hunmarked hm
  · exact List.count_eq_one_of_mem hnodup (List.mem_map_of_mem (mem_victims.2 ⟨hr, hm⟩))

theorem slot_of_vacant {i : Nat} (h : heap.Vacant i) :
    heap.slots[i]? = some ⟨(heap.handle i).generation, none⟩ := by
  obtain ⟨⟨generation, cell⟩, hs, rfl⟩ := h
  simp [handle, hs]

namespace SweptTo

theorem free_eq (h : heap.SweptTo refs heap') :
    heap'.free = ((heap.victims refs).map Ref.index).reverse ++ heap.free := by
  rw [h.free, List.map_reverse]

theorem kept (h : heap.SweptTo refs heap') {r : Ref} {payload : Payload} (hm : heap.Marked r)
    (hp : heap.payload? r = some payload) :
    ∃ next, heap'.get? r = some ⟨payload, false, next⟩ := by
  have hp' : heap'.payload? r = some payload := by rw [h.payload, if_pos hm, hp]
  obtain ⟨⟨_, marked, next⟩, hcell, rfl⟩ := Option.map_eq_some_iff.1 hp'
  have hclean := h.clean r
  rw [Marked, mark?, hcell] at hclean
  obtain rfl : marked = false := by simpa using hclean
  exact ⟨next, hcell⟩

theorem cells_eq (h : heap.SweptTo refs heap') (hl : heap.Listed refs) :
    heap'.cells.map (fun (r, cell) => (r, cell.payload, cell.marked)) =
      (heap.cells.filter fun (_, cell) => cell.marked).map
        fun (r, cell) => (r, cell.payload, false) := by
  rw [h.listed.cells_eq, hl.cells_eq, survivors, List.filterMap_filter, List.filter_filterMap,
    List.map_filterMap, List.map_filterMap]
  refine List.filterMap_congr fun r hr => ?_
  obtain ⟨⟨payload, marked, next⟩, hcell⟩ := contains_iff_exists.1 (hl.mem_iff.1 hr)
  have hm : heap.Marked r ↔ marked = true := by simp [Marked, mark?, hcell]
  by_cases hr' : marked = true
  · have hp : heap.payload? r = some payload := by simp [payload?, hcell]
    obtain ⟨next', hcell'⟩ := h.kept (hm.2 hr') hp
    simp [hcell, hcell', hm, hr', Option.filter]
  · simp [hcell, hm, hr', Option.filter]

/-- What the generations of the slots come to. -/
theorem handle_eq (hages : heap.Ages ((heap.victims refs).map fun r => .freed r.index).reverse heap')
    (i : Nat) : heap'.handle i = ⟨i, (heap.handle i).generation +
      UInt32.ofNat (((heap.victims refs).map Ref.index).count i)⟩ := by
  rw [hages.handle, count_freed]

theorem filtered (h : heap.SweptTo refs heap') (hl : heap.Listed refs)
    (hages : heap.Ages ((heap.victims refs).map fun r => .freed r.index).reverse heap') :
    heap.Filtered refs heap' where
  threads := h.listed.threads
  cells := h.cells_eq hl
  kept r hr payload hm hp := by
    obtain ⟨next, hcell⟩ := h.kept hm hp
    exact ⟨next, get?_eq_some_iff.1 hcell⟩
  removed r hr hm := by
    have hvacant : heap'.Vacant r.index := by
      rw [← h.listed.mem_free_iff, h.free_eq, List.mem_append, List.mem_reverse]
      exact Or.inl (List.mem_map_of_mem (mem_victims.2 ⟨hr, hm⟩))
    rw [slot_of_vacant hvacant, handle_eq hages, count_victims hl hr, if_neg hm,
      (contains_iff.1 (hl.mem_iff.1 hr)).2.2]
    rfl
  untouched i hi := by
    by_cases hlt : i < heap.slotCount
    · -- no cell sits in the slot, so it is vacant before and after
      have hvacant : heap.Vacant i := by
        by_contra hv
        exact hi (hl.mem_map_index_iff.2 ⟨hlt, hv⟩)
      have hvacant' : heap'.Vacant i := by
        rw [← h.listed.mem_free_iff, h.free_eq, List.mem_append]
        exact Or.inr ((hl.mem_free_iff i).2 hvacant)
      have hcount : ((heap.victims refs).map Ref.index).count i = 0 :=
        List.count_eq_zero.2 fun hmem =>
          hi ((List.filter_sublist.map Ref.index).subset hmem)
      rw [slot_of_vacant hvacant, slot_of_vacant hvacant', handle_eq hages, hcount]
      simp
    · have hlt' : ¬ i < heap'.slotCount := (h.slotCount hl).symm ▸ hlt
      rw [Array.getElem?_eq_none (Nat.not_lt.1 hlt), Array.getElem?_eq_none (Nat.not_lt.1 hlt')]
  free := h.free_eq
  vacancy oldest holdest := by
    obtain ⟨newer, hvictims⟩ := List.getLast?_eq_some_iff.1 holdest
    have hfree : heap'.free = oldest.index :: ((newer.map Ref.index).reverse ++ heap.free) := by
      rw [h.free_eq, hvictims, List.map_append, List.reverse_append]
      rfl
    exact h.listed.vacancy_of_free hfree
  count := by
    have hlength := heap.length_survivors_add_victims refs
    rw [h.listed.count, hl.count, hlength]
  worklist := h.worklist

end SweptTo

/-- **A sweep filters the allocation list by the marks**, in place and without breaking off,
whatever the marks and the links are.  It answers the number of cells that it removed, and
records them in the order of the list. -/
theorem sweep_filters (h : heap.Listed refs) (journal : List Record) (output : String) :
    ∃ heap', heap.Filtered refs heap' ∧
      sweep ⟨heap, journal, output⟩ = .ok (heap.victims refs).length
        ⟨heap', ((heap.victims refs).map fun r => .freed r.index).reverse ++ journal, output⟩ := by
  obtain ⟨heap', hswept, hrun⟩ := sweep_eq_ok h journal output
  obtain ⟨records, hjournal, hages⟩ := ages_sweep ⟨heap, journal, output⟩
  rw [Action.after_of_ok hrun] at hjournal hages
  obtain rfl := List.append_cancel_right hjournal
  exact ⟨heap', hswept.filtered h hages, hrun⟩

/-- Six cells, of which the oldest but one and the oldest but three are marked. -/
def patchwork : Session Heap :=
  carryOut [.allocate (.scalar 1), .allocate (.scalar 2), .allocate (.pair none none),
    .allocate (.pair (some ⟨2, 0⟩) none), .allocate (.scalar 5), .allocate (.scalar 6),
    .mark ⟨1, 0⟩, .setPair ⟨3, 0⟩ ⟨1, 0⟩ ⟨1, 0⟩, .mark ⟨3, 0⟩] ⟨{}, [], ""⟩

/-- The two marked ones stay, and the slots of the others are free, the oldest first. -/
theorem patchwork_swept :
    patchwork.state.Listed [⟨5, 0⟩, ⟨4, 0⟩, ⟨3, 0⟩, ⟨2, 0⟩, ⟨1, 0⟩, ⟨0, 0⟩] ∧
    ∃ swept journal, sweep patchwork = .ok 4 ⟨swept, journal, patchwork.output⟩ ∧
      swept.Threads swept.head [⟨3, 0⟩, ⟨1, 0⟩] ∧ swept.free = [0, 2, 4, 5] ∧
      swept.slots[4]? = some ⟨1, none⟩ := by
  have hlisted : patchwork.state.Listed [⟨5, 0⟩, ⟨4, 0⟩, ⟨3, 0⟩, ⟨2, 0⟩, ⟨1, 0⟩, ⟨0, 0⟩] := by
    have hstock : ∀ commands, (inventory commands ⟨{}, [], ""⟩ []).map Prod.fst =
        [⟨5, 0⟩, ⟨4, 0⟩, ⟨3, 0⟩, ⟨2, 0⟩, ⟨1, 0⟩, ⟨0, 0⟩] →
          (carryOut commands ⟨{}, [], ""⟩).state.Listed
            [⟨5, 0⟩, ⟨4, 0⟩, ⟨3, 0⟩, ⟨2, 0⟩, ⟨1, 0⟩, ⟨0, 0⟩] := fun commands h =>
      h ▸ (Stocks.empty.inventory commands).listed
    exact hstock _ (by decide +kernel)
  obtain ⟨swept, hfiltered, hrun⟩ := sweep_filters hlisted patchwork.journal patchwork.output
  have hsurvivors : patchwork.state.survivors [⟨5, 0⟩, ⟨4, 0⟩, ⟨3, 0⟩, ⟨2, 0⟩, ⟨1, 0⟩, ⟨0, 0⟩] =
      [⟨3, 0⟩, ⟨1, 0⟩] := by decide +kernel
  have hvictims : patchwork.state.victims [⟨5, 0⟩, ⟨4, 0⟩, ⟨3, 0⟩, ⟨2, 0⟩, ⟨1, 0⟩, ⟨0, 0⟩] =
      [⟨5, 0⟩, ⟨4, 0⟩, ⟨2, 0⟩, ⟨0, 0⟩] := by decide +kernel
  have hthreads := hfiltered.threads
  have hfree := hfiltered.free
  have hremoved := hfiltered.removed ⟨4, 0⟩ (by simp) (by decide +kernel)
  rw [hsurvivors] at hthreads
  rw [hvictims, show patchwork.state.free = [] by decide +kernel] at hfree
  rw [hvictims] at hrun
  exact ⟨hlisted, swept, _, hrun, hthreads, hfree, hremoved⟩

end Heap

end MarkSweep
