/-
# The order of age

The allocation list has the newest cell first.  On a heap whose pairs were filled when they were
made, links lead to older cells only, hence further down that list (`Heap.Backward`), and there
is no way from a cell back to it (`Backward.acyclic`).

The order is that of the list and not of the slots, which are taken again in any order.  A cell
that goes in front of the list links to cells behind it (`Backward.gains`), and a cell that is
taken off the list leaves the others in the order that they were in (`Backward.filter`).
-/

import MarkSweep.Proofs.Heap.Listing
import MarkSweep.Proofs.Heap.Reachability
import Mathlib.Logic.Relation

namespace MarkSweep

/-- The first of two entries of a list without repetitions has the lower index. -/
theorem idxOf_lt_of_sublist {l : List Ref} (hnd : l.Nodup) {r s : Ref} (h : [r, s].Sublist l) :
    l.idxOf r < l.idxOf s := by
  have hpairwise : l.Pairwise fun r s => l.idxOf r < l.idxOf s :=
    List.pairwise_iff_getElem.2 fun i j hi hj hij => by
      rw [hnd.idxOf_getElem, hnd.idxOf_getElem]
      exact hij
  exact List.pairwise_iff_forall_sublist.1 hpairwise h

/-- A pair has both its links. -/
def Payload.Filled : Payload → Prop
  | .scalar _ => True
  | .pair first second => first.isSome = true ∧ second.isSome = true

namespace Heap

/-- The handles of the cells, newest first. -/
def handles (heap : Heap) : List Ref :=
  heap.cells.map Prod.fst

/-- There is a cell under the first handle, and it is linked to the second. -/
def Links (heap : Heap) (r s : Ref) : Prop :=
  ∃ payload, heap.payload? r = some payload ∧ s ∈ payload.edges

/-- Every pair is filled, and links lead from newer cells to older ones. -/
structure Backward (heap : Heap) : Prop where
  filled : ∀ r payload, heap.payload? r = some payload → payload.Filled
  older : ∀ r s, heap.Links r s → [r, s].Sublist heap.handles

variable {heap heap' : Heap} {refs : List Ref} {index : Nat} {payload : Payload}

theorem Listed.handles_eq (h : heap.Listed refs) : heap.handles = refs := by
  rw [handles, h.cells_eq, List.map_filterMap]
  refine (List.filterMap_congr fun r hr => ?_).trans List.filterMap_some
  obtain ⟨cell, hcell⟩ := contains_iff_exists.1 (h.mem_iff.1 hr)
  rw [hcell]
  rfl

theorem Links.contains {r s : Ref} (h : heap.Links r s) : heap.contains r = true := by
  obtain ⟨payload, hp, -⟩ := h
  exact contains_iff_payload?.2 ⟨payload, hp⟩

theorem backward_empty : ({} : Heap).Backward where
  filled r payload h := by simp [payload?, get?] at h
  older r s h := by
    have hc := Links.contains h
    simp [Heap.contains, get?] at hc

/-- A new cell may be linked to any cells that there are. -/
theorem Backward.gains (h : heap.Backward) (hrefs : heap.Listed refs)
    (hgains : heap.Gains index payload heap') (hfilled : payload.Filled)
    (hedges : ∀ s ∈ payload.edges, heap.contains s = true) : heap'.Backward where
  filled r held hr := by
    rw [hgains.payload?] at hr
    split_ifs at hr with hnew
    · obtain rfl := Option.some.inj hr
      exact hfilled
    · exact h.filled r held hr
  older r s hlinks := by
    obtain ⟨held, hr, hs⟩ := hlinks
    rw [(hgains.listed refs hrefs).handles_eq]
    rw [hgains.payload?] at hr
    split_ifs at hr with hnew
    · obtain rfl := Option.some.inj hr
      rw [hnew]
      exact (List.singleton_sublist.2 (hrefs.mem_iff.2 (hedges s hs))).cons_cons _
    · have holder := h.older r s ⟨held, hr, hs⟩
      rw [hrefs.handles_eq] at holder
      exact holder.cons _

/-- Cells may be taken away, as long as the links of the others resolve. -/
theorem Backward.filter (h : heap.Backward) (hrefs : heap.Listed refs) {keep : Ref → Bool}
    (hkept : heap'.Listed (refs.filter keep)) (hwhole : heap'.Whole)
    (hpayload : ∀ r payload, heap'.payload? r = some payload → heap.payload? r = some payload) :
    heap'.Backward where
  filled r held hr := h.filled r held (hpayload r held hr)
  older r s hlinks := by
    obtain ⟨held, hr, hs⟩ := hlinks
    have holder := h.older r s ⟨held, hpayload r held hr, hs⟩
    rw [hrefs.handles_eq] at holder
    have hkeep : ∀ t, heap'.contains t = true → keep t = true := fun t ht =>
      (List.mem_filter.1 (hkept.mem_iff.2 ht)).2
    have hpair : [r, s].filter keep = [r, s] := by
      rw [List.filter_eq_self]
      intro t ht
      rcases List.mem_cons.1 ht with rfl | ht
      · exact hkeep t (Links.contains ⟨held, hr, hs⟩)
      · rw [List.mem_singleton.1 ht]
        exact hkeep s (hwhole r held hr s hs)
    rw [hkept.handles_eq, ← hpair]
    exact holder.filter keep

/-- **No way leads from a cell back to it**, since every link leads down the list. -/
theorem Backward.acyclic (h : heap.Backward) (hrefs : heap.Listed refs) (r : Ref) :
    ¬ Relation.TransGen heap.Links r r := by
  have hlower : ∀ s, Relation.TransGen heap.Links r s →
      heap.handles.idxOf r < heap.handles.idxOf s := by
    have hnd : heap.handles.Nodup := hrefs.handles_eq ▸ hrefs.nodup
    intro s hs
    induction hs with
    | single hlinks => exact idxOf_lt_of_sublist hnd (h.older _ _ hlinks)
    | tail _ hlinks ih => exact Nat.lt_trans ih (idxOf_lt_of_sublist hnd (h.older _ _ hlinks))
  exact fun hcycle => Nat.lt_irrefl _ (hlower r hcycle)

end Heap

end MarkSweep
