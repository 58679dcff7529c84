/-
# What sweeping leaves

`Sweeping.Tracks` is the invariant of a sweep.  The allocation list of the heap as
it stands is made of the survivors among the cells visited, followed by the cells
still ahead, so the heap is a listed one at every moment: a round either clears a
mark (`Tracks.spare`) or takes one cell out of the list (`Tracks.free_step`).

A listed heap therefore puts nothing in the way of a sweep, whatever its marks and
its links say.  The marked cells stay, in their order and with the payload they had;
the others are gone (`sweep_eq_ok`).
-/

import MarkSweep.Proofs.Heap.Listing

namespace MarkSweep

namespace Heap

instance (heap : Heap) (r : Ref) : Decidable (heap.Marked r) :=
  inferInstanceAs (Decidable (heap.mark? r = some true))

/-- The handles of the marked cells among some. -/
def survivors (heap : Heap) (refs : List Ref) : List Ref :=
  refs.filter fun r => heap.Marked r

/-- The handles of the other cells. -/
def victims (heap : Heap) (refs : List Ref) : List Ref :=
  refs.filter fun r => ¬ heap.Marked r

theorem mem_survivors {heap : Heap} {refs : List Ref} {r : Ref} :
    r ∈ heap.survivors refs ↔ r ∈ refs ∧ heap.Marked r := by
  rw [survivors, List.mem_filter, decide_eq_true_iff]

theorem mem_victims {heap : Heap} {refs : List Ref} {r : Ref} :
    r ∈ heap.victims refs ↔ r ∈ refs ∧ ¬ heap.Marked r := by
  rw [victims, List.mem_filter, decide_eq_true_iff]

theorem length_survivors_add_victims (heap : Heap) (refs : List Ref) :
    (heap.survivors refs).length + (heap.victims refs).length = refs.length := by
  have h := List.length_eq_length_filter_add (l := refs) fun r => decide (heap.Marked r)
  simp only [survivors, victims, decide_not]
  exact h.symm

/-- The second heap is what a sweep makes of the first, whose cells are listed. -/
structure SweptTo (heap : Heap) (refs : List Ref) (heap' : Heap) : Prop where
  listed : heap'.Listed (heap.survivors refs)
  clean : ∀ r, ¬ heap'.Marked r
  payload : ∀ r, heap'.payload? r = if heap.Marked r then heap.payload? r else none
  free : heap'.free = (heap.victims refs).reverse.map Ref.index ++ heap.free
  worklist : heap'.worklist = heap.worklist

/-- A sweep gives no slot back to the arena. -/
theorem SweptTo.slotCount {heap heap' : Heap} {refs : List Ref} (h : heap.SweptTo refs heap')
    (hl : heap.Listed refs) : heap'.slotCount = heap.slotCount := by
  have hlength := heap.length_survivors_add_victims refs
  rw [← h.listed.count_add_length_free, ← hl.count_add_length_free, h.listed.count, hl.count,
    h.free, List.length_append, List.length_map, List.length_reverse]
  omega

theorem mark?_clearMark {heap : Heap} {r : Ref} (h : heap.contains r = true) (s : Ref) :
    (heap.clearMark r).mark? s = if s = r then some false else heap.mark? s := by
  obtain ⟨cell, hcell⟩ := contains_iff_exists.1 h
  rw [mark?, clearMark, get?_update]
  split_ifs with hs
  · simp [hcell]
  · rfl

theorem payload?_clearMark (heap : Heap) (r s : Ref) :
    (heap.clearMark r).payload? s = heap.payload? s :=
  map_get?_update Cell.payload heap r s _ fun _ => rfl

/-- Freeing a cell behind a bent link shows through its own handle only. -/
theorem map_get?_release_relink {β : Type} (part : Cell → β) {heap : Heap} {r : Ref}
    (hr : heap.contains r = true) (link target : Option Ref) (s : Ref)
    (h : ∀ cell : Cell, part { cell with next := target } = part cell) :
    (((heap.relink link target).release r).get? s).map part =
      if s = r then none else (heap.get? s).map part := by
  rw [map_get?_release part (by rwa [contains_relink]), map_get?_relink part heap link target s h]

end Heap

namespace Sweeping

open Heap

/-- The invariant of a sweep, over the heap it started on: the cells visited, and the
cells still ahead. -/
structure Tracks (heap : Heap) (visited ahead : List Ref) (sweeping : Sweeping) : Prop where
  listed : sweeping.heap.Listed (heap.survivors visited ++ ahead)
  link : sweeping.link = (heap.survivors visited).getLast?
  cursor : sweeping.cursor = ahead.head?
  freed : sweeping.freed = (heap.victims visited).reverse
  clean : ∀ r ∈ visited, ¬ sweeping.heap.Marked r
  mark : ∀ r ∈ ahead, sweeping.heap.mark? r = heap.mark? r
  payload : ∀ r, sweeping.heap.payload? r =
    if r ∈ heap.victims visited then none else heap.payload? r
  free : sweeping.heap.free = (heap.victims visited).reverse.map Ref.index ++ heap.free
  worklist : sweeping.heap.worklist = heap.worklist

variable {heap : Heap} {visited ahead : List Ref} {r : Ref} {sweeping : Sweeping}

theorem tracks_ofHeap {refs : List Ref} (h : heap.Listed refs) :
    Tracks heap [] refs (ofHeap heap) where
  listed := h
  link := rfl
  cursor := h.threads.head?
  freed := rfl
  clean _ hr := absurd hr List.not_mem_nil
  mark _ _ := rfl
  payload _ := rfl
  free := rfl
  worklist := rfl

theorem Tracks.contains (h : Tracks heap visited (r :: ahead) sweeping) :
    sweeping.heap.contains r = true :=
  h.listed.mem_iff.1 (List.mem_append_right _ List.mem_cons_self)

theorem Tracks.ne_of_mem_ahead (h : Tracks heap visited (r :: ahead) sweeping) {s : Ref}
    (hs : s ∈ ahead) : s ≠ r := by
  rintro rfl
  exact (List.nodup_cons.1 (List.nodup_append.1 h.listed.nodup).2.1).1 hs

/-- Nothing keeps a sweep from dealing with a cell of the list. -/
theorem Tracks.not_halted (h : Tracks heap visited (r :: ahead) sweeping) :
    sweeping.halted = false := by
  obtain ⟨cell, hcell⟩ := contains_iff_exists.1 h.contains
  have hcount : sweeping.heap.count ≠ 0 := by
    rw [h.listed.count, List.length_append, List.length_cons]
    omega
  have hlink : sweeping.link.filter (!sweeping.heap.contains ·) = none := by
    rw [h.link, Option.filter_eq_none_iff]
    intro p hp
    have hc := h.listed.mem_iff.1 (List.mem_append_left _ (List.mem_of_getLast? hp))
    simp [hc]
  have hobstacle : sweeping.obstacle? = none := by
    simp [obstacle?, h.cursor, hcell, hlink, hcount]
  rw [halted, hobstacle, h.cursor]
  rfl

/-- A marked cell stays and loses its mark. -/
theorem Tracks.spare (h : Tracks heap visited (r :: ahead) sweeping) (hm : heap.Marked r) :
    Tracks heap (visited ++ [r]) ahead sweeping.step := by
  obtain ⟨cell, hcell⟩ := contains_iff_exists.1 h.contains
  have hmark : cell.marked = true := by
    have hr := (h.mark r List.mem_cons_self).trans hm
    rw [mark?, hcell] at hr
    simpa using hr
  have hnext : cell.next = ahead.head? := by
    have hn := h.listed.threads.next?
    rw [Heap.next?, hcell] at hn
    simpa using hn
  have hstep : sweeping.step = ⟨sweeping.heap.clearMark r, some r, cell.next, sweeping.freed⟩ := by
    have hcursor := h.cursor
    obtain ⟨heap', link, cursor, freed⟩ := sweeping
    obtain rfl : cursor = some r := hcursor
    simp only [] at hcell
    simp [step, hcell, hmark]
  have hsurvivors : heap.survivors (visited ++ [r]) = heap.survivors visited ++ [r] := by
    simp [survivors, hm]
  have hvictims : heap.victims (visited ++ [r]) = heap.victims visited := by
    simp [victims, hm]
  rw [hstep]
  refine ⟨?_, ?_, hnext, ?_, fun s hs => ?_, fun s hs => ?_, fun s => ?_, ?_, h.worklist⟩
  · rw [hsurvivors, List.append_assoc]
    exact h.listed.update r fun _ => rfl
  · rw [hsurvivors, List.getLast?_concat]
  · rw [hvictims]
    exact h.freed
  · rw [Heap.Marked, mark?_clearMark h.contains]
    split_ifs with hsr
    · simp
    · exact h.clean s ((List.mem_append.1 hs).resolve_right (by simpa using hsr))
  · rw [mark?_clearMark h.contains, if_neg (h.ne_of_mem_ahead hs)]
    exact h.mark s (List.mem_cons_of_mem _ hs)
  · rw [hvictims]
    exact (payload?_clearMark sweeping.heap r s).trans (h.payload s)
  · rw [hvictims]
    exact h.free

/-- An unmarked cell is taken out of the list and freed. -/
theorem Tracks.free_step (h : Tracks heap visited (r :: ahead) sweeping) (hm : ¬ heap.Marked r) :
    Tracks heap (visited ++ [r]) ahead sweeping.step := by
  obtain ⟨cell, hcell⟩ := contains_iff_exists.1 h.contains
  have hmark : cell.marked = false := by
    have hr : ¬ sweeping.heap.mark? r = some true := by
      rw [h.mark r List.mem_cons_self]
      exact hm
    rw [mark?, hcell] at hr
    simpa using hr
  have hnext' : sweeping.heap.next? r = some cell.next := by rw [Heap.next?, hcell]; rfl
  have hnext : cell.next = ahead.head? :=
    Option.some.inj (hnext'.symm.trans h.listed.threads.next?)
  have hstep : sweeping.step = ⟨(sweeping.heap.relink sweeping.link cell.next).release r,
      sweeping.link, cell.next, r :: sweeping.freed⟩ := by
    have hcursor := h.cursor
    obtain ⟨heap', link, cursor, freed⟩ := sweeping
    obtain rfl : cursor = some r := hcursor
    simp only [] at hcell
    simp [step, hcell, hmark]
  have hview {β : Type} (part : Cell → β)
      (hp : ∀ cell' : Cell, part { cell' with next := cell.next } = part cell') (s : Ref) :=
    map_get?_release_relink part h.contains sweeping.link cell.next s hp
  have hsurvivors : heap.survivors (visited ++ [r]) = heap.survivors visited := by
    simp [survivors, hm]
  have hvictims : heap.victims (visited ++ [r]) = heap.victims visited ++ [r] := by
    simp [victims, hm]
  rw [hstep]
  refine ⟨?_, ?_, hnext, ?_, fun s hs => ?_, fun s hs => ?_, fun s => ?_, ?_, ?_⟩
  · rw [hsurvivors, h.link]
    exact h.listed.unlink hnext'
  · rw [hsurvivors]
    exact h.link
  · rw [hvictims, List.reverse_append, h.freed]
    rfl
  · rw [Heap.Marked, mark?, hview Cell.marked fun _ => rfl]
    split_ifs with hsr
    · simp
    · exact h.clean s ((List.mem_append.1 hs).resolve_right (by simpa using hsr))
  · rw [mark?, hview Cell.marked fun _ => rfl, if_neg (h.ne_of_mem_ahead hs)]
    exact h.mark s (List.mem_cons_of_mem _ hs)
  · have hmem : s ∈ heap.victims (visited ++ [r]) ↔ s ∈ heap.victims visited ∨ s = r := by
      rw [hvictims, List.mem_append, List.mem_singleton]
    rw [payload?, hview Cell.payload fun _ => rfl]
    simp only [hmem]
    by_cases hsr : s = r
    · rw [if_pos hsr, if_pos (Or.inr hsr)]
    · simp only [hsr, or_false, if_false]
      exact h.payload s
  · rw [free_release, free_relink, h.free, hvictims, List.reverse_append]
    rfl
  · rw [worklist_release, worklist_relink]
    exact h.worklist

theorem run_of_halted (h : sweeping.halted = true) : sweeping.run = sweeping := by
  rw [run, dif_pos h]

theorem run_of_not_halted (h : sweeping.halted = false) : sweeping.run = sweeping.step.run := by
  rw [run, dif_neg (by rw [h]; exact Bool.false_ne_true)]

/-- What every round keeps that something can be done in, the whole run keeps. -/
theorem run_induction {P : Sweeping → Prop}
    (step : ∀ sweeping, sweeping.halted = false → P sweeping → P sweeping.step)
    (sweeping : Sweeping) (h : P sweeping) : P sweeping.run := by
  induction sweeping using run.induct with
  | case1 sweeping hh =>
    rw [run_of_halted hh]
    exact h
  | case2 sweeping hh _ ih =>
    have hh' := Bool.eq_false_iff.2 hh
    rw [run_of_not_halted hh']
    exact ih (step sweeping hh' h)

/-- A sweep of a listed heap visits the whole list. -/
theorem Tracks.run (h : Tracks heap visited ahead sweeping) :
    Tracks heap (visited ++ ahead) [] sweeping.run := by
  induction ahead generalizing visited sweeping with
  | nil =>
    rw [run_of_halted (by rw [halted, h.cursor]; rfl), List.append_nil]
    exact h
  | cons r ahead ih =>
    rw [run_of_not_halted h.not_halted, List.append_cons]
    by_cases hm : heap.Marked r
    · exact ih (h.spare hm)
    · exact ih (h.free_step hm)

/-- The end of a sweep of a listed heap. -/
theorem Tracks.sweptTo {refs : List Ref} (h : Tracks heap refs [] sweeping)
    (hl : heap.Listed refs) : heap.SweptTo refs sweeping.heap where
  listed := by simpa using h.listed
  clean r hr := by
    have hmem := h.listed.mem_iff.2 (contains_of_marked hr)
    rw [List.append_nil] at hmem
    exact h.clean r (List.mem_of_mem_filter hmem) hr
  payload r := by
    rw [h.payload]
    simp only [mem_victims, hl.mem_iff]
    by_cases hm : heap.Marked r
    · simp [hm]
    · by_cases hc : heap.contains r = true
      · simp [hm, hc]
      · have hp : heap.payload? r = none := by
          by_contra hp
          exact hc (contains_iff_payload?.2 (Option.ne_none_iff_exists'.1 hp))
        simp [hm, hc, hp]
  free := h.free
  worklist := h.worklist

end Sweeping

namespace Heap

theorem sweep_apply (heap : Heap) (journal : List Record) (output : String) :
    sweep ⟨heap, journal, output⟩ =
      let sweeping := (Sweeping.ofHeap heap).run
      let journal' := (sweeping.freed.map fun r => .freed r.index) ++ journal
      match sweeping.obstacle? with
      | none => .ok sweeping.freed.length ⟨sweeping.heap, journal', output⟩
      | some cause => .error (.fault cause) ⟨sweeping.heap, journal', output⟩ := by
  simp only [sweep, Action.bind_apply, Action.transition_apply, Sweeping.finish,
    Action.recordAll_apply, List.map_reverse, List.reverse_reverse]
  cases (Sweeping.ofHeap heap).run.obstacle? with
  | none => simp
  | some cause => rfl

/-- **A sweep of a listed heap frees the unmarked cells.**  It answers their number,
records them in the order of the list, and leaves the marked ones unmarked. -/
theorem sweep_eq_ok {heap : Heap} {refs : List Ref} (h : heap.Listed refs)
    (journal : List Record) (output : String) :
    ∃ heap', heap.SweptTo refs heap' ∧
      sweep ⟨heap, journal, output⟩ = .ok (heap.victims refs).length
        ⟨heap', ((heap.victims refs).map fun r => .freed r.index).reverse ++ journal, output⟩ := by
  have htracks := (Sweeping.tracks_ofHeap h).run
  rw [List.nil_append] at htracks
  refine ⟨_, htracks.sweptTo h, ?_⟩
  have hobstacle : (Sweeping.ofHeap heap).run.obstacle? = none := by
    rw [Sweeping.obstacle?, htracks.cursor]
    rfl
  rw [sweep_apply]
  simp only [hobstacle, htracks.freed, List.length_reverse, List.map_reverse]

end Heap

end MarkSweep
