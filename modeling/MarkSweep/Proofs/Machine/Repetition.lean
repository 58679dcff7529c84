/-
# Collecting again

A collection leaves nothing for another one to do.  Afterwards every cell is live, and the
threshold is what such a number of cells makes it (`Machine.Settled`).  A collection of a settled
machine marks every cell and takes all the marks back, in place: no link of the allocation list is
bent, no slot is vacated, and the threshold comes out as it was.  All that shows is that the
collection was counted (`Settled.collect_eq`), so the machine is settled as before.

From this any number of further collections follows by induction (`Reached.collect_settles`).
What carries it is that the heap is the same as a whole; a mark that stayed set would free
other cells in the next collection than in this one.
-/

import MarkSweep.Proofs.Machine.Generations

namespace MarkSweep

namespace Heap

variable {heap heap' : Heap} {refs : List Ref}

/-- Where two heaps list the same handles, each handle has the same link in both. -/
theorem Listed.next?_eq (h : heap.Listed refs) (h' : heap'.Listed refs) (r : Ref) :
    heap'.next? r = heap.next? r := by
  by_cases hr : r ∈ refs
  · obtain ⟨newer, older, rfl⟩ := List.append_of_mem hr
    rw [h.threads.next?, h'.threads.next?]
  · have hnone : ∀ {other : Heap}, other.Listed refs → other.next? r = none := by
      intro other hother
      by_contra hnext
      exact hr (hother.mem_iff.2 (contains_iff_next?.2 (Option.ne_none_iff_exists'.1 hnext)))
    rw [hnone h, hnone h']

/-- A sweep of a heap on which every cell is marked takes the marks away, and does nothing
else. -/
theorem SweptTo.sameButMarks (h : heap.SweptTo refs heap') (hl : heap.Listed refs)
    (hall : ∀ r ∈ refs, heap.Marked r) (hhandle : ∀ i, heap'.handle i = heap.handle i) :
    heap.SameButMarks heap' := by
  have hsurvivors : heap.survivors refs = refs := List.filter_eq_self.2 fun r hr => by
    simpa using hall r hr
  have hvictims : heap.victims refs = [] := List.filter_eq_nil_iff.2 fun r hr => by
    simpa using hall r hr
  have hlisted := h.listed
  rw [hsurvivors] at hlisted
  have hfree : heap'.free = heap.free := by rw [h.free, hvictims]; rfl
  refine ⟨?_, hfree, ?_, h.slotCount hl, fun r => ?_, hl.next?_eq hlisted, fun i => ?_, hhandle⟩
  · rw [hlisted.threads.head?, hl.threads.head?]
  · rw [hlisted.count, hl.count]
  · rw [h.payload]
    split_ifs with hm
    · rfl
    · -- what is not marked does not resolve
      by_contra hp
      have hc := contains_iff_payload?.2 (Option.ne_none_iff_exists'.1 (Ne.symm hp))
      exact hm (hall r (hl.mem_iff.2 hc))
  · rw [← hlisted.mem_free_iff, ← hl.mem_free_iff, hfree]

end Heap

namespace Machine

variable {before after machine : Machine} {freed : List Ref} {journal : List Record}
  {output : String}

/-- A machine that a collection would leave as it is. -/
structure Settled (machine : Machine) : Prop where
  sound : machine.Sound
  live : ∀ r, machine.heap.contains r = true → r ∈ machine.live
  threshold : machine.threshold = machine.settings.thresholdAfter machine.count

/-- The machine with more collections in its books, and nothing else changed. -/
def recounted (machine : Machine) (n : Nat) : Machine :=
  { machine with totals.collections := machine.totals.collections + n }

@[simp] theorem count_recounted (machine : Machine) (n : Nat) :
    (machine.recounted n).count = machine.count := rfl

@[simp] theorem threshold_recounted (machine : Machine) (n : Nat) :
    (machine.recounted n).threshold = machine.threshold := rfl

theorem recounted_recounted (machine : Machine) (m n : Nat) :
    (machine.recounted m).recounted n = machine.recounted (m + n) := by
  simp only [recounted, Nat.add_assoc]

/-- Collects a number of times, and answers what each of the collections answered. -/
def collectTimes : Nat → Action Machine (List Collection)
  | 0 => pure []
  | n + 1 => do
    let stats ← collect
    let later ← collectTimes n
    return stats :: later

/-- A collection leaves a settled machine. -/
theorem Collects.settled (h : before.Collects freed after) (hs : before.Sound) :
    after.Settled where
  sound := h.sound hs
  live r hr := by
    rw [h.live]
    exact (h.contains_iff hs).1 hr
  threshold := by rw [h.threshold, h.settings, h.count]

/-- The number of collections in the books has no say in whether a machine is settled. -/
theorem Settled.recounted (h : machine.Settled) (n : Nat) : (machine.recounted n).Settled where
  sound := ⟨h.sound.heap, h.sound.roots, h.sound.capacity, h.sound.depth, h.sound.accepted,
    h.sound.threshold, h.sound.limit⟩
  live := h.live
  threshold := h.threshold

section Settled

variable {refs order : List Ref} {marked : Heap}

/-- A collection of a settled machine marks every cell, -/
theorem Settled.marked_of_mem (h : machine.Settled) (hrefs : machine.heap.Listed refs)
    (hmarks : machine.heap.MarksFrom machine.roots.toList order marked) :
    ∀ r ∈ refs, marked.Marked r := fun r hr =>
  (hmarks.reached r).2 (Or.inr (h.live r (hrefs.mem_iff.1 hr)))

/-- and each of them once. -/
theorem Settled.length_order (h : machine.Settled) (hrefs : machine.heap.Listed refs)
    (hmarks : machine.heap.MarksFrom machine.roots.toList order marked) :
    order.length = machine.count := by
  have hperm : order.Perm refs := by
    refine (List.perm_ext_iff_of_nodup hmarks.nodup hrefs.nodup).2 fun r => ?_
    have hr : marked.Marked r ↔ r ∈ order := by
      rw [hmarks.marked, or_iff_right (h.sound.heap.clean r)]
    rw [← hr]
    constructor
    · intro hm
      rw [hrefs.mem_iff, ← hmarks.same.contains]
      exact Heap.contains_of_marked hm
    · exact h.marked_of_mem hrefs hmarks r
  rw [hperm.length_eq, count, hrefs.count]

/-- **A collection of a settled machine is counted, and nothing else comes of it.** -/
theorem Settled.collect_eq (h : machine.Settled) (journal : List Record) (output : String) :
    collect ⟨machine, journal, output⟩ =
      .ok ⟨machine.count, 0, machine.count, machine.threshold⟩
        ⟨machine.recounted 1, .collected 0 machine.count :: journal, output⟩ := by
  obtain ⟨refs, hrefs⟩ := h.sound.heap.listed
  obtain ⟨order, marked, swept, hmarks, hswept, hrun⟩ :=
    collect_apply h.sound hrefs journal output
  have hall := h.marked_of_mem hrefs hmarks
  have hvictims : marked.victims refs = [] := List.filter_eq_nil_iff.2 fun r hr => by
    simpa using hall r hr
  -- no cell is recorded as freed, so the generations stand
  have hhandle : ∀ i, swept.handle i = marked.handle i := by
    intro i
    obtain ⟨records, hjournal, hages⟩ := ages_collect ⟨machine, journal, output⟩
    rw [Action.after_of_ok hrun] at hjournal hages
    obtain rfl := List.append_cancel_right hjournal
    have hsame := hages.handle i
    rw [hvictims] at hsame
    rw [hmarks.same.handle]
    exact hsame.trans (congrArg (Ref.mk i) (UInt32.add_zero _))
  have hheap : swept = machine.heap := by
    have hsame := hmarks.same.trans
      (hswept.sameButMarks (hmarks.same.listed hrefs) hall hhandle)
    exact hsame.eq_of_marked
      (fun r => iff_of_false (hswept.clean r) (h.sound.heap.clean r))
      ((hswept.worklist.trans hmarks.idle).trans h.sound.heap.idle.symm)
  rw [hrun, hvictims, h.length_order hrefs hmarks, hheap, ← count, ← h.threshold]
  rfl

/-- Any number of collections of a settled machine are counted. -/
theorem Settled.collectTimes_eq (h : machine.Settled) (n : Nat) (journal : List Record)
    (output : String) :
    collectTimes n ⟨machine, journal, output⟩ =
      .ok (List.replicate n ⟨machine.count, 0, machine.count, machine.threshold⟩)
        ⟨machine.recounted n, List.replicate n (.collected 0 machine.count) ++ journal,
          output⟩ := by
  induction n generalizing machine journal with
  | zero => rfl
  | succ n ih =>
    have hlater := ih (h.recounted 1) (.collected 0 machine.count :: journal)
    rw [recounted_recounted, Nat.add_comm 1 n, count_recounted, threshold_recounted,
      List.append_cons, ← List.replicate_succ'] at hlater
    simp only [collectTimes, Action.bind_apply, h.collect_eq, hlater, Action.pure_apply]
    rfl

end Settled

end Machine

open Machine

variable {settings : Settings} {session : Session Machine}

/-- **Collecting again changes nothing.**  At any point of any run a collection succeeds, and any
number of collections after it succeed as well: each marks and leaves as many cells as the first
one left, frees none and answers the same threshold.  In the end the machine is the one that the
first collection left, but for the number of collections in its books. -/
theorem Reached.collect_settles (h : Reached settings session) :
    ∃ stats settled, collect session = .ok stats settled ∧ stats.marked = stats.remaining ∧
      ∀ n, collectTimes n settled =
        .ok (List.replicate n ⟨stats.remaining, 0, stats.remaining, stats.threshold⟩)
          ⟨{ settled.state with totals.collections := settled.state.totals.collections + n },
            List.replicate n (.collected 0 stats.remaining) ++ settled.journal,
            settled.output⟩ := by
  obtain ⟨hs, -⟩ := h.sound
  obtain ⟨machine, journal, output⟩ := session
  obtain ⟨freed, after, hcollects, hcollect⟩ := collect_eq_ok hs journal output
  refine ⟨_, _, hcollect, rfl, fun n => ?_⟩
  have hagain := (hcollects.settled hs).collectTimes_eq n
  rw [hcollects.count] at hagain
  exact hagain _ output

/-- A root that is a pair of itself twice, with the two scalars that it was made of gone to
waste. -/
def knot : Session Machine :=
  Operation.performAll [.pushScalar 1, .pushScalar 2, .makePair,
    .setPair ⟨2, 0⟩ ⟨2, 0⟩ ⟨2, 0⟩] ⟨initial {}, [], ""⟩

/-- The first collection frees the scalars, and the next three find the pair alone. -/
theorem knot_settles : ∃ settled, collect knot = .ok ⟨1, 2, 1, 2⟩ settled ∧
    collectTimes 3 settled = .ok [⟨1, 0, 1, 2⟩, ⟨1, 0, 1, 2⟩, ⟨1, 0, 1, 2⟩]
      ⟨{ settled.state with totals.collections := settled.state.totals.collections + 3 },
        .collected 0 1 :: .collected 0 1 :: .collected 0 1 :: settled.journal,
        settled.output⟩ := by
  have hreached : Reached {} knot := reached_performAll (by decide)
    ⟨trivial, trivial, trivial, ⟨⟨some ⟨1, 0⟩, some ⟨0, 0⟩, rfl⟩, rfl, rfl⟩, trivial⟩
  obtain ⟨stats, settled, hcollect, -, hagain⟩ := Reached.collect_settles hreached
  have hstats : (match collect knot with
      | .ok stats _ => some stats
      | .error _ _ => none) = some ⟨1, 2, 1, 2⟩ := by decide +kernel
  rw [hcollect] at hstats
  obtain rfl := Option.some.inj hstats
  exact ⟨settled, hcollect, hagain 3⟩

end MarkSweep
