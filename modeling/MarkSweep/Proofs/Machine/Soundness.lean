/-
# Sound machines

`Machine.Sound` says what holds of a machine between operations: its heap is at
rest, every root resolves, the stack keeps to its capacity, the threshold is at
least one, and there are no more cells than the object limit allows.

`Machine.live` are the handles that the roots lead to.  On a sound machine all of
them resolve (`Sound.contains_of_live`), so there are finitely many, and at most as
many as cells are counted (`Sound.ncard_live_le_count`).
-/

import MarkSweep.Machine.Operations
import MarkSweep.Proofs.Heap.Marking
import MarkSweep.Proofs.Heap.Sweeping
import Mathlib.Data.Set.Card

namespace MarkSweep

/-- The size of a set that a list without repetitions spells out. -/
theorem ncard_eq_length {S : Set Ref} {refs : List Ref} (hnd : refs.Nodup)
    (h : ∀ r, r ∈ refs ↔ r ∈ S) : S.ncard = refs.length := by
  have hS : S = ↑refs.toFinset := by
    ext r
    rw [← h r, List.coe_toFinset, Set.mem_ofPred_eq]
  rw [hS, Set.ncard_coe_finset, List.toFinset_card_of_nodup hnd]

namespace Heap

/-- A heap between operations: its lists are in order, every link resolves, nothing
is marked and nothing waits to be. -/
structure AtRest (heap : Heap) : Prop where
  listed : ∃ refs, heap.Listed refs
  whole : heap.Whole
  clean : ∀ r, ¬ heap.Marked r
  idle : heap.worklist = []

variable {heap : Heap}

theorem atRest_empty : ({} : Heap).AtRest where
  listed := ⟨[], Listed.empty⟩
  whole r payload h := by simp [payload?, get?] at h
  clean r h := by simp [Marked, mark?, get?] at h
  idle := rfl

theorem AtRest.marksClosed (h : heap.AtRest) : heap.MarksClosed := fun r _ hr =>
  absurd hr (h.clean r)

theorem AtRest.mark?_eq (h : heap.AtRest) {r : Ref} (hr : heap.contains r = true) :
    heap.mark? r = some false := by
  obtain ⟨⟨payload, marked, next⟩, hcell⟩ := contains_iff_exists.1 hr
  have hclean := h.clean r
  rw [Marked, mark?, hcell] at hclean
  obtain rfl : marked = false := by simpa using hclean
  rw [mark?, hcell]
  rfl

/-- A new cell without links leaves the heap at rest. -/
theorem AtRest.occupy (h : heap.AtRest) {index : Nat} (hv : heap.vacancy = .ok index)
    {payload : Payload} (hp : payload.edges = []) : (heap.occupy index payload).AtRest where
  listed := by
    obtain ⟨refs, hrefs⟩ := h.listed
    exact ⟨_, hrefs.occupy hv payload⟩
  whole r p hr s hs := by
    rw [payload?_occupy hv] at hr
    split_ifs at hr with hri
    · obtain rfl := Option.some.inj hr
      rw [hp] at hs
      exact absurd hs List.not_mem_nil
    · exact (contains_occupy hv _ s).2 (Or.inr (h.whole r p hr s hs))
  clean r hr := by
    rw [Marked, mark?_occupy hv] at hr
    split_ifs at hr with hri
    · cases hr
    · exact h.clean r hr
  idle := h.idle

/-- Filling a pair leaves the heap at rest, if the links resolve. -/
theorem AtRest.fill (h : heap.AtRest) {pair first second : Ref}
    (hpair : heap.contains pair = true) (hfirst : heap.contains first = true)
    (hsecond : heap.contains second = true) : (heap.fill pair first second).AtRest where
  listed := by
    obtain ⟨refs, hrefs⟩ := h.listed
    exact ⟨_, hrefs.update pair fun _ => rfl⟩
  whole r payload hr s hs := by
    rw [contains_fill]
    rw [payload?_fill hpair] at hr
    split_ifs at hr with hrp
    · obtain rfl := Option.some.inj hr
      rcases List.mem_cons.1 hs with rfl | hs
      · exact hfirst
      · rwa [List.mem_singleton.1 hs]
    · exact h.whole r payload hr s hs
  clean r hr := by
    rw [Marked, mark?_fill] at hr
    exact h.clean r hr
  idle := h.idle

end Heap

namespace Machine

/-- The handles that the roots lead to. -/
def live (machine : Machine) : Set Ref :=
  {r | machine.heap.Reachable machine.roots.toList r}

/-- Without roots nothing is live. -/
theorem live_eq_empty {machine : Machine} (h : machine.roots.toList = []) :
    machine.live = ∅ := by
  refine Set.eq_empty_iff_forall_notMem.2 fun r hr => ?_
  rw [live, h] at hr
  exact Heap.not_reachable_nil hr

/-- What holds of a machine between operations. -/
structure Sound (machine : Machine) : Prop where
  heap : machine.heap.AtRest
  roots : ∀ r ∈ machine.roots.toList, machine.heap.contains r = true
  capacity : machine.roots.capacity = machine.settings.stackCapacity
  depth : machine.depth ≤ machine.settings.stackCapacity
  accepted : machine.settings.rejected? = none
  threshold : 1 ≤ machine.threshold
  limit : ∀ limit, machine.settings.maxObjects = some limit → machine.count ≤ limit

variable {machine : Machine}

theorem Sound.contains_of_live (h : machine.Sound) {r : Ref} (hr : r ∈ machine.live) :
    machine.heap.contains r = true :=
  Heap.Reachable.contains hr h.heap.whole h.roots

/-- The handle given out next is not live. -/
theorem Sound.handle_notMem_live (h : machine.Sound) {index : Nat}
    (hv : machine.heap.vacancy = .ok index) : machine.heap.handle index ∉ machine.live := by
  intro hm
  have hc := h.contains_of_live hm
  rw [Heap.contains_handle_of_vacancy hv] at hc
  cases hc

theorem Sound.finite_live (h : machine.Sound) : machine.live.Finite := by
  obtain ⟨refs, hrefs⟩ := h.heap.listed
  exact (List.finite_toSet refs).subset fun r hr => hrefs.mem_iff.2 (h.contains_of_live hr)

theorem Sound.ncard_live_le_count (h : machine.Sound) : machine.live.ncard ≤ machine.count := by
  obtain ⟨refs, hrefs⟩ := h.heap.listed
  rw [count, hrefs.count, ← ncard_eq_length (S := {r | r ∈ refs}) hrefs.nodup fun _ => Iff.rfl]
  exact Set.ncard_le_ncard (fun r hr => hrefs.mem_iff.2 (h.contains_of_live hr))
    (List.finite_toSet refs)

/-- A run starts from the initial machine of settings that are accepted. -/
theorem create_eq_ok_iff {settings : Settings} :
    create settings = .ok machine ↔ settings.rejected? = none ∧ initial settings = machine := by
  cases h : settings.rejected? with
  | none => simp [create, h]
  | some setting => simp [create, h]

/-- A machine that was never used is sound. -/
theorem sound_initial {settings : Settings} (h : settings.rejected? = none) :
    (initial settings).Sound where
  heap := Heap.atRest_empty
  roots r hr := absurd hr (by simp [initial, RootStack.toList])
  capacity := rfl
  depth := Nat.zero_le _
  accepted := h
  threshold := Settings.pos_of_value? h .initialThreshold rfl
  limit limit _ := Nat.zero_le limit

end Machine

end MarkSweep
