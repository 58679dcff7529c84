/-
# Collections keep what is live and nothing else

`Machine.Trims` says what a collection is for: the live cells stay under their handles,
with their payloads and unmarked, and no other handle resolves.  Cycles make no difference,
since a cell is live for being led to from a root, not for being linked to.

In every run, every collection does that (`Reached.collection_trims`): the one that a
program asks for, and the one that a request for a cell starts on its own, after which the
request adds a cell or fails, and touches no other.
-/

import MarkSweep.Proofs.Machine.Runs

namespace MarkSweep

namespace Machine

variable {before after machine : Machine} {freed : List Ref}

/-- The second machine is the first without the cells that were not live. -/
structure Trims (before after : Machine) : Prop where
  roots : after.roots = before.roots
  kept : ∀ r ∈ before.live, ∃ payload, before.heap.payload? r = some payload ∧
    after.heap.payload? r = some payload ∧ after.heap.mark? r = some false
  gone : ∀ r, r ∉ before.live → after.heap.get? r = none

/-- What a collection answers: how many cells were live, and how many were not. -/
structure Reports (before : Machine) (stats : Collection) (after : Machine) : Prop where
  finite : before.live.Finite
  marked : stats.marked = before.live.ncard
  remaining : stats.remaining = before.live.ncard
  collected : stats.collected = before.count - before.live.ncard
  count : after.count = before.live.ncard
  threshold : stats.threshold = before.settings.thresholdAfter before.live.ncard ∧
    after.threshold = stats.threshold

theorem Collects.trims (h : before.Collects freed after) (hs : before.Sound) :
    before.Trims after where
  roots := h.roots
  kept r hr := by
    obtain ⟨payload, hp⟩ := Heap.contains_iff_payload?.1 (hs.contains_of_live hr)
    have hp' : after.heap.payload? r = some payload := (h.kept r hr).trans hp
    exact ⟨payload, hp, hp', h.heap.mark?_eq (Heap.contains_iff_payload?.2 ⟨payload, hp'⟩)⟩
  gone r hr := by
    have hp := h.gone r hr
    rwa [Heap.payload?, Option.map_eq_none_iff] at hp

theorem Collects.reports (h : before.Collects freed after) (hs : before.Sound) :
    before.Reports ⟨before.live.ncard, freed.length, before.live.ncard, after.threshold⟩
      after where
  finite := hs.finite_live
  marked := rfl
  remaining := rfl
  collected := by
    have hcount := h.count
    have hbalance := h.balance
    show freed.length = _
    omega
  count := h.count
  threshold := ⟨h.threshold, rfl⟩

/-- Finishing a request changes no cell but the new one, and does not collect. -/
structure Finishes (finish : Machine → Nat → Machine) : Prop where
  get? : ∀ (mid : Machine) (index : Nat), mid.heap.vacancy = .ok index →
    ∀ s, s ≠ mid.heap.handle index → (finish mid index).heap.get? s = mid.heap.get? s
  collections : ∀ (mid : Machine) (index : Nat),
    (finish mid index).totals.collections = mid.totals.collections

theorem finishes_pushed (value : Int64) : Finishes fun mid index => mid.pushed value index where
  get? mid index hv s hs := by rw [(gains_pushed hv value).get?, if_neg hs]
  collections _ _ := rfl

theorem finishes_paired (rest : List Ref) (first second : Ref) :
    Finishes fun mid index => mid.paired rest first second index where
  get? mid index hv s hs := by rw [(gains_paired hv rest first second).get?, if_neg hs]
  collections _ _ := rfl

/-- What a request for a cell does after its only collection left `mid`: it adds one cell,
or it fails. -/
structure Extends (request : Action Machine Ref) (mid : Machine) (session : Session Machine) :
    Prop where
  ok : ∀ r after, request session = .ok r after → mid.heap.get? r = none ∧
    ∀ s, s ≠ r → after.state.heap.get? s = mid.heap.get? s
  error : ∀ failure after, request session = .error failure after → after.state = mid
  once : (request.after session).state.totals.collections = mid.totals.collections

variable {request : Action Machine Ref} {session session' : Session Machine}

theorem extends_of_error {failure : Failure} (h : request session = .error failure session') :
    Extends request session'.state session where
  ok r after hok := by
    rw [h] at hok
    cases hok
  error failure' after herror := by
    rw [h] at herror
    cases herror
    rfl
  once := by rw [Action.after_of_error h]

theorem extends_of_ok {finish : Machine → Nat → Machine} (hfinish : Finishes finish)
    {mid : Machine} {index : Nat} {journal : List Record} {output : String}
    (hv : mid.heap.vacancy = .ok index)
    (h : request session = .ok (mid.heap.handle index) ⟨finish mid index, journal, output⟩) :
    Extends request mid session where
  ok r after hok := by
    rw [h] at hok
    cases hok
    exact ⟨Heap.get?_eq_none_iff.2 (Heap.contains_handle_of_vacancy hv),
      fun s hs => hfinish.get? mid index hv s hs⟩
  error failure after herror := by
    rw [h] at herror
    cases herror
  once := by
    rw [Action.after_of_ok h]
    exact hfinish.collections mid index

/-- If the books say that a collection ran in a request, it was the one that the request
starts with. -/
theorem Serves.extends {kind : Kind} {finish : Machine → Nat → Machine}
    {journal : List Record} {output : String} {stats : Collection}
    (h : Serves request kind finish machine journal output) (hfinish : Finishes finish)
    (hcollect : collect ⟨machine, journal, output⟩ = .ok stats session')
    (hran : (request.after ⟨machine, journal, output⟩).state.totals.collections ≠
      machine.totals.collections) :
    Extends request session'.state ⟨machine, journal, output⟩ := by
  -- without a collection the machine at hand serves the request, and its books stay
  have hmid : ∀ {mid : Machine} {journal' : List Record},
      machine.Prepares journal output mid journal' →
      (request.after ⟨machine, journal, output⟩).state.totals.collections =
        mid.totals.collections → session'.state = mid := by
    intro mid journal' hprep hkept
    cases hprep with
    | spare => exact absurd hkept hran
    | collected _ _ hcollect' =>
      rw [hcollect] at hcollect'
      cases hcollect'
      rfl
  cases h with
  | refused hprep _ _ _ hrequest =>
    rw [hmid hprep (by rw [Action.after_of_error hrequest])]
    exact extends_of_error hrequest
  | unplaced hprep _ _ hrequest =>
    rw [hmid hprep (by rw [Action.after_of_error hrequest])]
    exact extends_of_error hrequest
  | @granted mid _ index hprep _ hv hrequest =>
    have hkept := hfinish.collections mid index
    rw [hmid hprep (by rw [Action.after_of_ok hrequest]; exact hkept)]
    exact extends_of_ok hfinish hv hrequest

end Machine

open Machine

variable {settings : Settings} {session : Session Machine}

/-- **Every collection of every run keeps exactly what is live.**  At any point of a run a
collection succeeds, keeps the live cells as they were and the roots, lets no other handle
resolve, and answers how many cells that were.  Where a request for a cell collects, it does
the same before anything else, and goes on from there. -/
theorem Reached.collection_trims (h : Reached settings session) :
    ∃ stats mid, collect session = .ok stats mid ∧ session.state.Trims mid.state ∧
      session.state.Reports stats mid.state ∧
      ∀ request, (request = makePair ∨ ∃ value, request = pushScalar value) →
        (request.after session).state.totals.collections ≠ session.state.totals.collections →
        Extends request mid.state session := by
  obtain ⟨hs, -⟩ := h.sound
  obtain ⟨machine, journal, output⟩ := session
  obtain ⟨freed, after, hcollects, hcollect⟩ := collect_eq_ok hs journal output
  refine ⟨_, _, hcollect, hcollects.trims hs, hcollects.reports hs, fun request hreq hran => ?_⟩
  rcases hreq with rfl | ⟨value, rfl⟩
  · rcases Nat.lt_or_ge machine.depth 2 with hdepth | hdepth
    · rw [Action.after_of_error (makePair_of_depth_lt hdepth journal output)] at hran
      exact absurd rfl hran
    · obtain ⟨rest, second, first, hroots⟩ := exists_roots_eq hdepth
      exact (makePair_serves hs hroots journal output).extends
        (finishes_paired rest first second) hcollect hran
  · cases hfull : machine.roots.isFull with
    | true =>
      rw [Action.after_of_error (pushScalar_of_isFull hfull value journal output)] at hran
      exact absurd rfl hran
    | false =>
      exact (pushScalar_serves hs hfull value journal output).extends (finishes_pushed value)
        hcollect hran

/-- A pair that is linked to itself and that no root leads to. -/
def selfLoop : Session Machine :=
  Operation.performAll [.pushScalar 1, .pushScalar 2, .makePair,
    .setPair ⟨2, 0⟩ ⟨2, 0⟩ ⟨2, 0⟩, .popRoot] ⟨initial {}, [], ""⟩

/-- The next collection frees it, although a link leads to it. -/
theorem selfLoop_trimmed : ∃ stats mid, collect selfLoop = .ok stats mid ∧
    stats.marked = 0 ∧ mid.state.heap.get? ⟨2, 0⟩ = none := by
  have hreached : Reached {} selfLoop := reached_performAll (by decide)
    ⟨trivial, trivial, trivial, ⟨⟨some ⟨1, 0⟩, some ⟨0, 0⟩, rfl⟩, rfl, rfl⟩, trivial, trivial⟩
  have hempty : selfLoop.state.live = ∅ := live_eq_empty rfl
  obtain ⟨stats, mid, hcollect, htrims, hreports, -⟩ := Reached.collection_trims hreached
  refine ⟨stats, mid, hcollect, ?_, htrims.gone _ ?_⟩
  · rw [hreports.marked, hempty, Set.ncard_empty]
  · rw [hempty]
    exact Set.notMem_empty _

end MarkSweep
