/-
# What a collection does

On a sound machine a collection cannot fail: marking meets no handle that is gone,
and nothing is in the way of the sweep (`collect_eq_ok`).  `Machine.Collects` says
what it leaves: the live cells as they were, and nothing else.

The links of a cell that survives lead to survivors, since everything they lead to is
live as well.  This is why a collection keeps a machine sound, although the links of
the garbage that waits for it are never looked at.
-/

import MarkSweep.Proofs.Machine.Parts
import MarkSweep.Proofs.Machine.Soundness

namespace MarkSweep

/-- The threshold after a collection is at least the least one allowed, which is
positive in settings that are accepted. -/
theorem Settings.one_le_thresholdAfter {settings : Settings} (h : settings.rejected? = none)
    (live : Nat) : 1 ≤ settings.thresholdAfter live :=
  (settings.pos_of_value? h .minThreshold rfl).trans_le (Nat.le_max_right _ _)

namespace Machine

/-- The second machine is what a collection makes of the first, freeing the cells of
the handles listed. -/
structure Collects (before : Machine) (freed : List Ref) (after : Machine) : Prop where
  heap : after.heap.AtRest
  roots : after.roots = before.roots
  settings : after.settings = before.settings
  kept : ∀ r ∈ before.live, after.heap.payload? r = before.heap.payload? r
  gone : ∀ r, r ∉ before.live → after.heap.payload? r = none
  nodup : freed.Nodup
  mem_freed : ∀ r, r ∈ freed ↔ before.heap.contains r = true ∧ r ∉ before.live
  count : after.count = before.live.ncard
  balance : after.count + freed.length = before.count
  threshold : after.threshold = before.settings.thresholdAfter before.live.ncard
  totals : after.totals = ⟨before.totals.collections + 1, before.totals.allocated,
    before.totals.collected + freed.length⟩
  slotCount : after.heap.slotCount = before.heap.slotCount

/-- What a collection that freed these cells and left so many enters into the journal,
latest first. -/
def collectionRecords (freed : List Ref) (remaining : Nat) : List Record :=
  .collected freed.length remaining :: (freed.map fun r => .freed r.index).reverse

variable {before after machine : Machine} {freed : List Ref}

/-- What is live before a collection is live after it, and nothing else is. -/
theorem Collects.live (h : before.Collects freed after) : after.live = before.live := by
  ext r
  rw [Machine.live, Machine.live, Set.mem_ofPred_eq, Set.mem_ofPred_eq, h.roots]
  constructor
  · intro hr
    refine hr.of_closed (S := fun r => before.heap.Reachable before.roots.toList r)
      (fun s hs => .root hs) fun s payload hs hp t ht => hs.edge ?_ ht
    rwa [← h.kept s hs]
  · intro hr
    exact hr.agree fun s hs => h.kept s hs

/-- After a collection the cells are the live ones. -/
theorem Collects.contains_iff (h : before.Collects freed after) (hs : before.Sound) {r : Ref} :
    after.heap.contains r = true ↔ r ∈ before.live := by
  by_cases hr : r ∈ before.live
  · rw [Heap.contains_eq_of_payload? (h.kept r hr)]
    exact iff_of_true (hs.contains_of_live hr) hr
  · refine iff_of_false (fun hc => ?_) hr
    obtain ⟨payload, hp⟩ := Heap.contains_iff_payload?.1 hc
    rw [h.gone r hr] at hp
    cases hp

/-- A collection keeps a machine sound. -/
theorem Collects.sound (h : before.Collects freed after) (hs : before.Sound) : after.Sound where
  heap := h.heap
  roots r hr := by
    rw [h.roots] at hr
    exact (h.contains_iff hs).2 (.root hr)
  capacity := by rw [h.roots, h.settings, hs.capacity]
  depth := by
    rw [depth, h.roots, h.settings]
    exact hs.depth
  accepted := h.settings ▸ hs.accepted
  threshold := h.threshold ▸ Settings.one_le_thresholdAfter hs.accepted _
  limit limit hl := by
    have hle := hs.limit limit (h.settings ▸ hl)
    have hbalance := h.balance
    omega

/-- A collection marks from the roots and sweeps the allocation list: it answers how many cells
it marked, freed and left, and records those that it freed in the order of the list. -/
theorem collect_apply (hs : machine.Sound) {refs : List Ref} (hrefs : machine.heap.Listed refs)
    (journal : List Record) (output : String) :
    ∃ order marked swept, machine.heap.MarksFrom machine.roots.toList order marked ∧
      marked.SweptTo refs swept ∧
      collect ⟨machine, journal, output⟩ =
        .ok ⟨order.length, (marked.victims refs).length, swept.count,
            machine.settings.thresholdAfter swept.count⟩
          ⟨⟨swept, machine.roots, machine.settings.thresholdAfter swept.count, machine.settings,
              ⟨machine.totals.collections + 1, machine.totals.allocated,
                machine.totals.collected + (marked.victims refs).length⟩⟩,
            collectionRecords (marked.victims refs) swept.count ++ journal, output⟩ := by
  obtain ⟨order, marked, hmarks, hmark⟩ := Heap.markFrom_eq_ok hs.heap.idle hs.heap.whole
    hs.heap.marksClosed hs.roots journal output
  obtain ⟨swept, hswept, hsweep⟩ := Heap.sweep_eq_ok (hmarks.same.listed hrefs) journal output
  refine ⟨order, marked, swept, hmarks, hswept, ?_⟩
  simp only [collect, Action.bind_apply, Action.observe_apply, onHeap_apply, hmark, hsweep,
    Action.transition_apply, settle, Action.record_apply, Action.pure_apply, collectionRecords,
    List.cons_append]

/-- The cells that a collection leaves are in the order that they were in. -/
theorem collect_listed (hs : machine.Sound) {refs : List Ref} (hrefs : machine.heap.Listed refs)
    {journal : List Record} {output : String} {stats : Collection} {session : Session Machine}
    (h : collect ⟨machine, journal, output⟩ = .ok stats session) :
    ∃ keep : Ref → Bool, session.state.heap.Listed (refs.filter keep) := by
  obtain ⟨order, marked, swept, -, hswept, hrun⟩ := collect_apply hs hrefs journal output
  obtain ⟨rfl, rfl⟩ := EStateM.Result.ok.inj (h.symm.trans hrun)
  exact ⟨fun r => marked.Marked r, hswept.listed⟩

/-- The cells that a collection frees were on the allocation list in the order in which they
are recorded. -/
theorem collect_freed_sublist (hs : machine.Sound) (hcollects : machine.Collects freed after)
    {journal : List Record} {output : String} {stats : Collection} {remaining : Nat}
    (h : collect ⟨machine, journal, output⟩ =
      .ok stats ⟨after, collectionRecords freed remaining ++ journal, output⟩)
    {refs : List Ref} (hrefs : machine.heap.Listed refs) : freed.Sublist refs := by
  obtain ⟨order, marked, swept, -, -, hrun⟩ := collect_apply hs hrefs journal output
  obtain ⟨-, hsession⟩ := EStateM.Result.ok.inj (h.symm.trans hrun)
  have hrecords := List.append_cancel_right (congrArg Session.journal hsession)
  have hindices : freed.map Ref.index = (marked.victims refs).map Ref.index := by
    have hinjective : Function.Injective Record.freed := fun _ _ => Record.freed.inj
    have hfreed := List.reverse_injective (List.cons.inj hrecords).2
    refine List.map_injective_iff.2 hinjective ?_
    rw [List.map_map, List.map_map]
    exact hfreed
  -- a cell is known by the slot that it sits in
  have hback : ∀ cells : List Ref, (∀ r ∈ cells, machine.heap.contains r = true) →
      (cells.map Ref.index).map machine.heap.handle = cells := by
    intro cells hcells
    rw [List.map_map]
    exact (List.map_congr_left fun r hr => (Heap.contains_iff.1 (hcells r hr)).2.2).trans
      (List.map_id _)
  have hvictims : (marked.victims refs).Sublist refs := List.filter_sublist
  have hfreed : freed = marked.victims refs := by
    rw [← hback freed fun r hr => ((hcollects.mem_freed r).1 hr).1, hindices,
      hback _ fun r hr => hrefs.mem_iff.1 (hvictims.subset hr)]
  rwa [hfreed]

/-- **A collection of a sound machine frees what is not live.**  It records the cells
freed, marks and leaves as many as are live, and says so. -/
theorem collect_eq_ok (hs : machine.Sound) (journal : List Record) (output : String) :
    ∃ freed after, machine.Collects freed after ∧
      collect ⟨machine, journal, output⟩ =
        .ok ⟨machine.live.ncard, freed.length, machine.live.ncard, after.threshold⟩
          ⟨after, collectionRecords freed machine.live.ncard ++ journal, output⟩ := by
  obtain ⟨refs, hrefs⟩ := hs.heap.listed
  obtain ⟨order, marked, swept, hmarks, hswept, hrun⟩ := collect_apply hs hrefs journal output
  have hlisted := hmarks.same.listed hrefs
  -- nothing was marked before, so the marks are the live cells
  have hlive : ∀ r, marked.Marked r ↔ r ∈ machine.live := fun r => by
    rw [hmarks.reached, or_iff_right (hs.heap.clean r)]
    rfl
  have horder : machine.live.ncard = order.length :=
    ncard_eq_length hmarks.nodup fun r => by
      rw [← hlive, hmarks.marked, or_iff_right (hs.heap.clean r)]
  have hsurvivors : machine.live.ncard = (marked.survivors refs).length :=
    ncard_eq_length hswept.listed.nodup fun r => by
      rw [Heap.mem_survivors, hlive, hrefs.mem_iff]
      exact and_iff_right_of_imp hs.contains_of_live
  have hcount : swept.count = machine.live.ncard := by
    rw [hswept.listed.count, hsurvivors]
  have hkept : ∀ r ∈ machine.live, swept.payload? r = machine.heap.payload? r := fun r hr => by
    rw [hswept.payload, if_pos ((hlive r).2 hr), hmarks.same.payload]
  have hgone : ∀ r, r ∉ machine.live → swept.payload? r = none := fun r hr => by
    rw [hswept.payload, if_neg fun hm => hr ((hlive r).1 hm)]
  rw [← horder, hcount] at hrun
  refine ⟨marked.victims refs, ⟨swept, machine.roots,
    machine.settings.thresholdAfter machine.live.ncard, machine.settings, _⟩, ?_, hrun⟩
  refine ⟨⟨⟨_, hswept.listed⟩, fun r payload hp s hsp => ?_, hswept.clean,
    hswept.worklist.trans hmarks.idle⟩, rfl, rfl, hkept, hgone, hrefs.nodup.filter _,
    fun r => ?_, hcount, ?_, rfl, rfl, (hswept.slotCount hlisted).trans hmarks.same.slotCount⟩
  · have hr : r ∈ machine.live := by
      by_contra hr
      rw [hgone r hr] at hp
      cases hp
    rw [hkept r hr] at hp
    have hsl : s ∈ machine.live := Heap.Reachable.edge hr hp hsp
    rw [Heap.contains_eq_of_payload? (hkept s hsl)]
    exact hs.contains_of_live hsl
  · rw [Heap.mem_victims, hlive, hrefs.mem_iff]
  · rw [count, count, hcount, hsurvivors, hrefs.count, Heap.length_survivors_add_victims]

end Machine

end MarkSweep
