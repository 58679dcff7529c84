/-
# Requests that are granted

A request that is granted puts its new cell on top of the roots and at the head of the allocation
list.  Whatever was live when it was made is there afterwards, unchanged, whether or not the
request collected first (`Reached.grants`).

The handle that it answers is new to the program: it did not resolve when the request was made
(`Prepares.not_contains_handle`), so it is no root and no link of any cell.  The generations
alone do not give this, since they come round.  What does is that a slot which is taken has one
handle that resolves.  If a collection vacates the slot on the way, it does so once, and the next
handle of the slot is another one.
-/

import MarkSweep.Proofs.Machine.Effects
import MarkSweep.Proofs.Machine.Generations

namespace MarkSweep

namespace Machine

variable {machine mid before after : Machine} {freed : List Ref} {journal journal' : List Record}
  {output : String} {index : Nat} {payload : Payload}

/-! ### A handle that is new -/

/-- A collection vacates no slot twice. -/
theorem Collects.nodup_map_index (h : before.Collects freed after) :
    (freed.map Ref.index).Nodup :=
  List.Nodup.map_on (fun r hr s hs => Heap.eq_of_index_eq ((h.mem_freed r).1 hr).1
    ((h.mem_freed s).1 hs).1) h.nodup

/-- What a collection records of a slot. -/
theorem count_collectionRecords (freed : List Ref) (remaining i : Nat) :
    (collectionRecords freed remaining).count (.freed i) = (freed.map Ref.index).count i := by
  rw [collectionRecords, List.count_cons_of_ne (by simp), Heap.count_freed]

/-- **The handle given out next does not resolve when the request for it is made**, even if its
slot has yet to be vacated then. -/
theorem Prepares.not_contains_handle (h : machine.Prepares journal output mid journal')
    (hs : machine.Sound) (hv : mid.heap.vacancy = .ok index) :
    machine.heap.contains (mid.heap.handle index) = false := by
  have hnew := Heap.contains_handle_of_vacancy hv
  cases h with
  | spare => exact hnew
  | @collected freed _ _ hcollects hcollect =>
    rw [Bool.eq_false_iff]
    intro hc
    have hnotLive : mid.heap.handle index ∉ machine.live := by
      intro hlive
      rw [(hcollects.contains_iff hs).2 hlive] at hnew
      cases hnew
    -- so the collection vacated the slot, and moved its handle on by one generation
    have hone : (freed.map Ref.index).count index = 1 :=
      List.count_eq_one_of_mem hcollects.nodup_map_index
        (List.mem_map_of_mem ((hcollects.mem_freed _).2 ⟨hc, hnotLive⟩))
    obtain ⟨records, hjournal, hages⟩ := ages_collect ⟨machine, journal, output⟩
    rw [Action.after_of_ok hcollect] at hjournal hages
    obtain rfl := List.append_cancel_right hjournal
    have hhandle := hages.handle index
    rw [count_collectionRecords, hone] at hhandle
    have hsame : machine.heap.handle index = mid.heap.handle index :=
      (Heap.contains_iff.1 hc).2.2
    rw [hsame] at hhandle
    have hdvd := (Heap.generation_add_ofNat_eq_iff (mid.heap.handle index).generation 1).1
      (congrArg Ref.generation hhandle).symm
    exact absurd (Nat.le_of_dvd Nat.one_pos hdvd) (by decide)

/-! ### What a program gets -/

/-- The cell of a handle is on both machines, with the same payload, and marked on neither. -/
structure Retains (before after : Machine) (r : Ref) : Prop where
  payload : ∃ payload, before.heap.payload? r = some payload ∧
    after.heap.payload? r = some payload
  mark : before.heap.mark? r = some false ∧ after.heap.mark? r = some false

/-- The second machine is what a request that is granted makes of the first: the new cell is on
top of these roots. -/
structure Grants (before : Machine) (roots : List Ref) (r : Ref) (payload : Payload)
    (after : Machine) : Prop where
  roots : after.roots.toList = roots ++ [r]
  cell : ∃ next, after.heap.get? r = some ⟨payload, false, next⟩
  head : after.heap.head = some r
  allocated : after.totals.allocated = before.totals.allocated + 1
  live : ∀ s ∈ before.live, before.Retains after s
  linked : ∀ s ∈ payload.edges, before.Retains after s
  /-- The handle is new. -/
  fresh : before.heap.get? r = none
  not_root : r ∉ before.roots.toList
  not_linked : ∀ s payload, before.heap.payload? s = some payload → r ∉ payload.edges

/-- The handle that is answered resolves. -/
theorem Grants.contains {roots : List Ref} {r : Ref} (h : before.Grants roots r payload after) :
    after.heap.contains r = true := by
  obtain ⟨next, hcell⟩ := h.cell
  exact Heap.contains_iff_exists.2 ⟨_, hcell⟩

/-- A new cell changes no live cell. -/
theorem Prepares.retains (h : machine.Prepares journal output mid journal') (hs : machine.Sound)
    (hv : mid.heap.vacancy = .ok index) (hgains : mid.heap.Gains index payload after.heap)
    {r : Ref} (hr : r ∈ machine.live) : machine.Retains after r := by
  have hmid := h.sound hs
  have hlive : r ∈ mid.live := h.keeps.live ▸ hr
  have hne : r ≠ mid.heap.handle index := by
    rintro rfl
    exact hmid.handle_notMem_live hv hlive
  obtain ⟨held, hp⟩ := Heap.contains_iff_payload?.1 (hs.contains_of_live hr)
  refine ⟨⟨held, hp, ?_⟩, hs.heap.mark?_eq (hs.contains_of_live hr), ?_⟩
  · rw [hgains.payload?, if_neg hne, h.keeps.payload r hr, hp]
  · rw [hgains.mark?, if_neg hne]
    exact hmid.heap.mark?_eq (hmid.contains_of_live hlive)

theorem Prepares.grants_of_gains (h : machine.Prepares journal output mid journal')
    (hs : machine.Sound) (hv : mid.heap.vacancy = .ok index)
    (hgains : mid.heap.Gains index payload after.heap)
    {roots : List Ref} (hroots : after.roots.toList = roots ++ [mid.heap.handle index])
    (hallocated : after.totals.allocated = mid.totals.allocated + 1)
    (hlinked : ∀ s ∈ payload.edges, s ∈ machine.live) :
    machine.Grants roots (mid.heap.handle index) payload after where
  roots := hroots
  cell := ⟨mid.heap.head, by rw [hgains.get?, if_pos rfl]⟩
  head := hgains.head
  allocated := hallocated.trans (congrArg (· + 1) h.keeps.allocated)
  live s hm := h.retains hs hv hgains hm
  linked s hm := h.retains hs hv hgains (hlinked s hm)
  fresh := Heap.get?_eq_none_iff.2 (h.not_contains_handle hs hv)
  not_root hm := by
    have hc := hs.roots _ hm
    rw [h.not_contains_handle hs hv] at hc
    cases hc
  not_linked s held hp hm := by
    have hc := hs.heap.whole s held hp _ hm
    rw [h.not_contains_handle hs hv] at hc
    cases hc

theorem pushScalar_grants (hs : machine.Sound) {value : Int64} {r : Ref}
    {session : Session Machine} (h : pushScalar value ⟨machine, journal, output⟩ = .ok r session) :
    machine.Grants machine.roots.toList r (.scalar value) session.state := by
  cases hfull : machine.roots.isFull with
  | true =>
    rw [pushScalar_of_isFull hfull] at h
    cases h
  | false =>
    obtain ⟨mid, journal', index, hprep, hv, rfl, rfl⟩ :=
      (pushScalar_serves hs hfull value journal output).granted_of_ok h
    refine hprep.grants_of_gains hs hv (gains_pushed hv value) ?_ rfl fun _ hm =>
      absurd hm List.not_mem_nil
    rw [← hprep.keeps.roots]
    exact roots_withRoots _ _

theorem makePair_grants (hs : machine.Sound) {r : Ref} {session : Session Machine}
    (h : makePair ⟨machine, journal, output⟩ = .ok r session) :
    ∃ rest second first, machine.roots.toList = rest ++ [second, first] ∧
      machine.Grants rest r (.pair (some first) (some second)) session.state := by
  rcases Nat.lt_or_ge machine.depth 2 with hdepth | hdepth
  · rw [makePair_of_depth_lt hdepth] at h
    cases h
  · obtain ⟨rest, second, first, hroots⟩ := exists_roots_eq hdepth
    obtain ⟨mid, journal', index, hprep, hv, rfl, rfl⟩ :=
      (makePair_serves hs hroots journal output).granted_of_ok h
    refine ⟨rest, second, first, hroots, hprep.grants_of_gains hs hv
      (gains_paired hv rest first second) (roots_withRoots _ _) rfl fun s hm => .root ?_⟩
    rw [hroots]
    exact mem_roots_of_mem_edges hm

end Machine

open Machine

variable {settings : Settings} {session : Session Machine}

/-- **What a program gets from a request that is granted**, at any point of any run and whether
or not the request collects first.  A scalar is put on top of the stack; a pair takes the place
of the two topmost roots, the topmost one first.  The cell is the newest of the heap and has a
handle that is new, and everything that was live is as it was. -/
theorem Reached.grants (h : Reached settings session) :
    (∀ value r after, pushScalar value session = .ok r after →
      session.state.Grants session.state.roots.toList r (.scalar value) after.state) ∧
    ∀ r after, makePair session = .ok r after → ∃ rest second first,
      session.state.roots.toList = rest ++ [second, first] ∧
        session.state.Grants rest r (.pair (some first) (some second)) after.state := by
  obtain ⟨hs, -⟩ := h.sound
  exact ⟨fun value r after hpush => pushScalar_grants hs hpush,
    fun r after hmake => makePair_grants hs hmake⟩

/-- Three scalars on a machine that collects at three cells; the first was dropped. -/
def recycling : Session Machine :=
  Operation.performAll [.pushScalar 1, .popRoot, .pushScalar 2, .pushScalar 3]
    ⟨initial { initialThreshold := 3 }, [], ""⟩

/-- The pair of the other two collects first, and moves into the slot of the one that was
dropped. -/
theorem recycling_granted : ∃ after, makePair recycling = .ok ⟨0, 1⟩ after ∧
    recycling.state.heap.contains ⟨0, 0⟩ = true ∧
    recycling.state.Grants [] ⟨0, 1⟩ (.pair (some ⟨2, 0⟩) (some ⟨1, 0⟩)) after.state := by
  have hreached : Reached { initialThreshold := 3 } recycling :=
    reached_performAll (by decide) ⟨trivial, trivial, trivial, trivial, trivial⟩
  have hgrants := (Reached.grants hreached).2
  have hanswer : (match makePair recycling with
      | .ok r _ => some r
      | .error _ _ => none) = some ⟨0, 1⟩ := by decide +kernel
  cases hrun : makePair recycling with
  | error failure after =>
    rw [hrun] at hanswer
    cases hanswer
  | ok r after =>
    rw [hrun] at hanswer
    obtain rfl := Option.some.inj hanswer
    obtain ⟨rest, second, first, hroots, hpair⟩ := hgrants _ after hrun
    have hthree : recycling.state.roots.toList = [] ++ [⟨1, 0⟩, ⟨2, 0⟩] := by decide +kernel
    obtain ⟨rfl, hlast⟩ := List.append_inj' (hthree.symm.trans hroots) rfl
    obtain ⟨rfl, rfl⟩ : ⟨1, 0⟩ = second ∧ ⟨2, 0⟩ = first := by simpa using hlast
    exact ⟨after, rfl, by decide +kernel, hpair⟩

end MarkSweep
