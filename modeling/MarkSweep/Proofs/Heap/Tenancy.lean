/-
# Tenants

The cells that are allocated in one slot are its tenants, and the handle of a tenant tells the
slot and the number of tenants before it, as far as 32 bits can count.  Which slot a cell gets,
and which number, follows from what was asked of the heap before (`Heap.accounted_carryOut`):
the slot that was vacated last among the vacant ones, or a new one if there is none; and never
more slots than there were cells at one time.

A handle is therefore given out twice exactly if its slot was vacated a positive multiple of
2³² times in between.

`Tallies` is the invariant: allocations, releases and the cells that are there balance for every
slot, and the free list is in the order of the releases (`Queued`).  A command keeps it
(`Tallies.act`), for it leaves the slots alone, takes one, or sweeps (`Turnover`).
-/

import MarkSweep.Proofs.Heap.Filtering

namespace MarkSweep

namespace Heap

/-! ### The history of a heap -/

/-- The handles given out after a command on a heap, the latest first. -/
def Command.hand (session : Session Heap) (given : List Ref) : Command → List Ref
  | .allocate payload =>
    match Heap.allocate payload session with
    | .ok r _ => r :: given
    | .error _ _ => given
  | .setPair _ _ _ | .mark _ | .markFrom _ | .sweep => given

/-- The handles given out after commands in this order. -/
def handedOut : List Command → Session Heap → List Ref → List Ref
  | [], _, given => given
  | command :: commands, session, given =>
    handedOut commands (command.act.after session) (command.hand session given)

/-- The most cells that there are at one time, before, between and after commands in this
order. -/
def peakCount : List Command → Session Heap → Nat
  | [], session => session.state.count
  | command :: commands, session =>
    max session.state.count (peakCount commands (command.act.after session))

/-- How many of some handles are handles of a slot. -/
def tenants (refs : List Ref) (i : Nat) : Nat :=
  (refs.map Ref.index).count i

/-- How often a slot was vacated. -/
def releases (session : Session Heap) (i : Nat) : Nat :=
  session.journal.count (.freed i)

/-- The slot is vacant, and every slot that was vacated after it is taken again. -/
structure LastVacated (session : Session Heap) (i : Nat) : Prop where
  vacant : session.state.Vacant i
  latest : ∃ newer older, session.journal = newer ++ .freed i :: older ∧
    ∀ j, .freed j ∈ newer → ¬ session.state.Vacant j

variable {heap heap' : Heap} {refs given : List Ref} {session after : Session Heap}
  {command : Command} {journal : List Record}

theorem releases_append {records : List Record} (h : after.journal = records ++ session.journal)
    (i : Nat) : releases after i = releases session i + records.count (.freed i) := by
  rw [releases, h, List.count_append, Nat.add_comm]
  rfl

theorem tenants_cons (r : Ref) (refs : List Ref) (i : Nat) :
    tenants (r :: refs) i = tenants refs i + if r.index = i then 1 else 0 := by
  rw [tenants, List.map_cons, List.count_cons]
  simp only [beq_iff_eq]
  rfl

/-- A slot that is taken has one tenant at a time. -/
theorem Listed.tenants_eq (h : heap.Listed refs) (i : Nat) :
    tenants refs i = if heap.contains (heap.handle i) then 1 else 0 := by
  have htaken : i ∈ refs.map Ref.index ↔ heap.contains (heap.handle i) = true := by
    rw [h.mem_map_index_iff, contains_iff]
    exact ⟨fun hi => ⟨hi.1, hi.2, rfl⟩, fun hi => ⟨hi.1, hi.2.1⟩⟩
  split_ifs with hc
  · exact List.count_eq_one_of_mem h.nodup_map_index (htaken.2 hc)
  · exact List.count_eq_zero.2 fun hi => hc (htaken.1 hi)

theorem tenants_survivors_add_victims (heap : Heap) (refs : List Ref) (i : Nat) :
    tenants (heap.survivors refs) i + tenants (heap.victims refs) i = tenants refs i := by
  have hperm := List.filter_append_perm (fun r => decide (heap.Marked r)) refs
  have hcount := (hperm.map Ref.index).count_eq i
  rw [List.map_append, List.count_append] at hcount
  simpa only [tenants, survivors, victims, decide_not] using hcount

/-! ### The order of the free list -/

/-- The slots are in the order in which the journal says that they were vacated, the latest
first. -/
def Queued : List Record → List Nat → Prop
  | _, [] => True
  | journal, i :: rest => ∃ newer older, journal = newer ++ .freed i :: older ∧
      (∀ j ∈ i :: rest, .freed j ∉ newer) ∧ Queued older rest

/-- What else is recorded makes no difference to them. -/
theorem Queued.append {free : List Nat} (h : Queued journal free) {newer : List Record}
    (hnewer : ∀ i ∈ free, .freed i ∉ newer) : Queued (newer ++ journal) free := by
  cases free with
  | nil => trivial
  | cons i rest =>
    obtain ⟨between, older, rfl, hbetween, hrest⟩ := h
    refine ⟨newer ++ between, older, (List.append_assoc ..).symm, fun j hj hm => ?_, hrest⟩
    rcases List.mem_append.1 hm with hm | hm
    · exact hnewer j hj hm
    · exact hbetween j hj hm

/-- The first slot of the list is taken. -/
theorem Queued.tail {free : List Nat} (h : Queued journal free) (hnd : free.Nodup) :
    Queued journal free.tail := by
  cases free with
  | nil => exact h
  | cons i rest =>
    obtain ⟨newer, older, rfl, hnewer, hrest⟩ := h
    rw [List.tail_cons, List.append_cons]
    refine hrest.append fun j hj hm => ?_
    rcases List.mem_append.1 hm with hm | hm
    · exact hnewer j (List.mem_cons_of_mem _ hj) hm
    · obtain rfl := Record.freed.inj (List.mem_singleton.1 hm)
      exact (List.nodup_cons.1 hnd).1 hj

/-- Slots are vacated, one after the other. -/
theorem Queued.freed {free : List Nat} (h : Queued journal free) (refs : List Ref) :
    Queued ((refs.map fun r => .freed r.index).reverse ++ journal)
      ((refs.map Ref.index).reverse ++ free) := by
  induction refs generalizing journal free with
  | nil => exact h
  | cons r refs ih =>
    have hr : Queued (.freed r.index :: journal) (r.index :: free) :=
      ⟨[], journal, rfl, fun _ _ => List.not_mem_nil, h⟩
    simpa using ih hr

/-! ### What a command does to the slots -/

/-- The slots and the two lists are the same. -/
structure SameSlots (heap : Heap) (refs : List Ref) (heap' : Heap) : Prop where
  listed : heap'.Listed refs
  free : heap'.free = heap.free
  slotCount : heap'.slotCount = heap.slotCount

/-- What a command comes to: nothing for the slots, or a slot is taken, or the slots of the
unmarked cells are vacated. -/
inductive Turnover (session : Session Heap) (refs : List Ref) : Command → Session Heap → Prop where
  | idle {command : Command} {after : Session Heap} :
      (∀ given, command.hand session given = given) → SameSlots session.state refs after.state →
      after.journal = session.journal → Turnover session refs command after
  | taken {payload : Payload} {index : Nat} {after : Session Heap} :
      session.state.vacancy = .ok index →
      Heap.allocate payload session = .ok (session.state.handle index) after →
      after.state = session.state.occupy index payload →
      after.journal = .allocated payload.kind index :: session.journal →
      Turnover session refs (.allocate payload) after
  | swept {after : Session Heap} : session.state.SweptTo refs after.state →
      after.journal = ((session.state.victims refs).map fun r => .freed r.index).reverse ++
        session.journal →
      Turnover session refs .sweep after

theorem SameSlots.refl (h : heap.Listed refs) : heap.SameSlots refs heap :=
  ⟨h, rfl, rfl⟩

theorem SameButMarks.sameSlots (h : heap.SameButMarks heap') (hl : heap.Listed refs) :
    heap.SameSlots refs heap' :=
  ⟨h.listed hl, h.free, h.slotCount⟩

theorem turnover_setPair (h : session.state.Listed refs) (pair first second : Ref) :
    Turnover session refs (.setPair pair first second)
      ((setPair pair first second).after session) := by
  rcases setPair_cases pair first second session with ⟨-, hafter⟩ | ⟨old₁, old₂, -, hafter⟩
  · rw [hafter]
    exact .idle (fun _ => rfl) (.refl h) rfl
  · rw [hafter]
    exact .idle (fun _ => rfl) ⟨h.update pair fun _ => rfl, free_update .., slotCount_update ..⟩ rfl

theorem turnover_allocate (h : session.state.Listed refs) (payload : Payload) :
    Turnover session refs (.allocate payload) ((allocate payload).after session) := by
  obtain ⟨heap, journal, output⟩ := session
  rcases allocate_cases h payload journal output with ⟨-, hrun⟩ | ⟨index, hv, hrun⟩
  · rw [Action.after_of_error hrun]
    refine .idle (fun given => ?_) (.refl h) rfl
    rw [Command.hand, hrun]
  · rw [Action.after_of_ok hrun]
    exact .taken hv hrun rfl rfl

theorem journal_mark (root : Ref) (session : Session Heap) :
    ((mark root).after session).journal = session.journal := by
  rw [after_mark]

theorem Command.turnover (h : session.state.Listed refs) (command : Command) :
    Turnover session refs command (command.act.after session) := by
  cases command with
  | allocate payload =>
    rw [act, Action.after_map]
    exact turnover_allocate h payload
  | setPair pair first second => exact turnover_setPair h pair first second
  | mark root =>
    rw [act, Action.after_map]
    exact .idle (fun _ => rfl) ((sameButMarks_mark root session).sameSlots h)
      (journal_mark root session)
  | markFrom roots =>
    have hjournal := after_markFrom (P := fun last => last.journal = session.journal)
      (fun root last hlast => (journal_mark root last).trans hlast) roots rfl
    rw [act, Action.after_map]
    exact .idle (fun _ => rfl) ((sameButMarks_markFrom roots session).sameSlots h) hjournal
  | sweep =>
    obtain ⟨heap', hswept, hrun⟩ := sweep_eq_ok h session.journal session.output
    rw [act, Action.after_map, Action.after_of_ok hrun]
    exact .swept hswept rfl

/-- Every command records the cells that it frees. -/
theorem Command.ages (command : Command) (session : Session Heap) :
    session.Aged id (command.act.after session) := by
  cases command with
  | allocate payload =>
    rw [act, Action.after_map]
    exact ages_allocate payload session
  | setPair pair first second => exact ages_setPair pair first second session
  | mark root =>
    rw [act, Action.after_map]
    exact ages_mark root session
  | markFrom roots =>
    rw [act, Action.after_map]
    exact ages_markFrom roots session
  | sweep =>
    rw [act, Action.after_map]
    exact ages_sweep session

theorem ages_carryOut (commands : List Command) (session : Session Heap) :
    session.Aged id (carryOut commands session) := by
  induction commands generalizing session with
  | nil => exact .refl session
  | cons command commands ih => exact (command.ages session).trans (ih _)

/-- A command gives the arena a slot more only for a cell more than there were ever before. -/
theorem Turnover.slotCount (h : Turnover session refs command after)
    (hl : session.state.Listed refs) :
    after.state.slotCount = max session.state.slotCount after.state.count := by
  have hcount := hl.count_add_length_free
  cases h with
  | idle _ hsame _ =>
    have hcount' := hsame.listed.count
    rw [← hl.count] at hcount'
    rw [hsame.slotCount, hcount']
    omega
  | taken hv _ hstate _ =>
    rw [hstate, hl.slotCount_occupy hv, count_occupy]
  | swept hswept _ =>
    have hcount' := hswept.listed.count_add_length_free
    rw [hswept.slotCount hl] at hcount' ⊢
    omega

/-! ### The invariant -/

/-- The heap, its journal and the handles given out agree on the tenants of every slot. -/
structure Tallies (session : Session Heap) (refs given : List Ref) : Prop where
  listed : session.state.Listed refs
  /-- A tenant is gone, or is there. -/
  balance : ∀ i, tenants given i = releases session i + tenants refs i
  handle : ∀ i, session.state.handle i = ⟨i, UInt32.ofNat (releases session i)⟩
  queued : Queued session.journal session.state.free
  within : ∀ r ∈ given, r.index < session.state.slotCount
  numbered : ∀ newer r older, given = newer ++ r :: older →
    r.generation = UInt32.ofNat (tenants older r.index)

theorem count_le_peakCount (commands : List Command) (session : Session Heap) :
    session.state.count ≤ peakCount commands session := by
  cases commands with
  | nil => exact le_rfl
  | cons command commands => exact le_max_left _ _

namespace Tallies

theorem empty : Tallies ⟨{}, [], ""⟩ [] [] where
  listed := Listed.empty
  balance _ := rfl
  handle _ := rfl
  queued := trivial
  within _ hr := absurd hr List.not_mem_nil
  numbered newer r older h := by simp at h

/-- The generation of a slot goes on counting its releases. -/
theorem handle_of_aged (h : Tallies session refs given) (haged : session.Aged id after) (i : Nat) :
    after.state.handle i = ⟨i, UInt32.ofNat (releases after i)⟩ := by
  obtain ⟨records, hjournal, hages⟩ := haged
  have hhandle : after.state.handle i = _ := hages.handle i
  rw [hhandle, releases_append hjournal, UInt32.ofNat_add]
  exact congrArg (Ref.mk i) (congrArg (· + _) (congrArg Ref.generation (h.handle i)))

/-- A command that leaves the slots alone. -/
theorem idle (h : Tallies session refs given) (hsame : SameSlots session.state refs after.state)
    (hjournal : after.journal = session.journal)
    (hhandle : ∀ i, after.state.handle i = ⟨i, UInt32.ofNat (releases after i)⟩) :
    Tallies after refs given where
  listed := hsame.listed
  balance i := by
    rw [h.balance, releases, releases, hjournal]
  handle := hhandle
  queued := by
    rw [hjournal, hsame.free]
    exact h.queued
  within r hr := by
    rw [hsame.slotCount]
    exact h.within r hr
  numbered := h.numbered

/-- A slot is taken, by a tenant with the number of those before it. -/
theorem taken (h : Tallies session refs given) {index : Nat} {payload : Payload}
    (hv : session.state.vacancy = .ok index)
    (hstate : after.state = session.state.occupy index payload)
    (hjournal : after.journal = .allocated payload.kind index :: session.journal)
    (hhandle : ∀ i, after.state.handle i = ⟨i, UInt32.ofNat (releases after i)⟩) :
    Tallies after (session.state.handle index :: refs) (session.state.handle index :: given) where
  listed := hstate ▸ h.listed.occupy hv payload
  balance i := by
    have hreleases : releases after i = releases session i := by
      rw [releases, hjournal, List.count_cons_of_ne (by simp)]
      rfl
    rw [tenants_cons, tenants_cons, h.balance, hreleases, Nat.add_assoc]
  handle := hhandle
  queued := by
    rw [hstate, hjournal, free_occupy]
    have htail := h.queued.tail h.listed.free_nodup
    exact @Queued.append _ _ htail [.allocated payload.kind index] (by simp)
  within r hr := by
    rw [hstate]
    rcases List.mem_cons.1 hr with rfl | hr
    · have hc := (contains_occupy hv payload (session.state.handle index)).2 (Or.inl rfl)
      exact (contains_iff.1 hc).1
    · exact (h.within r hr).trans_le (slotCount_le_occupy ..)
  numbered newer r older heq := by
    cases newer with
    | nil =>
      obtain ⟨rfl, rfl⟩ := List.cons.inj heq
      have hnone : tenants refs index = 0 := by
        rw [h.listed.tenants_eq, contains_handle_of_vacancy hv]
        rfl
      have hbalance := h.balance index
      rw [hnone, Nat.add_zero] at hbalance
      rw [h.handle, hbalance]
    | cons s newer => exact h.numbered newer r older (List.cons.inj heq).2

/-- The slots of the cells that go are vacated. -/
theorem swept (h : Tallies session refs given) (hswept : session.state.SweptTo refs after.state)
    (hjournal : after.journal =
      ((session.state.victims refs).map fun r => .freed r.index).reverse ++ session.journal)
    (hhandle : ∀ i, after.state.handle i = ⟨i, UInt32.ofNat (releases after i)⟩) :
    Tallies after (session.state.survivors refs) given where
  listed := hswept.listed
  balance i := by
    have hreleases : releases after i =
        releases session i + tenants (session.state.victims refs) i := by
      rw [releases_append hjournal, count_freed]
      rfl
    rw [h.balance, hreleases, ← tenants_survivors_add_victims session.state refs i]
    omega
  handle := hhandle
  queued := by
    rw [hjournal, hswept.free_eq]
    exact h.queued.freed _
  within r hr := by
    rw [hswept.slotCount h.listed]
    exact h.within r hr
  numbered := h.numbered

/-- **A command keeps the tally**, whether it succeeds or fails. -/
theorem act (h : Tallies session refs given) (command : Command) :
    ∃ refs', Tallies (command.act.after session) refs' (command.hand session given) := by
  have hhandle := h.handle_of_aged (command.ages session)
  cases command.turnover h.listed with
  | idle hhand hsame hjournal =>
    rw [hhand]
    exact ⟨_, h.idle hsame hjournal hhandle⟩
  | taken hv hrun hstate hjournal =>
    rw [Command.hand, hrun]
    exact ⟨_, h.taken hv hstate hjournal hhandle⟩
  | swept hswept hjournal => exact ⟨_, h.swept hswept hjournal hhandle⟩

/-- A run keeps it, and has as many slots as it had cells at most. -/
theorem carryOut (h : Tallies session refs given) (commands : List Command) :
    (∃ refs', Tallies (Heap.carryOut commands session) refs'
        (handedOut commands session given)) ∧
      (Heap.carryOut commands session).state.slotCount =
        max session.state.slotCount (peakCount commands session) := by
  induction commands generalizing session refs given with
  | nil =>
    have hcount := h.listed.count_add_length_free
    refine ⟨⟨refs, h⟩, ?_⟩
    show session.state.slotCount = max session.state.slotCount session.state.count
    omega
  | cons command commands ih =>
    obtain ⟨refs', h'⟩ := h.act command
    obtain ⟨htallies, hslots⟩ := ih h'
    refine ⟨htallies, ?_⟩
    have hstep := (command.turnover h.listed).slotCount h.listed
    have hcount := h.listed.count_add_length_free
    have hpeak := count_le_peakCount commands (command.act.after session)
    rw [peakCount]
    show (Heap.carryOut commands (command.act.after session)).state.slotCount = _
    omega

end Tallies

/-! ### What follows for the handles -/

theorem ofNat_eq_ofNat_iff (m n : Nat) :
    UInt32.ofNat m = UInt32.ofNat n ↔ m % UInt32.size = n % UInt32.size := by
  rw [← UInt32.toNat_inj, UInt32.toNat_ofNat', UInt32.toNat_ofNat']

/-- The arena and the handles of a heap, as they follow from the allocations that were made. -/
structure Accounted (session : Session Heap) (given : List Ref) (peak : Nat) : Prop where
  slotCount : session.state.slotCount = peak
  /-- The slot that the next allocation takes. -/
  takes : ∀ payload r after, allocate payload session = .ok r after →
    LastVacated session r.index ∨
      ((∀ i, ¬ session.state.Vacant i) ∧ r.index = session.state.slotCount)
  /-- It fails only if all slots are taken that can be numbered. -/
  granted : ∀ payload, (∃ i, session.state.Vacant i) ∨ session.state.slotCount < maxSlots →
    ∃ r after, allocate payload session = .ok r after
  /-- The generation of a handle is the number of the tenants of its slot before it. -/
  numbered : ∀ newer r older, given = newer ++ r :: older →
    r.generation.toNat = tenants older r.index % UInt32.size
  /-- All tenants of a slot were released, but for the one that is there. -/
  released : ∀ i, tenants given i = releases session i +
    if session.state.contains (session.state.handle i) then 1 else 0
  /-- A handle that was given out resolves if its slot is taken, and the number of the tenant
  that is there, who is the last of them, is that of the handle up to multiples of 2³². -/
  resolves : ∀ newer r older, given = newer ++ r :: older →
    (session.state.contains r = true ↔ ¬ session.state.Vacant r.index ∧
      ∃ n, tenants given r.index = n + 1 ∧
        n % UInt32.size = tenants older r.index % UInt32.size)
  /-- An allocation later on, after any other commands, answers the same handle as the next one
  if and only if it takes the same slot after so many releases of it. -/
  recurs : ∀ payload r mid, allocate payload session = .ok r mid →
    ∀ (commands : List Command) (payload' : Payload) (s : Ref) (after : Session Heap),
      allocate payload' (carryOut commands mid) = .ok s after →
      (s = r ↔ s.index = r.index ∧ ∃ k, 0 < k ∧
        releases (carryOut commands mid) r.index = releases mid r.index + k * UInt32.size)

namespace Tallies

theorem takes (h : Tallies session refs given) {payload : Payload} {r : Ref}
    (hok : allocate payload session = .ok r after) :
    LastVacated session r.index ∨
      ((∀ i, ¬ session.state.Vacant i) ∧ r.index = session.state.slotCount) := by
  obtain ⟨index, hv, rfl, -⟩ := allocate_eq_ok hok
  show LastVacated session index ∨ _
  rcases free_of_vacancy hv with ⟨hfree, rfl⟩ | hfree
  · refine Or.inr ⟨fun i hi => ?_, rfl⟩
    have hm := (h.listed.mem_free_iff i).2 hi
    rw [hfree] at hm
    exact List.not_mem_nil hm
  · have hqueued := h.queued
    rw [hfree] at hqueued
    obtain ⟨newer, older, hjournal, hnewer, -⟩ := hqueued
    have hmem : ∀ i, session.state.Vacant i → i ∈ index :: session.state.free.tail := by
      intro i hi
      rw [← hfree]
      exact (h.listed.mem_free_iff i).2 hi
    refine Or.inl ⟨?_, newer, older, hjournal, fun j hj hvacant => hnewer j (hmem j hvacant) hj⟩
    exact (h.listed.mem_free_iff index).1 (hfree ▸ List.mem_cons_self)

theorem granted (h : Tallies session refs given) (payload : Payload)
    (hroom : (∃ i, session.state.Vacant i) ∨ session.state.slotCount < maxSlots) :
    ∃ r after, allocate payload session = .ok r after := by
  obtain ⟨heap, journal, output⟩ := session
  rcases allocate_cases h.listed payload journal output with ⟨hv, -⟩ | ⟨index, -, hrun⟩
  · rcases hroom with ⟨i, hi⟩ | hroom
    · obtain ⟨index, rest, hfree⟩ := List.exists_cons_of_ne_nil
        (List.ne_nil_of_mem ((h.listed.mem_free_iff i).2 hi))
      rw [h.listed.vacancy_of_free hfree] at hv
      cases hv
    · exact absurd hroom (Nat.not_lt.2 (maxSlots_le_of_vacancy hv))
  · exact ⟨_, _, hrun⟩

theorem resolves (h : Tallies session refs given) {newer older : List Ref} {r : Ref}
    (hgiven : given = newer ++ r :: older) :
    session.state.contains r = true ↔ ¬ session.state.Vacant r.index ∧
      ∃ n, tenants given r.index = n + 1 ∧
        n % UInt32.size = tenants older r.index % UInt32.size := by
  have hwithin := h.within r (by simp [hgiven])
  have hhandle : session.state.handle r.index = r ↔
      releases session r.index % UInt32.size = tenants older r.index % UInt32.size := by
    rw [h.handle, ← ofNat_eq_ofNat_iff, ← h.numbered newer r older hgiven]
    exact ⟨congrArg Ref.generation, congrArg (Ref.mk r.index)⟩
  rw [contains_iff, and_iff_right hwithin, hhandle]
  refine and_congr_right fun hvacant => ?_
  have htaken : session.state.contains (session.state.handle r.index) = true :=
    contains_iff.2 ⟨hwithin, hvacant, rfl⟩
  have hbalance := h.balance r.index
  rw [h.listed.tenants_eq, if_pos htaken] at hbalance
  rw [hbalance]
  constructor
  · exact fun hsame => ⟨_, rfl, hsame⟩
  · rintro ⟨n, hn, hsame⟩
    rwa [Nat.succ.inj hn]

end Tallies

/-- **When a handle is given out again.** -/
theorem eq_iff_of_allocate {payload payload' : Payload} {r s : Ref} {mid : Session Heap}
    (hfirst : allocate payload session = .ok r mid) (commands : List Command)
    (hsecond : allocate payload' (carryOut commands mid) = .ok s after) :
    s = r ↔ s.index = r.index ∧ ∃ k, 0 < k ∧
      releases (carryOut commands mid) r.index = releases mid r.index + k * UInt32.size := by
  obtain ⟨index, hv, rfl, hmid⟩ := allocate_eq_ok hfirst
  obtain ⟨index', hv', rfl, -⟩ := allocate_eq_ok hsecond
  obtain ⟨records, hjournal, hages⟩ : ∃ records, (carryOut commands mid).journal =
      records ++ mid.journal ∧ mid.state.Ages records (carryOut commands mid).state :=
    ages_carryOut commands mid
  have hc : mid.state.contains (session.state.handle index) = true := by
    rw [hmid]
    exact (contains_occupy hv payload _).2 (Or.inl rfl)
  have hgone := contains_handle_of_vacancy hv'
  have hhandle : (carryOut commands mid).state.handle index =
      ⟨index, (session.state.handle index).generation +
        UInt32.ofNat (records.count (.freed index))⟩ := by
    have hsame : mid.state.handle index = session.state.handle index := (contains_iff.1 hc).2.2
    rw [hages.handle, hsame]
  show _ ↔ index' = index ∧ ∃ k, 0 < k ∧
    releases (carryOut commands mid) index = releases mid index + k * UInt32.size
  rw [releases_append hjournal]
  constructor
  · intro heq
    obtain rfl : index' = index := congrArg Ref.index heq
    rw [hhandle] at heq
    obtain ⟨k, hk⟩ := (generation_add_ofNat_eq_iff _ _).1 (congrArg Ref.generation heq)
    refine ⟨rfl, k, Nat.pos_of_ne_zero ?_, by rw [hk, Nat.mul_comm]⟩
    -- without a release the first of the two cells would still be there
    rintro rfl
    rw [hhandle, heq, hages.stays _ hc hk] at hgone
    cases hgone
  · rintro ⟨rfl, k, -, hk⟩
    have hdvd : UInt32.size ∣ records.count (.freed index') :=
      ⟨k, by rw [Nat.mul_comm]; exact Nat.add_left_cancel hk⟩
    rw [hhandle, (generation_add_ofNat_eq_iff _ _).2 hdvd]
    rfl

/-- **Every handle says which tenant of which slot it was given to.**  After any commands
whatever, and however they ended, there are as many slots as there were cells at most; the next
cell gets the slot that was vacated last among the vacant ones, or a new one; the generation of
a handle is the number of the tenants of the slot before it; and the same handle is given out
again, or resolves again, exactly after a multiple of 2³² releases of its slot. -/
theorem accounted_carryOut (commands : List Command) :
    Accounted (carryOut commands ⟨{}, [], ""⟩) (handedOut commands ⟨{}, [], ""⟩ [])
      (peakCount commands ⟨{}, [], ""⟩) := by
  obtain ⟨⟨refs, h⟩, hslots⟩ := Tallies.empty.carryOut commands
  refine ⟨hslots.trans (Nat.zero_max _), fun payload r after hok => h.takes hok, h.granted,
    fun newer r older heq => ?_, fun i => ?_, fun newer r older heq => h.resolves heq,
    fun payload r mid hfirst later payload' s after hsecond =>
      eq_iff_of_allocate hfirst later hsecond⟩
  · rw [h.numbered newer r older heq, UInt32.toNat_ofNat']
  · rw [h.balance, h.listed.tenants_eq]

/-- Two slots are vacated in one sweep, the newer cell's first, and taken again from the one
vacated last on. -/
example : handedOut [.allocate (.scalar 1), .allocate (.scalar 2), .allocate (.scalar 3),
    .mark ⟨1, 0⟩, .sweep, .allocate (.scalar 4), .allocate (.scalar 5), .allocate (.scalar 6)]
      ⟨{}, [], ""⟩ [] = [⟨3, 0⟩, ⟨2, 1⟩, ⟨0, 1⟩, ⟨2, 0⟩, ⟨1, 0⟩, ⟨0, 0⟩] := by
  decide +kernel

end Heap

end MarkSweep
