/-
# Requests for a cell

A request for a cell looks for room, takes a cell, and does with it what it was made
for.  `Machine.Serves` lists how that can end, for any request of this form
(`serves_of_claim`): refused for the object limit, without a slot in a full arena, or
granted.  Pushing a scalar and making a pair are the two requests there are
(`pushScalar_serves`, `makePair_serves`).

`Machine.Prepares` is the one point at which a collection may run in a request.
-/

import MarkSweep.Proofs.Machine.Room

namespace MarkSweep

namespace Machine

variable {machine after : Machine}

/-- The machine with a new scalar on top of the stack. -/
def pushed (machine : Machine) (value : Int64) (index : Nat) : Machine :=
  (machine.withCell index (.scalar value)).withRoots
    (machine.roots.toList ++ [machine.heap.handle index])

/-- The machine with a new pair on the stack in place of its two links. -/
def paired (machine : Machine) (rest : List Ref) (first second : Ref) (index : Nat) : Machine :=
  ((machine.withCell index (.zeroed .pair)).withLinks (machine.heap.handle index) first
    second).withRoots (rest ++ [machine.heap.handle index])

/-- The machine on which a request for a cell is served, and its journal: the one at
hand, or what a collection makes of it. -/
inductive Prepares (machine : Machine) (journal : List Record) (output : String) :
    Machine → List Record → Prop where
  | spare : ¬ machine.Due → Prepares machine journal output machine journal
  | collected {freed : List Ref} {after : Machine} : machine.Due → machine.Collects freed after →
      collect ⟨machine, journal, output⟩ =
        .ok ⟨machine.live.ncard, freed.length, machine.live.ncard, after.threshold⟩
          ⟨after, collectionRecords freed machine.live.ncard ++ journal, output⟩ →
      Prepares machine journal output after
        (collectionRecords freed machine.live.ncard ++ journal)

/-- The outcomes of a request for a cell: it is refused for the object limit, or the
arena is full, or it is granted and the machine finished with the new cell. -/
inductive Serves (request : Action Machine Ref) (kind : Kind) (finish : Machine → Nat → Machine)
    (machine : Machine) (journal : List Record) (output : String) : Prop where
  | refused {after : Machine} {journal' : List Record} {limit : Nat} :
      Prepares machine journal output after journal' → machine.Due →
      machine.settings.maxObjects = some limit → machine.live.ncard = limit →
      request ⟨machine, journal, output⟩ =
        .error (.heapExhausted limit limit) ⟨after, .limitReached limit limit :: journal', output⟩ →
      Serves request kind finish machine journal output
  | unplaced {after : Machine} {journal' : List Record} :
      Prepares machine journal output after journal' → machine.HasRoom →
      after.heap.vacancy = .error .outOfMemory →
      request ⟨machine, journal, output⟩ = .error .outOfMemory ⟨after, journal', output⟩ →
      Serves request kind finish machine journal output
  | granted {after : Machine} {journal' : List Record} {index : Nat} :
      Prepares machine journal output after journal' → machine.HasRoom →
      after.heap.vacancy = .ok index →
      request ⟨machine, journal, output⟩ = .ok (after.heap.handle index)
        ⟨finish after index, .allocated kind index :: journal', output⟩ →
      Serves request kind finish machine journal output

variable {journal journal' : List Record} {output : String}

theorem Prepares.keeps (h : machine.Prepares journal output after journal') :
    machine.Keeps after := by
  cases h with
  | spare => exact Keeps.refl machine
  | collected _ hcollects => exact hcollects.keeps

theorem Prepares.sound (h : machine.Prepares journal output after journal')
    (hs : machine.Sound) : after.Sound := by
  cases h with
  | spare => exact hs
  | collected _ hcollects => exact hcollects.sound hs

/-- On the machine on which a request is granted there are fewer cells than the object
limit allows. -/
theorem Prepares.count_lt (h : machine.Prepares journal output after journal')
    (hroom : machine.HasRoom) {limit : Nat} (hl : machine.settings.maxObjects = some limit) :
    after.count < limit := by
  cases h with
  | spare hdue =>
    rw [due_iff_of_some hl] at hdue
    omega
  | collected _ hcollects => exact hcollects.count.trans_lt (hroom limit hl)

theorem claim_cases (hs : machine.Sound) (payload : Payload) (journal : List Record)
    (output : String) :
    (machine.heap.vacancy = .error .outOfMemory ∧ claim payload ⟨machine, journal, output⟩ =
      .error .outOfMemory ⟨machine, journal, output⟩) ∨
    ∃ index, machine.heap.vacancy = .ok index ∧ claim payload ⟨machine, journal, output⟩ =
      .ok (machine.heap.handle index)
        ⟨machine.withCell index payload, .allocated payload.kind index :: journal, output⟩ := by
  obtain ⟨refs, hrefs⟩ := hs.heap.listed
  rcases Heap.allocate_cases hrefs payload journal output with ⟨hv, halloc⟩ | ⟨index, hv, halloc⟩
  · exact Or.inl ⟨hv, by simp [claim, onHeap_apply, halloc]⟩
  · exact Or.inr ⟨index, hv, by simp [claim, onHeap_apply, halloc, withCell]⟩

/-- A request that looks for room, takes a cell and goes on from there is served. -/
theorem serves_of_claim (hs : machine.Sound) (payload : Payload) (go : Ref → Action Machine Ref)
    {request : Action Machine Ref} {finish : Machine → Nat → Machine}
    (hrequest : request ⟨machine, journal, output⟩ =
      (makeRoom >>= fun _ => claim payload >>= go) ⟨machine, journal, output⟩)
    (hgo : ∀ (mid : Machine) (index : Nat) (journal' : List Record),
      mid.roots = machine.roots → mid.heap.vacancy = .ok index →
      go (mid.heap.handle index) ⟨mid.withCell index payload, journal', output⟩ =
        .ok (mid.heap.handle index) ⟨finish mid index, journal', output⟩) :
    Serves request payload.kind finish machine journal output := by
  have hserve : ∀ after journal', machine.Prepares journal output after journal' →
      machine.HasRoom → makeRoom ⟨machine, journal, output⟩ = .ok () ⟨after, journal', output⟩ →
      Serves request payload.kind finish machine journal output := by
    intro after journal' hprep hroom hmake
    rcases claim_cases (hprep.sound hs) payload journal' output with ⟨hv, hclaim⟩ |
      ⟨index, hv, hclaim⟩
    · refine .unplaced hprep hroom hv ?_
      simp only [hrequest, Action.bind_apply, hmake, hclaim]
    · refine .granted hprep hroom hv ?_
      simp only [hrequest, Action.bind_apply, hmake, hclaim, hgo after index _ hprep.keeps.roots hv]
  rcases makeRoom_cases hs journal output with ⟨hdue, hroom, hmake⟩ |
    ⟨freed, after, hdue, hcollects, hcollect, ⟨hroom, hmake⟩ | ⟨limit, hmax, hlive, hmake⟩⟩
  · exact hserve _ _ (.spare hdue) hroom hmake
  · exact hserve _ _ (.collected hdue hcollects hcollect) hroom hmake
  · refine .refused (.collected hdue hcollects hcollect) hdue hmax hlive ?_
    simp only [hrequest, Action.bind_apply, hmake]

theorem pushScalar_of_isFull (h : machine.roots.isFull = true) (value : Int64)
    (journal : List Record) (output : String) :
    pushScalar value ⟨machine, journal, output⟩ =
      .error (.fault .rootOverflow) ⟨machine, journal, output⟩ := by
  simp [pushScalar, h]

/-- A scalar is pushed by a request that is served. -/
theorem pushScalar_serves (hs : machine.Sound) (h : machine.roots.isFull = false) (value : Int64)
    (journal : List Record) (output : String) :
    Serves (pushScalar value) .scalar (fun mid index => mid.pushed value index) machine journal
      output := by
  refine serves_of_claim hs (.scalar value) (fun r => do
    onRoots (RootStack.push r)
    return r) ?_ ?_
  · simp [pushScalar, allocate, h]
  · intro mid index journal' hroots _
    have hfull : (mid.withCell index (.scalar value)).roots.isFull = false := by
      rw [← h, ← hroots]
      rfl
    simp only [Action.bind_apply, onRoots_push hfull, Action.pure_apply]
    rfl

theorem makePair_of_depth_lt (h : machine.depth < 2) (journal : List Record) (output : String) :
    makePair ⟨machine, journal, output⟩ =
      .error (.fault .rootUnderflow) ⟨machine, journal, output⟩ := by
  simp [makePair, Nat.le_of_lt_succ h]

/-- A stack of two roots or more, taken apart at the top. -/
theorem exists_roots_eq (h : 2 ≤ machine.depth) :
    ∃ rest second first, machine.roots.toList = rest ++ [second, first] := by
  rw [depth_eq] at h
  rcases List.eq_nil_or_concat machine.roots.toList with hnil | ⟨init, first, hinit⟩
  · rw [hnil] at h
    simp at h
  · rw [List.concat_eq_append] at hinit
    rcases List.eq_nil_or_concat init with rfl | ⟨rest, second, rfl⟩
    · rw [hinit] at h
      simp at h
    · exact ⟨rest, second, first, by simpa using hinit⟩

/-- A pair is made by a request that is served. -/
theorem makePair_serves (hs : machine.Sound) {rest : List Ref} {second first : Ref}
    (h : machine.roots.toList = rest ++ [second, first]) (journal : List Record)
    (output : String) :
    Serves makePair .pair (fun mid index => mid.paired rest first second index) machine journal
      output := by
  have hdepth : machine.depth = rest.length + 2 := by rw [depth_eq, h]; simp
  refine serves_of_claim hs (.zeroed .pair) (fun pair => do
    let first ← popRoot
    let second ← popRoot
    onHeap (Heap.setPair pair first second)
    onRoots (RootStack.push pair)
    return pair) ?_ ?_
  · simp [makePair, allocate, hdepth]
  · intro mid index journal' hroots hv
    have hfirst : (mid.withCell index (.zeroed .pair)).roots.toList =
        (rest ++ [second]) ++ [first] :=
      (congrArg RootStack.toList hroots).trans (h.trans (by simp))
    have hsecond : ((mid.withCell index (.zeroed .pair)).withRoots
        (rest ++ [second])).roots.toList = rest ++ [second] := roots_withRoots ..
    have hpair : (((mid.withCell index (.zeroed .pair)).withRoots (rest ++ [second])).withRoots
        rest).heap.payload? (mid.heap.handle index) = some (.pair none none) := by
      simp only [heap_withRoots, heap_withCell]
      rw [Heap.payload?_occupy hv, if_pos rfl]
      rfl
    have hfull : ((((mid.withCell index (.zeroed .pair)).withRoots (rest ++ [second])).withRoots
        rest).withLinks (mid.heap.handle index) first second).roots.isFull = false := by
      have hcap := hs.depth
      rw [← hs.capacity, ← hroots, hdepth] at hcap
      have hlt : rest.length < mid.roots.capacity := by omega
      exact decide_eq_false (Nat.not_le.2 hlt)
    simp only [Action.bind_apply, popRoot_eq_ok hfirst, popRoot_eq_ok hsecond,
      onHeap_setPair hpair, onRoots_push hfull, Action.pure_apply]
    rfl

/-! ### What a request that is granted leaves -/

theorem gains_pushed {index : Nat} (hv : machine.heap.vacancy = .ok index) (value : Int64) :
    machine.heap.Gains index (.scalar value) (machine.pushed value index).heap :=
  Heap.gains_occupy hv (.scalar value)

theorem gains_paired {index : Nat} (hv : machine.heap.vacancy = .ok index) (rest : List Ref)
    (first second : Ref) :
    machine.heap.Gains index (.pair (some first) (some second))
      (machine.paired rest first second index).heap :=
  Heap.gains_fill hv first second

/-- A pair that is made is linked to the two topmost roots. -/
theorem mem_roots_of_mem_edges {rest : List Ref} {second first s : Ref}
    (h : s ∈ (Payload.pair (some first) (some second)).edges) : s ∈ rest ++ [second, first] := by
  rcases Payload.mem_edges_iff.1 h with h | h
  · obtain rfl := Option.some.inj h
    simp
  · obtain rfl := Option.some.inj h
    simp

/-- A request that answers a handle was granted. -/
theorem Serves.granted_of_ok {request : Action Machine Ref} {kind : Kind}
    {finish : Machine → Nat → Machine} {session : Session Machine} {r : Ref}
    (h : Serves request kind finish machine journal output)
    (hok : request ⟨machine, journal, output⟩ = .ok r session) :
    ∃ mid journal' index, machine.Prepares journal output mid journal' ∧
      mid.heap.vacancy = .ok index ∧ r = mid.heap.handle index ∧
      session = ⟨finish mid index, .allocated kind index :: journal', output⟩ := by
  cases h with
  | refused _ _ _ _ hrequest =>
    rw [hrequest] at hok
    cases hok
  | unplaced _ _ _ hrequest =>
    rw [hrequest] at hok
    cases hok
  | @granted mid journal' index hprep _ hv hrequest =>
    rw [hrequest] at hok
    cases hok
    exact ⟨mid, journal', index, hprep, hv, rfl, rfl⟩

theorem Sound.pushed (h : machine.Sound) {value : Int64} {index : Nat}
    (hv : machine.heap.vacancy = .ok index) (hfull : machine.roots.isFull = false)
    (hlimit : ∀ limit, machine.settings.maxObjects = some limit → machine.count < limit) :
    (machine.pushed value index).Sound := by
  refine (h.withCell hv rfl hlimit).withRoots (fun r hr => ?_) ?_
  · rw [heap_withCell, Heap.contains_occupy hv]
    rcases List.mem_append.1 hr with hr | hr
    · exact Or.inr (h.roots r hr)
    · exact Or.inl (List.mem_singleton.1 hr)
  · exact h.length_le_of_not_isFull hfull

theorem Sound.paired (h : machine.Sound) {rest : List Ref} {first second : Ref} {index : Nat}
    (hroots : machine.roots.toList = rest ++ [second, first])
    (hv : machine.heap.vacancy = .ok index)
    (hlimit : ∀ limit, machine.settings.maxObjects = some limit → machine.count < limit) :
    (machine.paired rest first second index).Sound := by
  have hold : ∀ r ∈ rest ++ [second, first],
      (machine.heap.occupy index (.zeroed .pair)).contains r = true := fun r hr =>
    (Heap.contains_occupy hv _ r).2 (Or.inr (h.roots r (hroots ▸ hr)))
  have hnew : (machine.heap.occupy index (.zeroed .pair)).contains (machine.heap.handle index) =
      true := (Heap.contains_occupy hv _ _).2 (Or.inl rfl)
  refine ((h.withCell hv rfl hlimit).withLinks hnew (hold first (by simp))
    (hold second (by simp))).withRoots (fun r hr => ?_) ?_
  · rw [heap_withLinks, heap_withCell, Heap.contains_fill]
    rcases List.mem_append.1 hr with hr | hr
    · exact hold r (List.mem_append_left _ hr)
    · rw [List.mem_singleton.1 hr]
      exact hnew
  · have hdepth := h.depth
    rw [depth_eq, hroots, List.length_append] at hdepth
    rw [List.length_append]
    exact (Nat.add_le_add_left (Nat.le_succ 1) _).trans hdepth

end Machine

end MarkSweep
