/-
# Cells that nobody fills

A program that keeps to the operations of the machine never fills a pair itself: a pair is made
with both its links, which are roots at that time.  So links lead to older cells, in every state
between two operations, and the cells make no cycle.

Nothing else is done to a cell either, until a collection frees it.  `Machine.Endures` says
that of a cell, over all that a program does later on.  A request does pass through states that
a program never sees, with a pair that is yet to be filled; but that pair is the new cell of the
request and no other, whatever slot it is put into.

What an operation makes of the heap is a collection or none, and then a new cell or none
(`Operation.develops`).  Both statements follow from that by induction on the run
(`Operation.performAll_immutable`).
-/

import MarkSweep.Proofs.Machine.Grants
import MarkSweep.Proofs.Machine.Triggers
import MarkSweep.Proofs.Heap.Seniority

namespace MarkSweep

/-- The operations of the machine itself. -/
def Operation.Public : Operation → Prop
  | .setPair _ _ _ => False
  | _ => True

namespace Machine

variable {machine mid after : Machine} {journal journal' : List Record} {output : String}
  {session : Session Machine} {r : Ref} {payload : Payload}

/-- The cell of a handle was garbage, and a collection freed it. -/
structure Frees (before : Machine) (r : Ref) (after : Machine) : Prop where
  collected : after.totals.collections = before.totals.collections + 1
  garbage : r ∉ before.live
  gone : after.heap.contains r = false

/-- A cell is there and stays as it is, through all these operations or up to the one that
frees it. -/
def Endures (r : Ref) (payload : Payload) : List Operation → Session Machine → Prop
  | [], session => session.state.heap.payload? r = some payload
  | op :: ops, session => session.state.heap.payload? r = some payload ∧
      (session.state.Frees r (op.act.after session).state ∨
        Endures r payload ops (op.act.after session))

/-- The machine after a collection, if one has run. -/
inductive Clears (session : Session Machine) : Machine → Prop where
  | idle : Clears session session.state
  | collected {freed : List Ref} {stats : Collection} {after : Session Machine} :
      session.state.Collects freed after.state → collect session = .ok stats after →
      Clears session after.state

/-- A new cell is on the machine.  It is linked to cells that there were, and its handle did
not resolve when the operation began. -/
structure Grows (before mid : Machine) (index : Nat) (payload : Payload) (after : Machine) :
    Prop where
  gains : mid.heap.Gains index payload after.heap
  filled : payload.Filled
  edges : ∀ s ∈ payload.edges, mid.heap.contains s = true
  fresh : before.heap.contains (mid.heap.handle index) = false

/-- What an operation that fills no pair does to the cells: it may collect, and then it may add
one. -/
structure Develops (session : Session Machine) (mid after : Machine) : Prop where
  clears : Clears session mid
  collections : after.totals.collections = mid.totals.collections
  cells : after.heap = mid.heap ∨ ∃ index payload, session.state.Grows mid index payload after

theorem Prepares.clears (h : machine.Prepares journal output mid journal') :
    Clears ⟨machine, journal, output⟩ mid := by
  cases h with
  | spare => exact .idle
  | collected _ hcollects hcollect => exact .collected hcollects hcollect

theorem Clears.sound (h : Clears session mid) (hs : session.state.Sound) : mid.Sound := by
  cases h with
  | idle => exact hs
  | collected hcollects => exact hcollects.sound hs

/-- A collection keeps the order of age. -/
theorem Clears.backward (h : Clears session mid) (hs : session.state.Sound)
    (hb : session.state.heap.Backward) : mid.heap.Backward := by
  cases h with
  | idle => exact hb
  | collected hcollects hcollect =>
    obtain ⟨refs, hrefs⟩ := hs.heap.listed
    obtain ⟨keep, hkept⟩ := collect_listed hs hrefs hcollect
    refine hb.filter hrefs hkept hcollects.heap.whole fun r payload hp => ?_
    rw [← hp]
    refine (hcollects.kept r ?_).symm
    exact (hcollects.contains_iff hs).1 (Heap.contains_iff_payload?.2 ⟨payload, hp⟩)

/-- A collection frees a cell or leaves it as it is. -/
theorem Clears.spares (h : Clears session mid) (hs : session.state.Sound)
    (hp : session.state.heap.payload? r = some payload) :
    mid.heap.payload? r = some payload ∨ session.state.Frees r mid := by
  cases h with
  | idle => exact Or.inl hp
  | collected hcollects =>
    by_cases hlive : r ∈ session.state.live
    · exact Or.inl ((hcollects.kept r hlive).trans hp)
    · refine Or.inr ⟨congrArg Totals.collections hcollects.totals, hlive, ?_⟩
      exact Bool.eq_false_iff.2 fun hc => hlive ((hcollects.contains_iff hs).1 hc)

/-- An operation that fills no pair keeps the order of age. -/
theorem Develops.backward (h : Develops session mid after) (hs : session.state.Sound)
    (hb : session.state.heap.Backward) : after.heap.Backward := by
  have hmid := h.clears.backward hs hb
  rcases h.cells with hsame | ⟨index, payload, hgrows⟩
  · rwa [hsame]
  · obtain ⟨refs, hrefs⟩ := (h.clears.sound hs).heap.listed
    exact hmid.gains hrefs hgrows.gains hgrows.filled hgrows.edges

/-- It frees a cell or leaves it as it is. -/
theorem Develops.spares (h : Develops session mid after) (hs : session.state.Sound)
    (hp : session.state.heap.payload? r = some payload) :
    after.heap.payload? r = some payload ∨ session.state.Frees r after := by
  -- the cell is none that the operation adds, whatever becomes of its slot
  have hkeep : after.heap.payload? r = mid.heap.payload? r := by
    rcases h.cells with hsame | ⟨index, held, hgrows⟩
    · rw [hsame]
    · rw [hgrows.gains.payload?, if_neg]
      rintro rfl
      have hc := Heap.contains_iff_payload?.2 ⟨payload, hp⟩
      rw [hgrows.fresh] at hc
      cases hc
  rcases h.clears.spares hs hp with hmid | hfrees
  · exact Or.inl (hkeep.trans hmid)
  · refine Or.inr ⟨h.collections.trans hfrees.collected, hfrees.garbage, ?_⟩
    rw [Heap.contains_eq_of_payload? hkeep]
    exact hfrees.gone

/-- A request develops the heap, if finishing it adds a cell that is made of roots. -/
theorem Serves.develops {request : Action Machine Ref} {kind : Kind}
    {finish : Machine → Nat → Machine} (hs : machine.Sound)
    (h : Serves request kind finish machine journal output)
    (hbooks : ∀ (mid : Machine) (index : Nat),
      (finish mid index).totals.collections = mid.totals.collections)
    (hfinish : ∀ (mid : Machine) (index : Nat), mid.heap.vacancy = .ok index →
      ∃ payload, mid.heap.Gains index payload (finish mid index).heap ∧ payload.Filled ∧
        ∀ s ∈ payload.edges, s ∈ machine.roots.toList) :
    ∃ mid, Develops ⟨machine, journal, output⟩ mid
      (request.after ⟨machine, journal, output⟩).state := by
  cases h with
  | refused hprep _ _ _ hrequest =>
    rw [Action.after_of_error hrequest]
    exact ⟨_, hprep.clears, rfl, Or.inl rfl⟩
  | unplaced hprep _ _ hrequest =>
    rw [Action.after_of_error hrequest]
    exact ⟨_, hprep.clears, rfl, Or.inl rfl⟩
  | @granted mid journal' index hprep _ hv hrequest =>
    rw [Action.after_of_ok hrequest]
    obtain ⟨payload, hgains, hfilled, hedges⟩ := hfinish mid index hv
    refine ⟨mid, hprep.clears, hbooks mid index, Or.inr ⟨index, payload, hgains, hfilled,
      fun s hm => (hprep.sound hs).roots s ?_, hprep.not_contains_handle hs hv⟩⟩
    rw [hprep.keeps.roots]
    exact hedges s hm

theorem Asks.develops {request : Action Machine Ref} (h : machine.Asks request)
    (hs : machine.Sound) (journal : List Record) (output : String) :
    ∃ mid, Develops ⟨machine, journal, output⟩ mid
      (request.after ⟨machine, journal, output⟩).state := by
  cases h with
  | pushScalar value hfull =>
    exact (pushScalar_serves hs hfull value journal output).develops hs (fun _ _ => rfl)
      fun mid index hv => ⟨_, gains_pushed hv value, trivial, fun s hm =>
        absurd hm List.not_mem_nil⟩
  | makePair hdepth =>
    obtain ⟨rest, second, first, hroots⟩ := exists_roots_eq hdepth
    refine (makePair_serves hs hroots journal output).develops hs (fun _ _ => rfl)
      fun mid index hv => ⟨_, gains_paired hv rest first second, ⟨rfl, rfl⟩, fun s hm => ?_⟩
    rw [hroots]
    exact mem_roots_of_mem_edges hm

end Machine

namespace Operation

open Machine

variable {op : Operation} {machine after : Machine} {session : Session Machine}

theorem Public.resolves (h : op.Public) : op.Resolves machine := by
  cases op with
  | setPair => exact h.elim
  | _ => trivial

/-- Pushing and popping roots leaves the heap alone. -/
theorem Effect.heap_eq (h : op.Effect machine after) (hpublic : op.Public)
    (hallocates : ¬ op.Allocates) (hcollect : op ≠ .collect) : after.heap = machine.heap := by
  cases h with
  | none => rfl
  | rooted => rfl
  | unrooted => rfl
  | filled => exact hpublic.elim
  | collected => exact absurd rfl hcollect
  | denied hrequest => exact absurd hrequest hallocates
  | granted hrequest => exact absurd hrequest hallocates

/-- What a public operation makes of the heap: a collection or none, and then a new cell or
none. -/
theorem develops (hs : session.state.Sound) (h : op.Public) :
    ∃ mid, Develops session mid (op.act.after session).state := by
  by_cases hadmitted : op.Admitted session.state
  · obtain ⟨request, hasks, hact⟩ := hadmitted.exists_asks
    rw [hact, Action.after_map]
    exact hasks.develops hs session.journal session.output
  by_cases hcollect : op = .collect
  · subst hcollect
    obtain ⟨freed, after, hcollects, hrun⟩ := collect_eq_ok hs session.journal session.output
    rw [act, Action.after_map, Action.after_of_ok hrun]
    exact ⟨_, .collected hcollects hrun, rfl, Or.inl rfl⟩
  · have hidles := idles hs h.resolves hadmitted hcollect
    refine ⟨_, .idle, congrArg Totals.collections hidles.totals, Or.inl ?_⟩
    by_cases hallocates : op.Allocates
    · rw [after_eq_of_not_admitted hallocates hadmitted]
    · exact (effect hs h.resolves).heap_eq h hallocates hcollect

end Operation

namespace Machine

variable {session : Session Machine} {r : Ref} {payload : Payload}

/-- What a request answers is a cell when the request is finished. -/
theorem Asks.contains {request : Action Machine Ref} {after : Session Machine}
    (h : session.state.Asks request) (hs : session.state.Sound)
    (hok : request session = .ok r after) : after.state.heap.contains r = true := by
  cases h with
  | pushScalar => exact (pushScalar_grants hs hok).contains
  | makePair =>
    obtain ⟨rest, second, first, -, hgrants⟩ := makePair_grants hs hok
    exact hgrants.contains

/-- A cell stays as it is until it is freed, whatever a program does that fills no pair. -/
theorem endures (hs : session.state.Sound) (hp : session.state.heap.payload? r = some payload)
    {ops : List Operation} (hops : ∀ op ∈ ops, op.Public) : Endures r payload ops session := by
  induction ops generalizing session with
  | nil => exact hp
  | cons op ops ih =>
    have hop := hops op List.mem_cons_self
    obtain ⟨mid, hdevelops⟩ := Operation.develops hs hop
    refine ⟨hp, ?_⟩
    rcases hdevelops.spares hs hp with hkept | hfrees
    · exact Or.inr (ih (Operation.sound_after hs hop.resolves) hkept fun op hm =>
        hops op (List.mem_cons_of_mem _ hm))
    · exact Or.inl hfrees

/-- A run of public operations keeps the order of age. -/
theorem backward_performAll (hs : session.state.Sound) (hb : session.state.heap.Backward)
    {ops : List Operation} (hops : ∀ op ∈ ops, op.Public) :
    (Operation.performAll ops session).state.Sound ∧
      (Operation.performAll ops session).state.heap.Backward := by
  induction ops generalizing session with
  | nil => exact ⟨hs, hb⟩
  | cons op ops ih =>
    have hop := hops op List.mem_cons_self
    obtain ⟨mid, hdevelops⟩ := Operation.develops hs hop
    exact ih (Operation.sound_after hs hop.resolves) (hdevelops.backward hs hb) fun op hm =>
      hops op (List.mem_cons_of_mem _ hm)

/-- What a program that fills no pair can rely on, between any two of its operations. -/
structure Immutable (session : Session Machine) : Prop where
  /-- The allocation list holds every cell once. -/
  nodup : session.state.heap.handles.Nodup
  mem_handles : ∀ r, r ∈ session.state.heap.handles ↔ session.state.heap.contains r = true
  filled : ∀ r payload, session.state.heap.payload? r = some payload → payload.Filled
  /-- What a cell is linked to is on the allocation list, and further down. -/
  older : ∀ r s, session.state.heap.Links r s → [r, s].Sublist session.state.heap.handles
  acyclic : ∀ r, ¬ Relation.TransGen session.state.heap.Links r r
  /-- What a request answers is a cell. -/
  answers : ∀ request, session.state.Asks request → ∀ r after, request session = .ok r after →
    after.state.heap.contains r = true
  /-- A cell stays as it is until it is freed, whatever the program does from here on. -/
  endures : ∀ r payload, session.state.heap.payload? r = some payload →
    ∀ ops : List Operation, (∀ op ∈ ops, op.Public) → Endures r payload ops session

end Machine

open Machine

/-- **Cells do not change, and links lead to older cells only.**  In every run that consists of
public operations, whether they succeed or fail, every pair is filled at any time, and there is
no cycle; a cell keeps its payload, under its handle, until a collection frees it. -/
theorem Operation.performAll_immutable {settings : Settings} {machine : Machine}
    (hcreate : Machine.create settings = .ok machine) {ops : List Operation}
    (hops : ∀ op ∈ ops, op.Public) : Immutable (performAll ops ⟨machine, [], ""⟩) := by
  obtain ⟨haccepted, rfl⟩ := create_eq_ok_iff.1 hcreate
  obtain ⟨hs, hb⟩ := @backward_performAll ⟨initial settings, [], ""⟩
    (sound_initial haccepted) Heap.backward_empty ops hops
  obtain ⟨refs, hrefs⟩ := hs.heap.listed
  have hhandles := hrefs.handles_eq
  refine ⟨hhandles ▸ hrefs.nodup, fun r => ?_, hb.filled, hb.older, hb.acyclic hrefs,
    fun request hasks r after hok => hasks.contains hs hok,
    fun r payload hp later hlater => endures hs hp hlater⟩
  rw [hhandles]
  exact hrefs.mem_iff

/-- A pair of two scalars that were older than it before it took a lower slot than theirs. -/
def recycled : List Operation :=
  [.pushScalar 1, .popRoot, .pushScalar 2, .pushScalar 3, .collect, .makePair]

/-- It stands in front of them on the list, and stays as it is through the next collection, up
to the one after it is dropped. -/
theorem recycled_immutable :
    [⟨0, 1⟩, ⟨2, 0⟩].Sublist
        (Operation.performAll recycled ⟨initial {}, [], ""⟩).state.heap.handles ∧
      Endures ⟨0, 1⟩ (.pair (some ⟨2, 0⟩) (some ⟨1, 0⟩)) [.collect, .popRoot, .collect]
        (Operation.performAll recycled ⟨initial {}, [], ""⟩) := by
  have hcreate : create {} = .ok (initial {}) := create_eq_ok_iff.2 ⟨by decide, rfl⟩
  have hpublic : ∀ op ∈ recycled, op.Public := by simp [recycled, Operation.Public]
  have himmutable := Operation.performAll_immutable hcreate hpublic
  have hpair : (Operation.performAll recycled ⟨initial {}, [], ""⟩).state.heap.payload? ⟨0, 1⟩ =
      some (.pair (some ⟨2, 0⟩) (some ⟨1, 0⟩)) := by decide +kernel
  exact ⟨himmutable.older _ _ ⟨_, hpair, List.mem_cons_self⟩,
    himmutable.endures _ _ hpair _ (by simp [Operation.Public])⟩

end MarkSweep
