/-
# Exhaustion

With an object limit, a request for a cell is refused exactly when as many cells are live
as the limit allows.  The threshold and the garbage that waits to be collected do not
matter: a request is refused on a count that a collection has just brought down to the
live cells.

A refusal costs a program nothing but that collection (`Machine.Exhausts`), and a request
that is granted leaves no more cells than the limit (`Reached.enforces_limit`).
-/

import MarkSweep.Proofs.Machine.Effects
import MarkSweep.Proofs.Machine.Trimming

namespace MarkSweep

namespace Machine

variable {machine after : Machine} {journal journal' : List Record} {output : String}

theorem Prepares.slotCount (h : machine.Prepares journal output after journal') :
    after.heap.slotCount = machine.heap.slotCount := by
  cases h with
  | spare => rfl
  | collected _ hcollects => exact hcollects.slotCount

/-- What a refusal leaves: the program's part as it was, and of the rest what one collection
makes of it, with a record of the limit. -/
structure Exhausts (limit : Nat) (before after : Session Machine) : Prop where
  trims : before.state.Trims after.state
  live : after.state.live = before.state.live
  totals : after.state.totals = ⟨before.state.totals.collections + 1,
    before.state.totals.allocated,
    before.state.totals.collected + (before.state.count - before.state.live.ncard)⟩
  once : ∃ stats mid, collect before = .ok stats mid ∧
    after = ⟨mid.state, .limitReached limit limit :: mid.journal, mid.output⟩

/-- How a request for a cell ends under an object limit. -/
structure Enforces (limit : Nat) (request : Action Machine Ref) (session : Session Machine) :
    Prop where
  finite : session.state.live.Finite
  exhausted_iff : (∃ live bound, request.failure? session = some (.heapExhausted live bound)) ↔
    limit ≤ session.state.live.ncard
  exhausted : ∀ live bound after, request session = .error (.heapExhausted live bound) after →
    live = limit ∧ bound = limit ∧ Exhausts limit session after
  /-- There is no other reason to refuse, as long as the arena can grow. -/
  granted : session.state.live.ncard < limit → session.state.heap.slotCount < Heap.maxSlots →
    ∃ r after, request session = .ok r after
  count : ∀ r after, request session = .ok r after → after.state.count ≤ limit

/-- A collection that a refusal is based on. -/
theorem Prepares.exhausts {limit : Nat} (h : machine.Prepares journal output after journal')
    (hs : machine.Sound) (hdue : machine.Due) :
    Exhausts limit ⟨machine, journal, output⟩
      ⟨after, .limitReached limit limit :: journal', output⟩ := by
  cases h with
  | spare hspare => exact absurd hdue hspare
  | @collected freed _ _ hcollects hcollect =>
    have hfreed : freed.length = machine.count - machine.live.ncard :=
      (hcollects.reports hs).collected
    refine ⟨hcollects.trims hs, hcollects.live, ?_, _, _, hcollect, rfl⟩
    show after.totals = _
    rw [hcollects.totals, hfreed]

section Outcomes

variable {request : Action Machine Ref} {session session' : Session Machine} {limit : Nat}

theorem enforces_of_exhausted (hfinite : session.state.live.Finite)
    (hfull : session.state.live.ncard = limit)
    (h : request session = .error (.heapExhausted limit limit) session')
    (hexhausts : Exhausts limit session session') : Enforces limit request session where
  finite := hfinite
  exhausted_iff := iff_of_true ⟨_, _, Action.failure?_of_error h⟩ hfull.ge
  exhausted live bound after herror := by
    rw [h] at herror
    cases herror
    exact ⟨rfl, rfl, hexhausts⟩
  granted hroom := absurd hfull hroom.ne
  count r after hok := by
    rw [h] at hok
    cases hok

theorem enforces_of_outOfMemory (hfinite : session.state.live.Finite)
    (hroom : session.state.live.ncard < limit)
    (hslots : Heap.maxSlots ≤ session.state.heap.slotCount)
    (h : request session = .error .outOfMemory session') : Enforces limit request session where
  finite := hfinite
  exhausted_iff := by
    refine iff_of_false ?_ (Nat.not_le.2 hroom)
    rintro ⟨live, bound, hfail⟩
    rw [Action.failure?_of_error h] at hfail
    cases hfail
  exhausted live bound after herror := by
    rw [h] at herror
    cases herror
  granted _ hgrows := absurd hgrows (Nat.not_lt.2 hslots)
  count r after hok := by
    rw [h] at hok
    cases hok

theorem enforces_of_ok {r : Ref} (hfinite : session.state.live.Finite)
    (hroom : session.state.live.ncard < limit) (h : request session = .ok r session')
    (hcount : session'.state.count ≤ limit) : Enforces limit request session where
  finite := hfinite
  exhausted_iff := by
    refine iff_of_false ?_ (Nat.not_le.2 hroom)
    rintro ⟨live, bound, hfail⟩
    rw [Action.failure?_of_ok h] at hfail
    cases hfail
  exhausted live bound after herror := by
    rw [h] at herror
    cases herror
  granted _ _ := ⟨_, _, h⟩
  count r' after hok := by
    rw [h] at hok
    cases hok
    exact hcount

end Outcomes

/-- A request that is served, and adds one cell if it is granted, keeps to the limit. -/
theorem Serves.enforces {request : Action Machine Ref} {kind : Kind}
    {finish : Machine → Nat → Machine} {limit : Nat} (hs : machine.Sound)
    (hmax : machine.settings.maxObjects = some limit)
    (h : Serves request kind finish machine journal output)
    (hadds : ∀ (mid : Machine) (index : Nat), mid.Sound → mid.roots = machine.roots →
      mid.heap.vacancy = .ok index → mid.Adds index (finish mid index)) :
    Enforces limit request ⟨machine, journal, output⟩ := by
  cases h with
  | @refused after journal' bound hprep hdue hbound hlive hrequest =>
    obtain rfl : limit = bound := Option.some.inj (hmax.symm.trans hbound)
    exact enforces_of_exhausted hs.finite_live hlive hrequest (hprep.exhausts hs hdue)
  | unplaced hprep hroom hv hrequest =>
    have hslots := Heap.maxSlots_le_of_vacancy hv
    rw [hprep.slotCount] at hslots
    exact enforces_of_outOfMemory hs.finite_live (hroom limit hmax) hslots hrequest
  | @granted mid journal' index hprep hroom hv hrequest =>
    have hcount := (hadds mid index (hprep.sound hs) hprep.keeps.roots hv).count
    exact enforces_of_ok hs.finite_live (hroom limit hmax) hrequest
      (hcount.trans_le (hprep.count_lt hroom hmax))

end Machine

open Machine

variable {settings : Settings} {session : Session Machine}

/-- **A request is refused exactly when the live cells fill the limit.**  That holds at every
point of every run and for every request whose demand on the root stack is met, whatever the
threshold and the garbage: the refusal says so, and costs one collection; a request that is
granted leaves no more cells than the limit. -/
theorem Reached.enforces_limit (h : Reached settings session) {limit : Nat}
    (hmax : settings.maxObjects = some limit) {request : Action Machine Ref}
    (hasks : session.state.Asks request) : Enforces limit request session := by
  obtain ⟨hs, rfl⟩ := h.sound
  obtain ⟨machine, journal, output⟩ := session
  obtain ⟨kind, finish, hserves, hadds⟩ := hasks.serves hs journal output
  exact hserves.enforces hs hmax hadds

/-- A machine for two cells that made two, dropped one of them, and made a third. -/
def crowded : Session Machine :=
  Operation.performAll [.pushScalar 1, .pushScalar 2, .popRoot, .pushScalar 3]
    ⟨initial { maxObjects := some 2 }, [], ""⟩

/-- The third cell took the place of the second, a fourth is refused, and the two that are
live are what fills the machine. -/
theorem crowded_exhausted : crowded.state.Asks (pushScalar 4) ∧ 2 ≤ crowded.state.live.ncard ∧
    ∃ after, pushScalar 4 crowded = .error (.heapExhausted 2 2) after ∧
      Exhausts 2 crowded after := by
  have hreached : Reached { maxObjects := some 2 } crowded :=
    reached_performAll (by decide) ⟨trivial, trivial, trivial, trivial, trivial⟩
  have hasks : crowded.state.Asks (pushScalar 4) := .pushScalar 4 (by decide +kernel)
  have henforces := Reached.enforces_limit hreached rfl hasks
  have hfails : (pushScalar 4).failure? crowded = some (.heapExhausted 2 2) := by decide +kernel
  obtain ⟨after, hresult⟩ := Action.failure?_eq_some_iff.1 hfails
  obtain ⟨-, -, hexhausts⟩ := henforces.exhausted _ _ _ hresult
  exact ⟨hasks, henforces.exhausted_iff.1 ⟨_, _, hfails⟩, after, hresult, hexhausts⟩

end MarkSweep
