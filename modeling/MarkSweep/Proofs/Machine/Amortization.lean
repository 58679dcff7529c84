/-
# What collecting costs in the long run

A collection examines every cell there is.  Where the threshold is at least twice what
survived, the cells examined by the collections that requests start are paid for by the
cells allocated, at two for one (`Trail.examined_le`).

What carries this is a reserve (`Machine.Solvent`).  A new cell puts by two, one for itself
and one for a cell that survived before it; on the threshold that pays for a collection, and
what the collection leaves is at most half of the next threshold.  A collection that the
program asks for is not charged, and leaves a reserve all the same.
-/

import MarkSweep.Proofs.Machine.Footprint

namespace MarkSweep

namespace Settings

variable {settings : Settings} {live : Nat}

/-- A threshold of 64 bits is enough to grow by a factor of two or more, for as many cells as
32 bits can number. -/
theorem two_mul_le_thresholdAfter (hgrowth : 2 ≤ settings.growthFactor)
    (hlive : live ≤ Heap.maxSlots) : 2 * live ≤ settings.thresholdAfter live := by
  refine mul_le_thresholdAfter hgrowth ?_
  calc 2 * live ≤ 2 * Heap.maxSlots := Nat.mul_le_mul_left _ hlive
    _ ≤ UInt64.size - 1 := by decide

theorem lt_thresholdAfter (haccepted : settings.rejected? = none)
    (hgrowth : 2 ≤ settings.growthFactor) (hlive : live ≤ Heap.maxSlots) :
    live < settings.thresholdAfter live := by
  have hpos := one_le_thresholdAfter haccepted live
  have htwice := two_mul_le_thresholdAfter hgrowth hlive
  omega

end Settings

instance : DecidablePred Operation.Allocates := fun op =>
  match op with
  | .pushScalar _ | .makePair => isTrue trivial
  | .pushRoot _ | .popRoot | .collect | .setPair .. => isFalse id

/-- The turn is a request for a cell that started a collection. -/
def Turn.Automatic (turn : Turn) : Prop :=
  turn.op.Allocates ∧
    turn.session.state.totals.collections < turn.after.state.totals.collections

instance (turn : Turn) : Decidable turn.Automatic :=
  inferInstanceAs (Decidable (_ ∧ _))

/-- The cells examined by the collections that requests started in a run.  A request collects
before it does anything else, so these are the cells that it found. -/
def examined (past : List Turn) : Nat :=
  ((past.filter (·.Automatic)).map fun turn => turn.session.state.count).sum

theorem examined_cons_of_automatic {turn : Turn} (h : turn.Automatic) (past : List Turn) :
    examined (turn :: past) = examined past + turn.session.state.count := by
  simp [examined, h, Nat.add_comm]

theorem examined_cons_of_not_automatic {turn : Turn} (h : ¬ turn.Automatic)
    (past : List Turn) : examined (turn :: past) = examined past := by
  simp [examined, h]

namespace Machine

/-- A machine that has paid for what was spent, with two for each cell that was allocated, and
has put by what a collection on the threshold will cost. -/
structure Solvent (spent : Nat) (machine : Machine) : Prop where
  count_le : machine.count ≤ machine.threshold
  paid : spent ≤ 2 * machine.totals.allocated
  reserve : spent + 2 * machine.count ≤ 2 * machine.totals.allocated + machine.threshold

variable {machine mid after : Machine} {spent : Nat}

theorem solvent_initial (settings : Settings) : (initial settings).Solvent 0 where
  count_le := Nat.zero_le _
  paid := Nat.zero_le _
  reserve := Nat.zero_le _

/-- On the threshold a collection can be paid for. -/
theorem Solvent.pays (h : machine.Solvent spent) (hdue : machine.threshold ≤ machine.count) :
    machine.count = machine.threshold ∧
      spent + machine.count ≤ 2 * machine.totals.allocated := by
  obtain ⟨hcount, -, hreserve⟩ := h
  omega

theorem Solvent.adds {index : Nat} (h : machine.Solvent spent)
    (hroom : machine.count < machine.threshold) (hadds : machine.Adds index after) :
    after.Solvent spent := by
  obtain ⟨-, hpaid, hreserve⟩ := h
  have hcount := hadds.count
  have hthreshold := hadds.threshold
  have hallocated : after.totals.allocated = machine.totals.allocated + 1 :=
    congrArg Totals.allocated hadds.totals
  exact ⟨by omega, by omega, by omega⟩

/-- A sound machine whose threshold is to be twice the survivors at least, and that has no
more slots than can be numbered. -/
structure Doubles (machine : Machine) : Prop where
  sound : machine.Sound
  growth : 2 ≤ machine.settings.growthFactor
  numbered : machine.heap.slotCount ≤ Heap.maxSlots

theorem Doubles.live_le (h : machine.Doubles) : machine.live.ncard ≤ Heap.maxSlots :=
  h.sound.ncard_live_le_maxSlots h.numbered

/-- Whatever is paid for before a collection, there is a reserve after it, and room below the
threshold. -/
theorem Collects.solvent {freed : List Ref} (h : machine.Collects freed after)
    (hd : machine.Doubles) (hpaid : spent ≤ 2 * machine.totals.allocated) :
    after.count < after.threshold ∧ after.Solvent spent := by
  have hlt := Settings.lt_thresholdAfter hd.sound.accepted hd.growth hd.live_le
  have htwice := Settings.two_mul_le_thresholdAfter hd.growth hd.live_le
  rw [← h.threshold, ← h.count] at hlt htwice
  have hallocated : after.totals.allocated = machine.totals.allocated := by rw [h.totals]
  exact ⟨hlt, hlt.le, by omega, by omega⟩

variable {journal journal' : List Record} {output : String}

/-- Where a request for a cell finds no collection due, it finds room below the threshold;
otherwise it finds the threshold reached exactly, and the collection is paid for. -/
theorem Prepares.solvent (h : machine.Prepares journal output mid journal')
    (hd : machine.Doubles) (hmax : machine.settings.maxObjects = none)
    (hsolvent : machine.Solvent spent) :
    mid.count < mid.threshold ∧
    ((mid.totals.collections = machine.totals.collections ∧ mid.Solvent spent) ∨
      (mid.totals.collections = machine.totals.collections + 1 ∧
        machine.count = machine.threshold ∧ mid.Solvent (spent + machine.count))) := by
  cases h with
  | spare hdue =>
    rw [due_iff_of_none hmax, Nat.not_le] at hdue
    exact ⟨hdue, Or.inl ⟨rfl, hsolvent⟩⟩
  | collected hdue hcollects =>
    rw [due_iff_of_none hmax] at hdue
    obtain ⟨hcount, hpaid⟩ := hsolvent.pays hdue
    obtain ⟨hlt, hmid⟩ := hcollects.solvent hd hpaid
    exact ⟨hlt, Or.inr ⟨by rw [hcollects.totals], hcount, hmid⟩⟩

/-- How an operation leaves the accounts: it started no collection of its own accord, or one,
on the threshold, and what that examined is paid for as well. -/
inductive Settles (spent : Nat) (machine : Machine) (op : Operation) (after : Machine) : Prop where
  | idle : ¬ (op.Allocates ∧ machine.totals.collections < after.totals.collections) →
      after.Solvent spent → Settles spent machine op after
  | automatic : op.Allocates →
      after.totals.collections = machine.totals.collections + 1 →
      machine.count = machine.threshold → after.Solvent (spent + machine.count) →
      Settles spent machine op after

/-- **Every operation pays for itself.** -/
theorem Solvent.settles {op : Operation} (h : op.Effect machine after) (hd : machine.Doubles)
    (hmax : machine.settings.maxObjects = none) (hsolvent : machine.Solvent spent) :
    Settles spent machine op after := by
  cases h with
  | none => exact .idle (fun h => Nat.lt_irrefl _ h.2) hsolvent
  | rooted => exact .idle (fun h => h.1) ⟨hsolvent.count_le, hsolvent.paid, hsolvent.reserve⟩
  | unrooted => exact .idle (fun h => h.1) ⟨hsolvent.count_le, hsolvent.paid, hsolvent.reserve⟩
  | filled => exact .idle (fun h => h.1) ⟨hsolvent.count_le, hsolvent.paid, hsolvent.reserve⟩
  | collected hcollects => exact .idle (fun h => h.1) (hcollects.solvent hd hsolvent.paid).2
  | denied hrequest hprep =>
    obtain ⟨-, ⟨hkept, hmid⟩ | ⟨hran, hcount, hmid⟩⟩ := hprep.solvent hd hmax hsolvent
    · exact .idle (fun h => h.2.ne hkept.symm) hmid
    · exact .automatic hrequest hran hcount hmid
  | granted hrequest hprep _ _ hadds =>
    have hbooks : after.totals.collections = _ := congrArg Totals.collections hadds.totals
    obtain ⟨hroom, ⟨hkept, hmid⟩ | ⟨hran, hcount, hmid⟩⟩ := hprep.solvent hd hmax hsolvent
    · exact .idle (fun h => h.2.ne (hbooks.trans hkept).symm) (hmid.adds hroom hadds)
    · exact .automatic hrequest (hbooks.trans hran) hcount (hmid.adds hroom hadds)

end Machine

open Machine

variable {settings : Settings} {past : List Turn} {session : Session Machine}

/-- The next operation of a run pays for itself. -/
theorem Trail.settles (h : Trail settings past session) (hmax : settings.maxObjects = none)
    (hgrowth : 2 ≤ settings.growthFactor) {op : Operation} (hop : op.Resolves session.state)
    {spent : Nat} (hsolvent : session.state.Solvent spent) :
    Settles spent session.state op (op.act.after session).state := by
  obtain ⟨hs, rfl⟩ := h.reached.sound
  exact hsolvent.settles (Operation.effect hs hop) ⟨hs, hgrowth, h.fits.numbered⟩ hmax

/-- At any point of a run, the cells allocated have paid for what was examined. -/
theorem Trail.solvent (h : Trail settings past session) (hmax : settings.maxObjects = none)
    (hgrowth : 2 ≤ settings.growthFactor) : session.state.Solvent (examined past) := by
  induction h with
  | start hcreate =>
    obtain ⟨-, rfl⟩ := create_eq_ok_iff.1 hcreate
    exact solvent_initial _
  | @step past session op htrail hop ih =>
    cases htrail.settles hmax hgrowth hop ih with
    | idle hidle hafter =>
      have hturn : ¬ Turn.Automatic ⟨session, op⟩ := hidle
      rwa [examined_cons_of_not_automatic hturn]
    | automatic hrequest hran _ hafter =>
      have hturn : Turn.Automatic ⟨session, op⟩ := ⟨hrequest, hran.symm ▸ Nat.lt_succ_self _⟩
      rwa [examined_cons_of_automatic hturn]

/-- **Collecting costs no more than two cells examined for each cell allocated.**  Without an
object limit and with a growth factor of two or more, every collection that a request starts
finds exactly as many cells as the threshold says, and all of them together have examined no
more than twice the cells that were allocated, at every point of every run. -/
theorem Trail.examined_le (h : Trail settings past session)
    (hmax : settings.maxObjects = none) (hgrowth : 2 ≤ settings.growthFactor) :
    (∀ turn ∈ past, turn.Automatic →
      turn.session.state.count = turn.session.state.threshold ∧
        turn.after.state.totals.collections = turn.session.state.totals.collections + 1) ∧
    examined past ≤ 2 * session.state.totals.allocated := by
  refine ⟨fun turn hturn hauto => ?_, (h.solvent hmax hgrowth).paid⟩
  obtain ⟨earlier, htrail, hop⟩ := h.exists_of_mem hturn
  cases htrail.settles hmax hgrowth hop (htrail.solvent hmax hgrowth) with
  | idle hidle => exact absurd hauto hidle
  | automatic _ hran hcount => exact ⟨hcount, hran⟩

/-- Of three scalars that are pushed from a threshold of one, the second finds one cell and
the third finds two, and each starts a collection. -/
theorem three_examined : ∃ turn past session,
    Trail { initialThreshold := 1 } (turn :: past) session ∧ turn.Automatic ∧
      turn.session.state.count = turn.session.state.threshold ∧
      examined (turn :: past) = 3 ∧
      examined (turn :: past) ≤ 2 * session.state.totals.allocated := by
  have hcreate : Machine.create { initialThreshold := 1 } =
      .ok (Machine.initial { initialThreshold := 1 }) :=
    Machine.create_eq_ok_iff.2 ⟨by decide, rfl⟩
  have hone := (Trail.start hcreate).step (.pushScalar 1) trivial
  have htwo := hone.step (.pushScalar 2) trivial
  have hthree := htwo.step (.pushScalar 3) trivial
  obtain ⟨hturns, hpaid⟩ := Trail.examined_le hthree rfl (Nat.le_refl 2)
  have hauto : Turn.Automatic ⟨Operation.performAll [.pushScalar 1, .pushScalar 2]
      ⟨Machine.initial { initialThreshold := 1 }, [], ""⟩, .pushScalar 3⟩ := by decide +kernel
  exact ⟨_, _, _, hthree, hauto, (hturns _ List.mem_cons_self hauto).1, by decide +kernel, hpaid⟩

end MarkSweep
