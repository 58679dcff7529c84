/-
# The books of a machine

A machine counts its collections, the cells that it allocated and those that it freed.  The counts
are kept in two places: a collection enters itself and what it freed, a request that is granted
enters one cell.  `Trail.books_balance` compares them with the run itself and with the heap.  As
many cells were allocated as requests were granted; as many collections were run as operations ran
one, whether they were asked for or started by a request; what the books have as freed is what went
out of the heap; and what is left of the cells allocated is what the heap has.

One part of a turn opens the books for a collection (`Books.opens`), the other for a new cell
(`Books.closes`).  That nothing else goes in or out of the heap is `Turn.ncard_vacated`.
-/

import MarkSweep.Proofs.Machine.Turns

namespace MarkSweep

open Machine

/-- What the record of a collection says that it freed and left. -/
def Record.collected? : Record → Option (Nat × Nat)
  | .collected count remaining => some (count, remaining)
  | _ => none

/-- The handles that resolve no longer when the turn is over. -/
def Turn.vacated (turn : Turn) : Set Ref :=
  {r | turn.session.state.heap.contains r = true ∧ turn.after.state.heap.contains r = false}

/-- The books of a machine, after a run that went through these turns. -/
structure Balanced (past : List Turn) (session : Session Machine) : Prop where
  balance : session.state.totals.allocated = session.state.totals.collected + session.state.count
  allocated : session.state.totals.allocated = past.countP fun turn => turn.Granted
  collections : session.state.totals.collections = (past.filterMap Turn.collection?).length
  collected : session.state.totals.collected =
    ((past.filterMap Turn.collection?).map Collection.collected).sum
  /-- A turn has as many cells out of the heap as its collection says. -/
  vacated : ∀ turn ∈ past, turn.vacated.Finite ∧
    turn.vacated.ncard = turn.collection?.elim 0 Collection.collected
  /-- Every collection is on record, with what it answered. -/
  recorded : session.journal.filterMap Record.collected? =
    (past.filterMap Turn.collection?).map fun stats => (stats.collected, stats.remaining)

variable {turn : Turn} {mid : Machine} {journal : List Record} {answers : List Collection}
  {granted : Nat}

/-- The books when these collections were run, the last one first, and so many requests were
granted. -/
structure Books (answers : List Collection) (granted : Nat) (machine : Machine)
    (journal : List Record) : Prop where
  allocated : machine.totals.allocated = granted
  balance : granted = machine.totals.collected + machine.count
  collections : machine.totals.collections = answers.length
  collected : machine.totals.collected = (answers.map Collection.collected).sum
  recorded : journal.filterMap Record.collected? =
    answers.map fun stats => (stats.collected, stats.remaining)

/-- The first part of a turn. -/
theorem Books.opens (h : Books answers granted turn.session.state turn.session.journal)
    (hopens : turn.Opens mid journal) :
    Books (turn.collection?.toList ++ answers) granted mid journal := by
  cases hopens with
  | idle hidle =>
    rw [Turn.collection?, if_neg hidle]
    exact h
  | @collected freed _ hcollecting hcollects hcollect =>
    rw [Turn.collection?_of_ok hcollecting hcollect, Option.toList_some, List.singleton_append]
    refine ⟨?_, ?_, ?_, ?_, ?_⟩
    · rw [hcollects.totals, h.allocated]
    · rw [hcollects.totals, Nat.add_assoc, Nat.add_comm freed.length, hcollects.balance]
      exact h.balance
    · rw [hcollects.totals, h.collections, List.length_cons]
    · rw [hcollects.totals, h.collected, List.map_cons, List.sum_cons, Nat.add_comm freed.length]
    · rw [List.filterMap_append, h.recorded, List.map_cons]
      simp [collectionRecords, Record.collected?]

/-- The other part of it. -/
theorem Books.closes (h : Books answers granted mid journal) {after : Session Machine}
    (hcloses : turn.Closes mid journal after) :
    Books answers (granted + if turn.Granted then 1 else 0) after.state after.journal := by
  cases hcloses with
  | aside hgranted _ hidles _ hjournal =>
    rw [if_neg hgranted, Nat.add_zero, hjournal]
    refine ⟨?_, ?_, ?_, ?_, h.recorded⟩
    · rw [hidles.totals, h.allocated]
    · rw [hidles.totals, hidles.count, ← h.balance]
    · rw [hidles.totals, h.collections]
    · rw [hidles.totals, h.collected]
  | refused hfailure =>
    have hgranted : ¬ turn.Granted := by
      rintro ⟨-, hok⟩
      rw [hok] at hfailure
      cases hfailure
    rw [if_neg hgranted]
    exact ⟨h.allocated, h.balance, h.collections, h.collected, h.recorded⟩
  | granted hgranted _ _ hadds =>
    rw [if_pos hgranted]
    refine ⟨?_, ?_, ?_, ?_, h.recorded⟩
    · rw [hadds.totals, h.allocated]
    · rw [hadds.totals, hadds.count, ← Nat.add_assoc, ← h.balance]
    · rw [hadds.totals, h.collections]
    · rw [hadds.totals, h.collected]

namespace Turn

/-- What a turn does after its collection takes no cell away. -/
theorem Closes.contains_eq {after : Session Machine} (h : turn.Closes mid journal after) {r : Ref}
    (hr : turn.session.state.heap.contains r = true) :
    after.state.heap.contains r = mid.heap.contains r := by
  cases h with
  | aside _ _ _ hcells => exact hcells.contains r
  | refused => rfl
  | @granted index payload machine output _ _ hnew _ hgains =>
    have hne : r ≠ mid.heap.handle index := by
      rintro rfl
      rw [hr] at hnew
      cases hnew
    rw [Heap.contains, Heap.contains, hgains.get?, if_neg hne]

/-- **What goes out of the heap in a turn is what its collection frees.** -/
theorem ncard_vacated (hs : turn.session.state.Sound)
    (hresolves : turn.op.Resolves turn.session.state) :
    turn.vacated.Finite ∧ turn.vacated.ncard = turn.collection?.elim 0 Collection.collected := by
  obtain ⟨mid, journal, hopens, hcloses⟩ := turn.course hs hresolves
  have hvacated : ∀ r, r ∈ turn.vacated ↔
      turn.session.state.heap.contains r = true ∧ mid.heap.contains r = false := fun r =>
    and_congr_right fun hr => by rw [hcloses.contains_eq hr]
  cases hopens with
  | idle hidle =>
    have hempty : turn.vacated = ∅ := Set.eq_empty_of_forall_notMem fun r hr => by
      obtain ⟨hin, hout⟩ := (hvacated r).1 hr
      rw [hin] at hout
      cases hout
    rw [hempty, collection?, if_neg hidle]
    exact ⟨Set.finite_empty, Set.ncard_empty _⟩
  | @collected freed _ hcollecting hcollects hcollect =>
    have hfreed : ∀ r, r ∈ freed ↔ r ∈ turn.vacated := fun r => by
      rw [hvacated, hcollects.mem_freed, Bool.eq_false_iff, ne_eq, hcollects.contains_iff hs]
    rw [collection?_of_ok hcollecting hcollect]
    exact ⟨freed.finite_toSet.subset fun r hr => (hfreed r).2 hr,
      ncard_eq_length hcollects.nodup hfreed⟩

end Turn

variable {settings : Settings} {past : List Turn} {session : Session Machine}

/-- The books of a run. -/
theorem Trail.books (h : Trail settings past session) :
    Books (past.filterMap Turn.collection?) (past.countP fun turn => turn.Granted)
      session.state session.journal := by
  induction h with
  | start hcreate =>
    obtain ⟨-, rfl⟩ := create_eq_ok_iff.1 hcreate
    exact ⟨rfl, rfl, rfl, rfl, rfl⟩
  | @step past session op hpast hresolves ih =>
    obtain ⟨hs, -⟩ := hpast.reached.sound
    obtain ⟨mid, journal, hopens, hcloses⟩ := @Turn.course ⟨session, op⟩ hs hresolves
    have hanswers : (⟨session, op⟩ :: past).filterMap Turn.collection? =
        (Turn.collection? ⟨session, op⟩).toList ++ past.filterMap Turn.collection? :=
      @List.filterMap_append _ _ [_] past Turn.collection?
    have hbegun := Books.opens ih hopens
    have hended : Books _ _ (op.act.after session).state (op.act.after session).journal :=
      hbegun.closes hcloses
    rw [hanswers, List.countP_cons]
    simpa only [decide_eq_true_eq] using hended

/-- **No cell is lost or counted twice**, at any point of any run, whatever the settings are and
however the operations ended. -/
theorem Trail.books_balance (h : Trail settings past session) : Balanced past session := by
  have hbooks := h.books
  refine ⟨hbooks.allocated.trans hbooks.balance, hbooks.allocated, hbooks.collections,
    hbooks.collected, fun turn hturn => ?_, hbooks.recorded⟩
  obtain ⟨earlier, hearlier, hresolves⟩ := h.exists_of_mem hturn
  exact turn.ncard_vacated hearlier.reached.sound.1 hresolves

/-- A machine of two cells at most collects by itself, once to good use and once in vain, and
once more when it is asked to. -/
theorem balanced_after_refusal : ∃ past session, Trail { maxObjects := some 2 } past session ∧
    session.state.totals = ⟨3, 3, 2⟩ ∧ session.state.count = 1 ∧
    (past.filterMap Turn.collection?).map Collection.collected = [1, 0, 1] ∧
    Balanced past session := by
  have hcreate : create { maxObjects := some 2 } = .ok (initial { maxObjects := some 2 }) :=
    create_eq_ok_iff.2 ⟨by decide, rfl⟩
  have hone := (Trail.start hcreate).step (.pushScalar 1) trivial
  have hpop := hone.step .popRoot trivial
  have htwo := hpop.step (.pushScalar 2) trivial
  have hthree := htwo.step (.pushScalar 3) trivial
  have hfull := hthree.step (.pushScalar 4) trivial
  have hlast := (hfull.step .popRoot trivial).step .collect trivial
  exact ⟨_, _, hlast, by decide +kernel, by decide +kernel, by decide +kernel,
    Trail.books_balance hlast⟩

end MarkSweep
