/-
# The course of a turn

A turn of a run has two parts.  It may begin with a collection (`Turn.Opens`), and then it
closes in one of three ways (`Turn.Closes`): no cell is taken, or a request is refused for the
object limit, or it is granted.  Each part says what became of the machine, which records were
made, and what was answered (`Turn.course`), so that what a run writes and counts can be followed
from one operation to the next.

`Turn.collection?` and `Turn.Granted` say of a turn whether it ran a collection, with what
outcome, and whether it was a request that was granted.
-/

import MarkSweep.Proofs.Heap.Register
import MarkSweep.Proofs.Machine.Amortization
import MarkSweep.Proofs.Machine.Grants
import MarkSweep.Proofs.Machine.Triggers

namespace MarkSweep

namespace Operation

open Machine

variable {op : Operation} {session : Session Machine}

instance (machine : Machine) : DecidablePred (Admitted machine) := fun op =>
  match op with
  | .pushScalar _ => inferInstanceAs (Decidable (machine.roots.isFull = false))
  | .makePair => inferInstanceAs (Decidable (2 ≤ machine.depth))
  | .pushRoot _ | .popRoot | .collect | .setPair .. => isFalse id

instance (machine : Machine) (op : Operation) : Decidable (op.Collecting machine) :=
  inferInstanceAs (Decidable (_ ∨ _))

theorem Admitted.allocates {machine : Machine} (h : op.Admitted machine) : op.Allocates := by
  cases op with
  | pushScalar | makePair => trivial
  | _ => exact h.elim

/-- An operation that is given no cell, and does not run a collection. -/
structure Aside (op : Operation) (session : Session Machine) : Prop where
  journal : (op.act.after session).journal = session.journal
  cells : session.state.heap.SameCells (op.act.after session).state.heap
  withheld : ¬ (op.Allocates ∧ op.act.failure? session = none)
  unlimited : ∀ live limit, op.act.failure? session ≠ some (.heapExhausted live limit)

/-- An operation that breaks off at once. -/
theorem aside_of_fault {cause : Fault} (h : op.act session = .error (.fault cause) session) :
    op.Aside session where
  journal := by rw [Action.after_of_error h]
  cells := by
    rw [Action.after_of_error h]
    exact .refl _
  withheld := by
    rintro ⟨-, hok⟩
    rw [Action.failure?_of_error h] at hok
    cases hok
  unlimited live limit hfails := by
    rw [Action.failure?_of_error h] at hfails
    cases hfails

/-- An operation that takes no cell, and succeeds. -/
theorem aside_of_ok {after : Session Machine} (h : op.act session = .ok () after)
    (hallocates : ¬ op.Allocates) (hjournal : after.journal = session.journal)
    (hcells : session.state.heap.SameCells after.state.heap) : op.Aside session where
  journal := by rw [Action.after_of_ok h, hjournal]
  cells := by rwa [Action.after_of_ok h]
  withheld hgranted := hallocates hgranted.1
  unlimited live limit hfails := by
    rw [Action.failure?_of_ok h] at hfails
    cases hfails

/-- The operations on roots and links stand aside, and so does a request without the roots
for it. -/
theorem aside (hadmitted : ¬ op.Admitted session.state) (hcollect : op ≠ .collect)
    (hresolves : op.Resolves session.state) : op.Aside session := by
  obtain ⟨machine, journal, output⟩ := session
  cases op with
  | pushScalar value =>
    have hpush := pushScalar_of_isFull (Bool.of_not_eq_false hadmitted) value journal output
    exact aside_of_fault (Action.map_of_error hpush _)
  | makePair =>
    have hmake := makePair_of_depth_lt (Nat.not_le.1 hadmitted) journal output
    exact aside_of_fault (Action.map_of_error hmake _)
  | pushRoot r =>
    cases hc : machine.heap.contains r with
    | false => exact aside_of_fault (pushRoot_of_not_contains hc journal output)
    | true =>
      cases hfull : machine.roots.isFull with
      | true => exact aside_of_fault (pushRoot_of_isFull hc hfull journal output)
      | false => exact aside_of_ok (pushRoot_eq_ok hc hfull journal output) id rfl (.refl _)
  | popRoot =>
    rcases popRoot_cases machine journal output with ⟨-, hpop⟩ | ⟨rest, r, -, hpop⟩
    · exact aside_of_fault (Action.map_of_error hpop _)
    · exact aside_of_ok (Action.map_of_ok hpop _) id rfl (.refl _)
  | collect => exact absurd rfl hcollect
  | setPair pair first second =>
    obtain ⟨payload, hp⟩ := Heap.contains_iff_payload?.1 hresolves.1
    cases payload with
    | scalar value => exact aside_of_fault (onHeap_setPair_of_scalar hp first second journal output)
    | pair old₁ old₂ =>
      exact aside_of_ok (onHeap_setPair hp first second journal output) id rfl
        (Heap.sameCells_fill hp first second)

end Operation

namespace Turn

open Machine

variable {turn : Turn}

/-- What the operation failed with, unless it succeeded. -/
def failure? (turn : Turn) : Option Failure :=
  turn.op.act.failure? turn.session

/-- The operation was a request for a cell, and succeeded. -/
def Granted (turn : Turn) : Prop :=
  turn.op.Allocates ∧ turn.failure? = none

instance (turn : Turn) : Decidable turn.Granted :=
  inferInstanceAs (Decidable (_ ∧ _))

/-- What the collection answered that the operation ran, if it ran one.  It runs before anything
else that the operation does. -/
def collection? (turn : Turn) : Option Collection :=
  if turn.op.Collecting turn.session.state then
    match collect turn.session with
    | .ok stats _ => some stats
    | .error _ _ => none
  else none

theorem collection?_of_ok (h : turn.op.Collecting turn.session.state) {stats : Collection}
    {after : Session Machine} (hcollect : collect turn.session = .ok stats after) :
    turn.collection? = some stats := by
  rw [collection?, if_pos h, hcollect]

/-- The machine and the journal as they are when the operation has run its collection, if it is
to run one. -/
inductive Opens (turn : Turn) : Machine → List Record → Prop where
  | idle : ¬ turn.op.Collecting turn.session.state →
      Opens turn turn.session.state turn.session.journal
  | collected {freed : List Ref} {after : Machine} :
      turn.op.Collecting turn.session.state → turn.session.state.Collects freed after →
      collect turn.session =
        .ok ⟨turn.session.state.live.ncard, freed.length, turn.session.state.live.ncard,
            after.threshold⟩
          ⟨after, collectionRecords freed turn.session.state.live.ncard ++ turn.session.journal,
            turn.session.output⟩ →
      Opens turn after
        (collectionRecords freed turn.session.state.live.ncard ++ turn.session.journal)

/-- What the operation leaves, of a machine and a journal that are as they were when it had run
its collection. -/
inductive Closes (turn : Turn) (mid : Machine) (journal : List Record) :
    Session Machine → Prop where
  /-- No cell is taken. -/
  | aside {after : Session Machine} : ¬ turn.Granted →
      (∀ live limit, turn.failure? ≠ some (.heapExhausted live limit)) →
      mid.Idles after.state → mid.heap.SameCells after.state.heap → after.journal = journal →
      Closes turn mid journal after
  /-- The object limit is reached. -/
  | refused {limit : Nat} {output : String} :
      turn.failure? = some (.heapExhausted limit limit) → mid.count = limit →
      Closes turn mid journal ⟨mid, .limitReached limit limit :: journal, output⟩
  /-- A cell is taken, with a handle that did not resolve when the turn began. -/
  | granted {index : Nat} {payload : Payload} {after : Machine} {output : String} :
      turn.Granted → mid.heap.vacancy = .ok index →
      turn.session.state.heap.contains (mid.heap.handle index) = false →
      mid.Adds index after → mid.heap.Gains index payload after.heap →
      Closes turn mid journal ⟨after, .allocated payload.kind index :: journal, output⟩

/-- A collection leaves a sound machine. -/
theorem Opens.sound {mid : Machine} {journal : List Record} (h : turn.Opens mid journal)
    (hs : turn.session.state.Sound) : mid.Sound := by
  cases h with
  | idle => exact hs
  | collected _ hcollects => exact hcollects.sound hs

/-- The preparations of a request are the first part of its turn. -/
theorem opens_of_prepares {session : Session Machine} {op : Operation} {mid : Machine}
    {journal : List Record} (hadmitted : op.Admitted session.state)
    (h : session.state.Prepares session.journal session.output mid journal) :
    Opens ⟨session, op⟩ mid journal := by
  cases h with
  | spare hdue => exact .idle fun hcollecting => hdue (hadmitted.collecting_iff.1 hcollecting)
  | collected hdue hcollects hcollect =>
    exact .collected (hadmitted.collecting_iff.2 hdue) hcollects hcollect

/-- The course of a request with the roots for it. -/
theorem course_of_admitted (hs : turn.session.state.Sound)
    (hadmitted : turn.op.Admitted turn.session.state) :
    ∃ mid journal, turn.Opens mid journal ∧ turn.Closes mid journal turn.after := by
  obtain ⟨⟨machine, journal, output⟩, op⟩ := turn
  obtain ⟨request, hasks, hact⟩ := hadmitted.exists_asks
  obtain ⟨payload, finish, hserves, hadds⟩ := hasks.serves_gains hs journal output
  cases hserves with
  | @refused mid journal' limit hprep hdue hmax hlive hrequest =>
    have hfails := hact ▸ Action.map_of_error hrequest fun _ => ()
    refine ⟨mid, journal', opens_of_prepares hadmitted hprep, ?_⟩
    rw [Turn.after, Action.after_of_error hfails]
    refine .refused (Action.failure?_of_error hfails) ?_
    cases hprep with
    | spare hspare => exact absurd hdue hspare
    | collected _ hcollects => rw [hcollects.count, hlive]
  | @unplaced mid journal' hprep hroom hv hrequest =>
    have hfails := hact ▸ Action.map_of_error hrequest fun _ => ()
    refine ⟨mid, journal', opens_of_prepares hadmitted hprep, ?_⟩
    rw [Turn.after, Action.after_of_error hfails]
    have hfailure : failure? ⟨⟨machine, journal, output⟩, op⟩ = some .outOfMemory :=
      Action.failure?_of_error hfails
    refine .aside (fun hgranted => ?_) (fun live limit => ?_) ⟨rfl, rfl, rfl, rfl⟩ (.refl _) rfl
    · rw [hgranted.2] at hfailure
      cases hfailure
    · rw [hfailure]
      rintro ⟨⟩
  | @granted mid journal' index hprep hroom hv hrequest =>
    have hok := hact ▸ Action.map_of_ok hrequest fun _ => ()
    refine ⟨mid, journal', opens_of_prepares hadmitted hprep, ?_⟩
    obtain ⟨hadds, hgains⟩ := hadds mid index (hprep.sound hs) hprep.keeps.roots hv
    rw [Turn.after, Action.after_of_ok hok]
    exact .granted ⟨Operation.Admitted.allocates hadmitted, Action.failure?_of_ok hok⟩ hv
      (hprep.not_contains_handle hs hv) hadds hgains

/-- **Every turn has this course**, whether its operation succeeds or fails. -/
theorem course (hs : turn.session.state.Sound) (hresolves : turn.op.Resolves turn.session.state) :
    ∃ mid journal, turn.Opens mid journal ∧ turn.Closes mid journal turn.after := by
  by_cases hadmitted : turn.op.Admitted turn.session.state
  · exact course_of_admitted hs hadmitted
  obtain ⟨⟨machine, journal, output⟩, op⟩ := turn
  by_cases hcollect : op = .collect
  · subst hcollect
    obtain ⟨freed, after, hcollects, hrun⟩ := collect_eq_ok hs journal output
    have hok := Action.map_of_ok hrun fun _ => ()
    refine ⟨_, _, .collected (Or.inl rfl) hcollects hrun, ?_⟩
    rw [Turn.after, Operation.act, Action.after_of_ok hok]
    refine .aside (fun hgranted => hgranted.1) (fun live limit => ?_) ⟨rfl, rfl, rfl, rfl⟩
      (.refl _) rfl
    rw [failure?, Operation.act, Action.failure?_of_ok hok]
    rintro ⟨⟩
  · have haside := Operation.aside hadmitted hcollect hresolves
    have hidle : ¬ op.Collecting machine := by
      rintro (h | ⟨h, -⟩)
      · exact hcollect h
      · exact hadmitted h
    exact ⟨_, _, .idle hidle, .aside haside.withheld haside.unlimited
      (Operation.idles hs hresolves hadmitted hcollect) haside.cells haside.journal⟩

end Turn

end MarkSweep
