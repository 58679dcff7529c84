/-
# Runs of a machine

A program asks a machine for one operation after another.  An operation that fails does
not end the run: the program may go on with whatever machine it is left with.

`Operation.endsWell` is what one operation preserves, one case for each operation, and
`Reached.sound` what a whole run preserves.  `Reached.inOrder` spells it out.

`Operation.Fails` lists the failures that an operation may end with, and when.  None of
them comes from a heap that is out of order (`Operation.Fails.not_internal`), so no such
failure is met in any run.
-/

import MarkSweep.Proofs.Machine.Requests
import Mathlib.Logic.Relation

namespace MarkSweep

/-- A fault that only a heap which is out of order can cause. -/
def Fault.Internal : Fault → Prop
  | .rootOverflow | .rootUnderflow | .collectedRoot _ => False
  | _ => True

/-- What a program can ask a machine for.  Filling a pair is left to code that knows
what it does. -/
inductive Operation where
  | pushScalar (value : Int64)
  | makePair
  | pushRoot (r : Ref)
  | popRoot
  | collect
  | setPair (pair first second : Ref)
  deriving DecidableEq

namespace Operation

/-- What the machine does. -/
def act : Operation → Action Machine Unit
  | .pushScalar value => (fun _ => ()) <$> Machine.pushScalar value
  | .makePair => (fun _ => ()) <$> Machine.makePair
  | .pushRoot r => Machine.pushRoot r
  | .popRoot => (fun _ => ()) <$> Machine.popRoot
  | .collect => (fun _ => ()) <$> Machine.collect
  | .setPair pair first second => Machine.onHeap (Heap.setPair pair first second)

/-- What is left after operations in this order, whether they succeed or fail. -/
def performAll (ops : List Operation) (session : Session Machine) : Session Machine :=
  ops.foldl (fun session op => op.act.after session) session

/-- Pairs are filled with links that resolve, and only pairs are. -/
def Legal (machine : Machine) : Operation → Prop
  | .setPair pair first second =>
    (∃ old₁ old₂, machine.heap.payload? pair = some (.pair old₁ old₂)) ∧
      machine.heap.contains first = true ∧ machine.heap.contains second = true
  | _ => True

/-- The operations that take a new cell. -/
def Allocates : Operation → Prop
  | .pushScalar _ | .makePair => True
  | _ => False

/-- The failures that an operation may end with on a machine. -/
inductive Fails (machine : Machine) : Operation → Failure → Prop where
  | pushFull {value : Int64} : machine.roots.isFull = true →
      Fails machine (.pushScalar value) (.fault .rootOverflow)
  | fewRoots : machine.depth < 2 → Fails machine .makePair (.fault .rootUnderflow)
  | gone {r : Ref} : machine.heap.contains r = false →
      Fails machine (.pushRoot r) (.fault (.collectedRoot r))
  | rootFull {r : Ref} : machine.heap.contains r = true → machine.roots.isFull = true →
      Fails machine (.pushRoot r) (.fault .rootOverflow)
  | noRoots : machine.roots.toList = [] → Fails machine .popRoot (.fault .rootUnderflow)
  | exhausted {op : Operation} {limit : Nat} : op.Allocates →
      machine.settings.maxObjects = some limit → machine.live.ncard = limit →
      Fails machine op (.heapExhausted limit limit)
  | outOfMemory {op : Operation} : op.Allocates → Fails machine op .outOfMemory

theorem Fails.not_internal {machine : Machine} {op : Operation} {cause : Fault}
    (h : Fails machine op (.fault cause)) : ¬ cause.Internal := by
  cases h <;> exact id

end Operation

/-- A program goes one operation further, whether it succeeds or fails. -/
inductive Step : Session Machine → Session Machine → Prop where
  | mk {session : Session Machine} (op : Operation) : op.Legal session.state →
      Step session (op.act.after session)

/-- A program goes on by any number of operations. -/
def Steps : Session Machine → Session Machine → Prop :=
  Relation.ReflTransGen Step

/-- What programs can reach on a machine of these settings, if the settings allow one. -/
def Reached (settings : Settings) (session : Session Machine) : Prop :=
  ∃ machine, Machine.create settings = .ok machine ∧ Steps ⟨machine, [], ""⟩ session

/-- Each of these operations is legal where those before it lead. -/
def Operation.AllLegal : List Operation → Session Machine → Prop
  | [], _ => True
  | op :: ops, session => op.Legal session.state ∧ AllLegal ops (op.act.after session)

/-- A program reaches what its operations leave. -/
theorem steps_performAll {ops : List Operation} {session : Session Machine}
    (h : Operation.AllLegal ops session) : Steps session (Operation.performAll ops session) := by
  induction ops generalizing session with
  | nil => exact .refl
  | cons op ops ih => exact .head (.mk op h.1) (ih h.2)

theorem reached_performAll {settings : Settings} {ops : List Operation}
    (haccepted : settings.rejected? = none)
    (h : Operation.AllLegal ops ⟨Machine.initial settings, [], ""⟩) :
    Reached settings (Operation.performAll ops ⟨Machine.initial settings, [], ""⟩) :=
  ⟨_, Machine.create_eq_ok_iff.2 ⟨haccepted, rfl⟩, steps_performAll h⟩

namespace Operation

open Machine

variable {machine : Machine} {journal : List Record} {output : String}

/-- How an operation ends that leaves a sound machine: it succeeds, or fails for a cause
that is listed. -/
structure EndsWell (op : Operation) (session : Session Machine) : Prop where
  sound : (op.act.after session).state.Sound
  settings : (op.act.after session).state.settings = session.state.settings
  fails : ∀ failure, op.act.failure? session = some failure → op.Fails session.state failure

theorem endsWell_of_ok {op : Operation} {session session' : Session Machine}
    (h : op.act session = .ok () session') (hsound : session'.state.Sound)
    (hsettings : session'.state.settings = session.state.settings) : op.EndsWell session where
  sound := by rwa [Action.after_of_ok h]
  settings := by rwa [Action.after_of_ok h]
  fails failure hf := by
    rw [Action.failure?_of_ok h] at hf
    cases hf

theorem endsWell_of_error {op : Operation} {session session' : Session Machine}
    {failure : Failure} (h : op.act session = .error failure session')
    (hsound : session'.state.Sound)
    (hsettings : session'.state.settings = session.state.settings)
    (hfails : op.Fails session.state failure) : op.EndsWell session where
  sound := by rwa [Action.after_of_error h]
  settings := by rwa [Action.after_of_error h]
  fails failure' hf := by
    rw [Action.failure?_of_error h] at hf
    obtain rfl := Option.some.inj hf
    exact hfails

/-- A request that is served ends well, if it finishes soundly on every sound machine with
the same roots that has a place for one more cell. -/
theorem endsWell_of_serves {op : Operation} {request : Action Machine Ref} {kind : Kind}
    {finish : Machine → Nat → Machine} (hs : machine.Sound)
    (hact : op.act = (fun _ => ()) <$> request) (hop : op.Allocates)
    (h : Serves request kind finish machine journal output)
    (hfinish : ∀ (mid : Machine) (index : Nat), mid.Sound → mid.roots = machine.roots →
      mid.heap.vacancy = .ok index →
      (∀ limit, mid.settings.maxObjects = some limit → mid.count < limit) →
      (finish mid index).Sound ∧ (finish mid index).settings = mid.settings) :
    op.EndsWell ⟨machine, journal, output⟩ := by
  cases h with
  | refused hprep _ hmax hlive hrequest =>
    refine endsWell_of_error (hact ▸ Action.map_of_error hrequest _) (hprep.sound hs)
      hprep.keeps.settings (.exhausted hop hmax hlive)
  | unplaced hprep _ _ hrequest =>
    exact endsWell_of_error (hact ▸ Action.map_of_error hrequest _) (hprep.sound hs)
      hprep.keeps.settings (.outOfMemory hop)
  | @granted mid journal' index hprep hroom hv hrequest =>
    have hlimit : ∀ limit, mid.settings.maxObjects = some limit → mid.count < limit :=
      fun limit hl => hprep.count_lt hroom (hprep.keeps.settings ▸ hl)
    obtain ⟨hsound, hsettings⟩ := hfinish mid index (hprep.sound hs) hprep.keeps.roots hv hlimit
    exact endsWell_of_ok (hact ▸ Action.map_of_ok hrequest _) hsound
      (hsettings.trans hprep.keeps.settings)

theorem endsWell_pushScalar (hs : machine.Sound) (value : Int64) :
    (pushScalar value).EndsWell ⟨machine, journal, output⟩ := by
  cases hfull : machine.roots.isFull with
  | true =>
    have hpush := pushScalar_of_isFull hfull value journal output
    exact endsWell_of_error (Action.map_of_error hpush _) hs rfl (.pushFull hfull)
  | false =>
    refine endsWell_of_serves hs rfl trivial (pushScalar_serves hs hfull value journal output)
      fun mid index hmid hroots hv hlimit => ⟨hmid.pushed hv ?_ hlimit, rfl⟩
    rw [hroots, hfull]

theorem endsWell_makePair (hs : machine.Sound) :
    makePair.EndsWell ⟨machine, journal, output⟩ := by
  rcases Nat.lt_or_ge machine.depth 2 with hdepth | hdepth
  · have hmake := makePair_of_depth_lt hdepth journal output
    exact endsWell_of_error (Action.map_of_error hmake _) hs rfl (.fewRoots hdepth)
  · obtain ⟨rest, second, first, h⟩ := exists_roots_eq hdepth
    refine endsWell_of_serves hs rfl trivial (makePair_serves hs h journal output)
      fun mid index hmid hroots hv hlimit => ⟨hmid.paired ?_ hv hlimit, rfl⟩
    rw [hroots, h]

theorem endsWell_pushRoot (hs : machine.Sound) (r : Ref) :
    (pushRoot r).EndsWell ⟨machine, journal, output⟩ := by
  cases hc : machine.heap.contains r with
  | false => exact endsWell_of_error (pushRoot_of_not_contains hc journal output) hs rfl (.gone hc)
  | true =>
    cases hfull : machine.roots.isFull with
    | true =>
      exact endsWell_of_error (pushRoot_of_isFull hc hfull journal output) hs rfl
        (.rootFull hc hfull)
    | false =>
      have hroots : ∀ s ∈ machine.roots.toList ++ [r], machine.heap.contains s = true := by
        intro s hm
        rcases List.mem_append.1 hm with hm | hm
        · exact hs.roots s hm
        · rwa [List.mem_singleton.1 hm]
      exact endsWell_of_ok (pushRoot_eq_ok hc hfull journal output)
        (hs.withRoots hroots (hs.length_le_of_not_isFull hfull)) rfl

theorem endsWell_popRoot (hs : machine.Sound) :
    popRoot.EndsWell ⟨machine, journal, output⟩ := by
  rcases popRoot_cases machine journal output with ⟨hnil, hpop⟩ | ⟨rest, r, hroots, hpop⟩
  · exact endsWell_of_error (Action.map_of_error hpop _) hs rfl (.noRoots hnil)
  · have hdepth := hs.depth
    rw [depth_eq, hroots, List.length_append] at hdepth
    refine endsWell_of_ok (Action.map_of_ok hpop _) (hs.withRoots (fun s hm => ?_) ?_) rfl
    · exact hs.roots s (hroots ▸ List.mem_append_left _ hm)
    · exact (Nat.le_add_right _ _).trans hdepth

theorem endsWell_collect (hs : machine.Sound) :
    collect.EndsWell ⟨machine, journal, output⟩ := by
  obtain ⟨freed, after, hcollects, hcollect⟩ := collect_eq_ok hs journal output
  exact endsWell_of_ok (Action.map_of_ok hcollect _) (hcollects.sound hs)
    hcollects.settings

theorem endsWell_setPair (hs : machine.Sound) {pair first second : Ref}
    (h : (setPair pair first second).Legal machine) :
    (setPair pair first second).EndsWell ⟨machine, journal, output⟩ := by
  obtain ⟨⟨old₁, old₂, hpair⟩, hfirst, hsecond⟩ := h
  refine endsWell_of_ok (onHeap_setPair hpair first second journal output)
    (hs.withLinks ?_ hfirst hsecond) rfl
  exact Heap.contains_iff_payload?.2 ⟨_, hpair⟩

/-- **Every operation leaves a sound machine sound**, whether it succeeds or fails. -/
theorem endsWell {op : Operation} {session : Session Machine} (hs : session.state.Sound)
    (h : op.Legal session.state) : op.EndsWell session := by
  cases op with
  | pushScalar value => exact endsWell_pushScalar hs value
  | makePair => exact endsWell_makePair hs
  | pushRoot r => exact endsWell_pushRoot hs r
  | popRoot => exact endsWell_popRoot hs
  | collect => exact endsWell_collect hs
  | setPair pair first second => exact endsWell_setPair hs h

end Operation

variable {settings : Settings} {session session' : Session Machine}

/-- A machine that a run can reach is sound. -/
theorem Reached.sound (h : Reached settings session) :
    session.state.Sound ∧ session.state.settings = settings := by
  obtain ⟨machine, hcreate, hsteps⟩ := h
  induction hsteps with
  | refl =>
    obtain ⟨haccepted, rfl⟩ := Machine.create_eq_ok_iff.1 hcreate
    exact ⟨Machine.sound_initial haccepted, rfl⟩
  | tail _ hstep ih =>
    obtain ⟨op, hlegal⟩ := hstep
    have hend := Operation.endsWell ih.1 hlegal
    exact ⟨hend.sound, hend.settings.trans ih.2⟩

/-- What holds between the operations of a run, and of the next operation. -/
structure InOrder (settings : Settings) (session : Session Machine) : Prop where
  roots : ∀ r ∈ session.state.roots.toList, session.state.heap.contains r = true
  /-- The links of every cell resolve, whether the cell is live or not. -/
  links : ∀ r cell, session.state.heap.get? r = some cell →
    ∀ s ∈ cell.payload.edges, session.state.heap.contains s = true
  unmarked : ∀ r cell, session.state.heap.get? r = some cell → cell.marked = false
  worklist : session.state.heap.worklist = []
  depth : session.state.depth ≤ settings.stackCapacity
  threshold : 1 ≤ session.state.threshold
  limit : ∀ limit, settings.maxObjects = some limit → session.state.count ≤ limit
  fails : ∀ op : Operation, op.Legal session.state → ∀ failure,
    op.act.failure? session = some failure → op.Fails session.state failure
  faults : ∀ op : Operation, op.Legal session.state → ∀ cause,
    op.act.failure? session = some (.fault cause) → ¬ cause.Internal

/-- **Every machine that a run can reach is in order**, whatever operations the run is made
of and however they ended: roots and links resolve, nothing is marked or waits to be, the
limits are kept, and the next operation fails for no other cause than those listed. -/
theorem Reached.inOrder (h : Reached settings session) : InOrder settings session := by
  obtain ⟨hs, rfl⟩ := h.sound
  have hfails : ∀ op : Operation, op.Legal session.state → ∀ failure,
      op.act.failure? session = some failure → op.Fails session.state failure :=
    fun op hlegal => (Operation.endsWell hs hlegal).fails
  refine ⟨hs.roots, fun r cell hr => ?_, fun r cell hr => ?_, hs.heap.idle, hs.depth,
    hs.threshold, hs.limit, hfails, fun op hlegal cause hf => ?_⟩
  · exact hs.heap.whole r cell.payload (by rw [Heap.payload?, hr]; rfl)
  · refine Bool.eq_false_iff.2 fun hm => hs.heap.clean r ?_
    rw [Heap.Marked, Heap.mark?, hr, Option.map_some, hm]
  · exact (hfails op hlegal _ hf).not_internal

/-- Three cells at most, and room for two roots. -/
def tightSettings : Settings :=
  { stackCapacity := 2, maxObjects := some 3 }

/-- A root too many is pushed, a pair is made, a fourth cell is asked for, the pair is dropped
and then linked to itself, a handle is made up, and there are no roots left to take. -/
def exhausting : List Operation :=
  [.pushScalar 1, .pushScalar 2, .pushScalar 9, .makePair, .pushScalar 5, .popRoot,
    .setPair ⟨2, 0⟩ ⟨2, 0⟩ ⟨0, 0⟩, .pushRoot ⟨7, 1⟩, .makePair, .popRoot]

/-- What is left of the machine after all that. -/
def spent : Session Machine :=
  Operation.performAll exhausting ⟨Machine.initial tightSettings, [], ""⟩

/-- The machine is in order, although the limit was met on the way.  The pair is still on its
list, with as many cells as the limit allows, and none of them can be reached. -/
theorem inOrder_after_failures :
    InOrder tightSettings spent ∧ .limitReached 3 3 ∈ spent.journal ∧
      spent.state.roots.toList = [] ∧ spent.state.count = 3 ∧
      spent.state.heap.payload? ⟨2, 0⟩ = some (.pair (some ⟨2, 0⟩) (some ⟨0, 0⟩)) := by
  have hfill : (Operation.setPair ⟨2, 0⟩ ⟨2, 0⟩ ⟨0, 0⟩).Legal (Operation.performAll
      (exhausting.take 6) ⟨Machine.initial tightSettings, [], ""⟩).state :=
    ⟨⟨some ⟨1, 0⟩, some ⟨0, 0⟩, by decide +kernel⟩, by decide +kernel, by decide +kernel⟩
  have hlegal : Operation.AllLegal exhausting ⟨Machine.initial tightSettings, [], ""⟩ :=
    ⟨trivial, trivial, trivial, trivial, trivial, trivial, hfill, trivial, trivial, trivial,
      trivial⟩
  exact ⟨Reached.inOrder (reached_performAll (by decide) hlegal),
    by decide +kernel, by decide +kernel, by decide +kernel, by decide +kernel⟩

end MarkSweep
