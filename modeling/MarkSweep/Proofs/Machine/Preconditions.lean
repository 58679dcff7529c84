/-
# Broken preconditions

Every operation checks what it asks of the root stack and of its argument before it does
anything else.  `Operation.breach?` reads off a machine whether a check fails, and which.

The checks are the only ones that a program can fail, on any machine that a run can reach:
an operation that passes them comes across no other broken precondition further on, be it in
marking, in sweeping, or in the pushes after an allocation.  And an operation that does not pass
them leaves everything as it was.  No collection has run then, also if one was due
(`Reached.guards`).
-/

import MarkSweep.Proofs.Machine.Runs

namespace MarkSweep

namespace Machine

variable {machine : Machine}

/-- A stack is full when it holds as many roots as the settings say. -/
theorem Sound.isFull_iff (h : machine.Sound) :
    machine.roots.isFull = true ↔ machine.depth = machine.settings.stackCapacity := by
  have hdepth : machine.roots.depth ≤ machine.settings.stackCapacity := h.depth
  rw [RootStack.isFull, decide_eq_true_iff, h.capacity, Machine.depth]
  omega

end Machine

namespace Operation

open Machine

variable {op : Operation} {session : Session Machine} {cause : Fault}

/-- The precondition that an operation finds broken on a machine, if it finds one. -/
def breach? (machine : Machine) : Operation → Option Fault
  | .pushScalar _ =>
    if machine.depth = machine.settings.stackCapacity then some .rootOverflow else none
  | .makePair => if machine.depth < 2 then some .rootUnderflow else none
  | .pushRoot r =>
    if machine.heap.contains r = false then some (.collectedRoot r)
    else if machine.depth = machine.settings.stackCapacity then some .rootOverflow
    else none
  | .popRoot => if machine.depth = 0 then some .rootUnderflow else none
  | .collect | .setPair _ _ _ => none

/-- An operation that breaks a precondition stops at the check. -/
theorem act_of_breach? (hs : session.state.Sound) (h : op.breach? session.state = some cause) :
    op.act session = .error (.fault cause) session := by
  obtain ⟨machine, journal, output⟩ := session
  cases op with
  | pushScalar value =>
    obtain ⟨hdepth, ⟨⟩⟩ := Option.ite_none_right_eq_some.1 h
    exact Action.map_of_error (pushScalar_of_isFull (hs.isFull_iff.2 hdepth) value _ _) _
  | makePair =>
    obtain ⟨hdepth, ⟨⟩⟩ := Option.ite_none_right_eq_some.1 h
    exact Action.map_of_error (makePair_of_depth_lt hdepth _ _) _
  | pushRoot r =>
    rw [breach?] at h
    cases hc : machine.heap.contains r with
    | false =>
      rw [if_pos hc] at h
      obtain rfl := Option.some.inj h
      exact pushRoot_of_not_contains hc _ _
    | true =>
      rw [if_neg (by simp [hc])] at h
      obtain ⟨hdepth, ⟨⟩⟩ := Option.ite_none_right_eq_some.1 h
      exact pushRoot_of_isFull hc (hs.isFull_iff.2 hdepth) _ _
  | popRoot =>
    obtain ⟨hdepth, ⟨⟩⟩ := Option.ite_none_right_eq_some.1 h
    rcases popRoot_cases machine journal output with ⟨-, hpop⟩ | ⟨rest, r, hroots, -⟩
    · exact Action.map_of_error hpop _
    · have hlength : machine.roots.toList.length = 0 := (depth_eq machine).symm.trans hdepth
      simp [hroots] at hlength
  | collect => cases h
  | setPair pair first second => cases h

/-- A fault that an operation fails with is a precondition that it breaks. -/
theorem Fails.breach? {machine : Machine} (h : op.Fails machine (.fault cause))
    (hs : machine.Sound) : op.breach? machine = some cause := by
  cases h with
  | pushFull hfull => exact if_pos (hs.isFull_iff.1 hfull)
  | fewRoots hdepth => exact if_pos hdepth
  | gone hc => exact if_pos hc
  | rootFull hc hfull =>
    rw [Operation.breach?, if_neg (by simp [hc]), if_pos (hs.isFull_iff.1 hfull)]
  | noRoots hnil =>
    refine if_pos ?_
    rw [depth_eq, hnil]
    rfl

/-- An operation breaks off for its preconditions only, and before it does anything. -/
structure Guards (op : Operation) (session : Session Machine) : Prop where
  fault_iff : ∀ cause, op.act.failure? session = some (.fault cause) ↔
    op.breach? session.state = some cause
  /-- The machine is the one before, with all its parts, and nothing was recorded. -/
  unchanged : ∀ cause after, op.act session = .error (.fault cause) after → after = session
  /-- What is reported: the stack, or a handle whose cell is gone. -/
  reports : ∀ cause after, op.act session = .error (.fault cause) after →
    cause.message = "Root stack overflow" ∨ cause.message = "Root stack underflow" ∨
      ∃ r, op = .pushRoot r ∧ session.state.heap.contains r = false ∧
        cause.message = s!"pushing collected object {r.text}"

theorem guards_of_sound (hs : session.state.Sound) (h : op.Legal session.state) :
    op.Guards session := by
  have hfails : ∀ cause, op.act.failure? session = some (.fault cause) →
      op.Fails session.state (.fault cause) := fun cause => (endsWell hs h).fails _
  refine ⟨fun cause => ⟨fun hf => (hfails cause hf).breach? hs, fun hb => ?_⟩,
    fun cause after herror => ?_, fun cause after herror => ?_⟩
  · exact Action.failure?_of_error (act_of_breach? hs hb)
  · have hb := (hfails cause (Action.failure?_of_error herror)).breach? hs
    rw [act_of_breach? hs hb] at herror
    cases herror
    rfl
  · cases hfails cause (Action.failure?_of_error herror) with
    | pushFull | rootFull => exact Or.inl rfl
    | fewRoots | noRoots => exact Or.inr (Or.inl rfl)
    | gone hc => exact Or.inr (Or.inr ⟨_, rfl, hc, rfl⟩)

end Operation

open Machine

variable {settings : Settings} {session : Session Machine}

/-- **An operation breaks off exactly if its check of the stack or of its argument fails, and
nothing has changed then.**  That holds at every point of every run, so a collection, which
checks nothing, never breaks off. -/
theorem Reached.guards (h : Reached settings session) {op : Operation}
    (hlegal : op.Legal session.state) : op.Guards session :=
  Operation.guards_of_sound h.sound.1 hlegal

/-- A machine whose stack is full, with as many cells as the object limit allows. -/
def stuffed : Session Machine :=
  Operation.performAll [.pushScalar 1, .pushScalar 2]
    ⟨initial { stackCapacity := 2, initialThreshold := 1, maxObjects := some 2 }, [], ""⟩

/-- A third scalar is refused for the stack, although a collection is due and no cell may be
added: the collection does not run, and the limit is not looked at. -/
theorem stuffed_guarded :
    (Operation.pushScalar 3).act stuffed = .error (.fault .rootOverflow) stuffed ∧
      stuffed.state.threshold ≤ stuffed.state.count ∧
      stuffed.state.settings.maxObjects = some stuffed.state.count := by
  have hguards := @Reached.guards _ stuffed
    (reached_performAll (by decide) ⟨trivial, trivial, trivial⟩) (.pushScalar 3) trivial
  obtain ⟨after, hact⟩ := Action.failure?_eq_some_iff.1
    ((hguards.fault_iff .rootOverflow).2 (by decide +kernel))
  refine ⟨?_, by decide +kernel, by decide +kernel⟩
  rw [hact, hguards.unchanged _ _ hact]

end MarkSweep
