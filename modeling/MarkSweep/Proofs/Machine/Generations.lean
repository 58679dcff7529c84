/-
# Generations in a machine

A machine reaches its heap through operations of the heap alone, so the generations move on
as the journal says whatever a program asks for (`Operation.ages`).  Nothing is asked of the
machine: this holds of failing operations, and of machines that are out of order.
-/

import MarkSweep.Proofs.Heap.Generations
import MarkSweep.Proofs.Machine.Runs

namespace MarkSweep

namespace RootStack

/-- The stack writes no records. -/
theorem journal_push (r : Ref) (session : Session RootStack) :
    ((push r).after session).journal = session.journal := by
  obtain ⟨stack, journal, output⟩ := session
  cases h : stack.isFull with
  | true => rw [Action.after_of_error (push_of_isFull h r journal output)]
  | false => rw [Action.after_of_ok (push_of_not_isFull h r journal output)]

theorem journal_pop (session : Session RootStack) :
    (pop.after session).journal = session.journal := by
  obtain ⟨stack, journal, output⟩ := session
  cases h : stack.peek? with
  | none => simp [pop, h, Action.after]
  | some r => simp [pop, h, Action.after]

end RootStack

namespace Machine

variable {α : Type}

theorem ages_onHeap {act : Action Heap α} (h : Action.Ages id act) :
    Action.Ages heap (onHeap act) := by
  rintro ⟨machine, journal, output⟩
  obtain ⟨records, hjournal, hages⟩ := h ⟨machine.heap, journal, output⟩
  refine ⟨records, ?_⟩
  rw [Action.after] at hjournal hages ⊢
  rw [onHeap_apply]
  cases hresult : act ⟨machine.heap, journal, output⟩ <;>
    exact ⟨by simpa [hresult] using hjournal, by simpa [hresult] using hages⟩

theorem ages_onRoots {act : Action RootStack α}
    (h : ∀ session, (act.after session).journal = session.journal) :
    Action.Ages heap (onRoots act) := by
  rintro ⟨machine, journal, output⟩
  have hjournal := h ⟨machine.roots, journal, output⟩
  refine ⟨[], ?_⟩
  rw [Action.after] at hjournal ⊢
  rw [onRoots_apply]
  cases hresult : act ⟨machine.roots, journal, output⟩ <;>
    exact ⟨by simpa [hresult] using hjournal, .refl _⟩

theorem ages_collect : Action.Ages heap collect := by
  refine .bind (Action.ages_observe _) fun roots => ?_
  refine .bind (ages_onHeap (Heap.ages_markFrom roots)) fun marked => ?_
  refine .bind (ages_onHeap Heap.ages_sweep) fun collected => ?_
  refine .bind (Action.ages_transition fun _ => rfl) fun settled => ?_
  exact .bind (Action.ages_record fun i => by simp) fun _ => Action.ages_pure _

theorem ages_makeRoom : Action.Ages heap makeRoom := by
  have hdue : Action.Ages heap collectIfDue := by
    refine .bind (Action.ages_observe _) fun due => .ite ?_ (Action.ages_pure _)
    exact ages_collect.bind fun _ => Action.ages_pure _
  have hlimit : ∀ limit collected, Action.Ages heap (enforceLimit limit collected) := by
    intro limit collected
    have hrefuse : Action.Ages heap (do
        let live ← Action.observe (·.count)
        if limit ≤ live then
          Action.record (.limitReached live limit)
          throw (.heapExhausted live limit)) := by
      refine .bind (Action.ages_observe _) fun live => .ite ?_ (Action.ages_pure _)
      exact .bind (Action.ages_record fun i => by simp) fun _ => Action.ages_throw _
    exact .bind (Action.ages_observe _) fun _ => .ite (ages_collect.bind fun _ => hrefuse) hrefuse
  refine hdue.bind fun collected => .bind (Action.ages_observe _) fun limit? => ?_
  cases limit? with
  | none => exact Action.ages_pure _
  | some limit => exact hlimit limit collected

theorem ages_allocate (payload : Payload) : Action.Ages heap (allocate payload) := by
  refine ages_makeRoom.bind fun _ => .bind (ages_onHeap (Heap.ages_allocate payload)) fun r => ?_
  exact .bind (Action.ages_update fun _ => rfl) fun _ => Action.ages_pure r

theorem ages_popRoot : Action.Ages heap popRoot :=
  ages_onRoots RootStack.journal_pop

theorem ages_pushScalar (value : Int64) : Action.Ages heap (pushScalar value) := by
  have hpush : Action.Ages heap (do
      let r ← allocate (.scalar value)
      onRoots (RootStack.push r)
      return r) := by
    refine (ages_allocate _).bind fun r => ?_
    exact .bind (ages_onRoots (RootStack.journal_push r)) fun _ => Action.ages_pure r
  exact .bind (Action.ages_observe _) fun _ =>
    .ite (.bind (Action.ages_throw _) fun _ => hpush) hpush

theorem ages_makePair : Action.Ages heap makePair := by
  have hmake : Action.Ages heap (do
      let pair ← allocate (.zeroed .pair)
      let first ← popRoot
      let second ← popRoot
      onHeap (Heap.setPair pair first second)
      onRoots (RootStack.push pair)
      return pair) := by
    refine (ages_allocate _).bind fun pair => ages_popRoot.bind fun first => ?_
    refine ages_popRoot.bind fun second => .bind (ages_onHeap (Heap.ages_setPair _ _ _)) fun _ => ?_
    exact .bind (ages_onRoots (RootStack.journal_push pair)) fun _ => Action.ages_pure pair
  exact .bind (Action.ages_observe _) fun _ =>
    .ite (.bind (Action.ages_throw _) fun _ => hmake) hmake

theorem ages_pushRoot (r : Ref) : Action.Ages heap (pushRoot r) := by
  have hpush : Action.Ages heap (onRoots (RootStack.push r)) :=
    ages_onRoots (RootStack.journal_push r)
  exact .bind (Action.ages_observe _) fun _ =>
    .ite hpush (.bind (Action.ages_throw _) fun _ => hpush)

end Machine

/-- Whatever a program asks a machine for, the generations move on as it records. -/
theorem Operation.ages (op : Operation) : Action.Ages Machine.heap op.act := by
  have hmap : ∀ {α : Type} {act : Action Machine α}, Action.Ages Machine.heap act →
      Action.Ages Machine.heap ((fun _ => ()) <$> act) := fun h session => by
    rw [Action.after_map]
    exact h session
  cases op with
  | pushScalar value => exact hmap (Machine.ages_pushScalar value)
  | makePair => exact hmap Machine.ages_makePair
  | pushRoot r => exact Machine.ages_pushRoot r
  | popRoot => exact hmap Machine.ages_popRoot
  | collect => exact hmap Machine.ages_collect
  | setPair pair first second => exact Machine.ages_onHeap (Heap.ages_setPair _ _ _)

end MarkSweep
