/-
# The machine's operations

A program pushes scalars, replaces the two topmost roots by a pair of them, and
pushes and pops roots.  Every precondition on the stack is checked before
anything is allocated, so an operation that breaks one changes nothing.
-/

import MarkSweep.Machine.Collect

namespace MarkSweep

namespace Machine

/-- Puts a cell that still exists on the root stack. -/
def pushRoot (r : Ref) : Action Machine Unit := do
  unless ← Action.observe (·.heap.contains r) do
    Action.abort (.collectedRoot r)
  onRoots (RootStack.push r)

/-- Takes the topmost root off the stack. -/
def popRoot : Action Machine Ref :=
  onRoots RootStack.pop

/-- Collects if the heap has reached the threshold, and says whether it did. -/
def collectIfDue : Action Machine Bool := do
  if ← Action.observe fun machine => decide (machine.threshold ≤ machine.count) then
    let _ ← collect
    return true
  else
    return false

/-- Refuses to go on with as many live cells as the object limit allows.  Before
it refuses it makes sure that they are live, by a collection unless one has just
run. -/
def enforceLimit (limit : Nat) (collected : Bool) : Action Machine Unit := do
  let count ← Action.observe (·.count)
  if limit ≤ count && !collected then
    let _ ← collect
  let live ← Action.observe (·.count)
  if limit ≤ live then
    Action.record (.limitReached live limit)
    throw (.heapExhausted live limit)

/-- Counts one more allocation. -/
def countAllocation (machine : Machine) : Machine :=
  match machine with
  | ⟨heap, roots, threshold, settings, ⟨collections, allocated, collected⟩⟩ =>
    ⟨heap, roots, threshold, settings, ⟨collections, allocated + 1, collected⟩⟩

/-- Makes room for one more cell: collects if a collection is due, and sees to the
object limit. -/
def makeRoom : Action Machine Unit := do
  let collected ← collectIfDue
  match ← Action.observe (·.settings.maxObjects) with
  | none => pure ()
  | some limit => enforceLimit limit collected

/-- Takes a new cell from the heap and counts it. -/
def claim (payload : Payload) : Action Machine Ref := do
  let r ← onHeap (Heap.allocate payload)
  Action.update countAllocation
  return r

/-- Allocates a cell, after a collection if one is due. -/
def allocate (payload : Payload) : Action Machine Ref := do
  makeRoom
  claim payload

/-- Allocates a scalar and puts it on the root stack. -/
def pushScalar (value : Int64) : Action Machine Ref := do
  if ← Action.observe (·.roots.isFull) then
    Action.abort .rootOverflow
  let r ← allocate (.scalar value)
  onRoots (RootStack.push r)
  return r

/-- Replaces the two topmost roots by a pair of them, the topmost one first.  Both
stay on the stack while the pair is allocated, so that a collection on the way
cannot free them. -/
def makePair : Action Machine Ref := do
  if (← Action.observe (·.depth)) < 2 then
    Action.abort .rootUnderflow
  let pair ← allocate (.zeroed .pair)
  let first ← popRoot
  let second ← popRoot
  onHeap (Heap.setPair pair first second)
  onRoots (RootStack.push pair)
  return pair

end Machine

end MarkSweep
