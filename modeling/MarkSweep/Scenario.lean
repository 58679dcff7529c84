/-
# Scenarios

Small programs that build a graph whose live part is known, so that a collection
can be checked by counting what it leaves.
-/

import MarkSweep.Machine.Dump
import MarkSweep.Machine.Operations

namespace MarkSweep

/-- The checks of the collector. -/
inductive Scenario where
  | rootedScalars
  | droppedScalars
  | nestedPairs
  | rootedCycle
  | droppedCycle
  deriving DecidableEq

namespace Machine

/-- The first link of a pair that must have one. -/
def firstOf (pair : Ref) : Action Machine Ref := do
  match ← Action.observe fun machine => (machine.heap.get? pair).bind (·.payload.first?) with
  | some first => return first
  | none => Action.abort (.unfilledPair pair)

/-- Builds two pairs that point at each other with their second links and stay on
the root stack.  The scalars that those links held before become garbage. -/
def buildCycle : Action Machine Unit := do
  let _ ← pushScalar 1
  let _ ← pushScalar 2
  let a ← makePair
  let _ ← pushScalar 3
  let _ ← pushScalar 4
  let b ← makePair
  let firstOfA ← firstOf a
  let firstOfB ← firstOf b
  onHeap (Heap.setPair a firstOfA b)
  onHeap (Heap.setPair b firstOfB a)

end Machine

namespace Scenario

open Machine

/-- The scenarios in the order in which they are run. -/
def all : List Scenario :=
  [.rootedScalars, .droppedScalars, .nestedPairs, .rootedCycle, .droppedCycle]

def name : Scenario → String
  | .rootedScalars => "objects on stack are preserved"
  | .droppedScalars => "unreached objects are collected"
  | .nestedPairs => "nested objects are reached"
  | .rootedCycle => "rooted cycles are kept"
  | .droppedCycle => "unrooted cycles are freed"

/-- How many cells are live once the graph is built. -/
def expected : Scenario → Nat
  | .rootedScalars => 2
  | .droppedScalars => 0
  | .nestedPairs => 7
  | .rootedCycle => 4
  | .droppedCycle => 0

/-- Builds the graph of a scenario. -/
def build : Scenario → Action Machine Unit
  | .rootedScalars => do
    let _ ← pushScalar 1
    let _ ← pushScalar 2
  | .droppedScalars => do
    let _ ← pushScalar 1
    let _ ← pushScalar 2
    let _ ← popRoot
    let _ ← popRoot
  | .nestedPairs => do
    let _ ← pushScalar 1
    let _ ← pushScalar 2
    let _ ← makePair
    let _ ← pushScalar 3
    let _ ← pushScalar 4
    let _ ← makePair
    let _ ← makePair
  | .rootedCycle => buildCycle
  | .droppedCycle => do
    buildCycle
    let _ ← popRoot
    let _ ← popRoot

/-- Builds the graph, collects, and checks how many cells are left. -/
def check (scenario : Scenario) (dump : Bool) : Action Machine Collection := do
  scenario.build
  let collection ← collect
  if dump then
    printRoots
    printCells
  if collection.remaining ≠ scenario.expected then
    throw (.mismatch scenario.name scenario.expected collection.remaining)
  Action.record (.scenarioPassed scenario.name collection.collected collection.remaining)
  return collection

/-- Checks a scenario on a machine of its own. -/
def run (scenario : Scenario) (settings : Settings) (dump : Bool) : Action Unit Collection :=
  within settings (scenario.check dump)

end Scenario

end MarkSweep
