/-
# The stress run

Fills part of the root stack with scalars, folds them into one deep pair, drops
it, and starts over; a last collection takes what is left.
-/

import MarkSweep.Machine.Operations

namespace MarkSweep

namespace Stress

open Machine

/-- How many scalars go into one pair: as many as the stack holds, but not more
than twenty. -/
def batch (settings : Settings) : Nat :=
  min settings.stackCapacity 20

/-- Pushes `n` scalars, counting up from `start`. -/
def pushScalars (start : Nat) : (n : Nat) → Action Machine Unit
  | 0 => pure ()
  | n + 1 => do
    let _ ← pushScalar (Int64.ofNat start)
    pushScalars (start + 1) n

/-- Makes `n` pairs, each of the two topmost roots. -/
def makePairs : (n : Nat) → Action Machine Unit
  | 0 => pure ()
  | n + 1 => do
    let _ ← makePair
    makePairs n

/-- One round: a batch of scalars, folded until one root is left, and dropped. -/
def round (batch index : Nat) : Action Machine Unit := do
  pushScalars (index * batch) batch
  let depth ← Action.observe (·.depth)
  makePairs (depth - 1)
  let _ ← popRoot

/-- `n` rounds, the first of them with the number `index`. -/
def rounds (batch index : Nat) : (n : Nat) → Action Machine Unit
  | 0 => pure ()
  | n + 1 => do
    round batch index
    rounds batch (index + 1) n

/-- Some rounds and a last collection, on the machine at hand. -/
def drill (iterations : Nat) : Action Machine Totals := do
  let batch ← Action.observe (batch ·.settings)
  rounds batch 0 iterations
  let collection ← collect
  let totals ← Action.observe (·.totals)
  Action.record (.stressEnded iterations totals.collections collection.remaining)
  return totals

/-- A stress run on a machine of its own. -/
def run (settings : Settings) (iterations : Nat) : Action Unit Totals :=
  within settings (drill iterations)

end Stress

end MarkSweep
