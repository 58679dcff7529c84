/-
# Collection

A collection marks from the roots, bottom of the stack first, sweeps what stayed
unmarked, and sets the threshold for the next one in proportion to what
survived.
-/

import MarkSweep.Machine.Basic

namespace MarkSweep

/-- What a collection did: the cells it marked, freed and left, and the threshold
from then on. -/
structure Collection where
  marked : Nat
  collected : Nat
  remaining : Nat
  threshold : Nat
  deriving DecidableEq

/-- The threshold after a collection that left `live` cells: a multiple of them,
as far as 64 bits can count, but never below the least one allowed. -/
def Settings.thresholdAfter (settings : Settings) (live : Nat) : Nat :=
  max (min (live * settings.growthFactor) (UInt64.size - 1)) settings.minThreshold

namespace Machine

/-- Enters a collection that freed `collected` cells into the books, and answers
how many cells remain and the new threshold. -/
def settle (collected : Nat) (machine : Machine) : (Nat × Nat) × Machine :=
  match machine with
  | ⟨heap, roots, _, settings, ⟨collections, allocated, total⟩⟩ =>
    let remaining := heap.count
    let threshold := settings.thresholdAfter remaining
    ((remaining, threshold),
      ⟨heap, roots, threshold, settings, ⟨collections + 1, allocated, total + collected⟩⟩)

/-- Frees every cell that cannot be reached from the roots. -/
def collect : Action Machine Collection := do
  let roots ← Action.observe (·.roots.toList)
  let marked ← onHeap (Heap.markFrom roots)
  let collected ← onHeap Heap.sweep
  let (remaining, threshold) ← Action.transition (settle collected)
  Action.record (.collected collected remaining)
  return { marked, collected, remaining, threshold }

end Machine

end MarkSweep
