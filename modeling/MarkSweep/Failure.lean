/-
# Failures

Everything that can go wrong, named by its cause.  A `Failure` is an outcome the
caller is expected to handle: the arena or the object limit is full, the settings
make no sense, a check found the wrong number of cells.  A `Fault` is a broken
precondition: the operation stops where it stands, and what it had already
changed stays changed.
-/

import MarkSweep.Ref
import MarkSweep.Settings

namespace MarkSweep

/-- A broken precondition.  The first three are the caller's; the others can only
arise on a heap whose links no longer agree with its slots, or on links that the
caller made up. -/
inductive Fault where
  /-- A root was pushed onto a full stack. -/
  | rootOverflow
  /-- A root was taken from a stack with too few of them. -/
  | rootUnderflow
  /-- A handle whose cell is gone was pushed as a root. -/
  | collectedRoot (r : Ref)
  /-- Marking met a handle whose cell is gone. -/
  | danglingEdge (r : Ref)
  /-- The allocation list runs into a cell that is gone. -/
  | brokenLink (r : Ref)
  /-- The survivor that precedes a freed cell on the allocation list is gone. -/
  | lostSurvivor (r : Ref)
  /-- More cells were freed than were counted. -/
  | countUnderflow
  /-- The pair to be filled is gone. -/
  | danglingPair (r : Ref)
  /-- The cell to be filled is no pair. -/
  | notAPair (r : Ref)
  /-- A pair that should have a first link has none. -/
  | unfilledPair (r : Ref)
  /-- A slot that is listed as free is occupied. -/
  | liveSlot (index : Nat)
  /-- A slot that is listed as free does not exist. -/
  | missingSlot (index : Nat)
  deriving DecidableEq

def Fault.message : Fault → String
  | .rootOverflow => "Root stack overflow"
  | .rootUnderflow => "Root stack underflow"
  | .collectedRoot r => s!"pushing collected object {r.text}"
  | .danglingEdge r => s!"dangling reference {r.text} reached during marking"
  | .brokenLink r => s!"allocation list links freed cell {r.text}"
  | .lostSurvivor r => s!"survivor {r.text} vanished during sweep"
  | .countUnderflow => "more cells freed than counted"
  | .danglingPair r => s!"dangling pair reference {r.text}"
  | .notAPair r => s!"{r.text} is not a pair"
  | .unfilledPair r => s!"{r.text} is not a filled pair"
  | .liveSlot _ => "free list points at a live slot"
  | .missingSlot index => s!"free list points at missing slot {index}"

/-- The outcomes other than success. -/
inductive Failure where
  /-- The arena has as many slots as can be numbered.  That the memory for another slot
  is refused before that has no counterpart here; it would end in the same way and
  leave the heap as this does. -/
  | outOfMemory
  /-- The object limit is still reached after a collection. -/
  | heapExhausted (live limit : Nat)
  /-- A setting is zero. -/
  | invalidSettings (setting : Setting)
  /-- A scenario left another number of cells than it should. -/
  | mismatch (scenario : String) (expected found : Nat)
  /-- A precondition was broken. -/
  | fault (cause : Fault)
  deriving DecidableEq

def Failure.message : Failure → String
  | .outOfMemory => "out of memory: the heap arena could not grow"
  | .heapExhausted live limit => s!"heap exhausted: {live} objects live, limit is {limit}"
  | .invalidSettings setting => s!"invalid machine settings: {setting.complaint}"
  | .mismatch scenario expected found =>
    s!"{scenario}: expected {expected} live objects, found {found}"
  | .fault cause => cause.message

end MarkSweep
