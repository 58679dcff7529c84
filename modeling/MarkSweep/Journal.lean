/-
# The journal

Operations leave a record of what they did to the heap.  Records are values, not
text, so that the history of a heap can be read off them; `Record.line` is how
one is written.
-/

import MarkSweep.Cell

namespace MarkSweep

/-- How severe a record is. -/
inductive Level where
  | warn
  | info
  | debug
  | trace
  deriving DecidableEq

namespace Level

def name : Level → String
  | .warn => "WARN"
  | .info => "INFO"
  | .debug => "DEBUG"
  | .trace => "TRACE"

/-- Levels from the most severe, counted from zero. -/
def rank : Level → Nat
  | .warn => 0
  | .info => 1
  | .debug => 2
  | .trace => 3

/-- A reader at one level sees what is at least as severe. -/
def admits (reader level : Level) : Bool :=
  level.rank ≤ reader.rank

end Level

/-- One entry of the journal. -/
inductive Record where
  /-- A cell was allocated in a slot. -/
  | allocated (kind : Kind) (index : Nat)
  /-- The cell in a slot was freed. -/
  | freed (index : Nat)
  /-- A collection ended. -/
  | collected (count remaining : Nat)
  /-- An allocation was refused for the object limit. -/
  | limitReached (live limit : Nat)
  /-- A machine was given up. -/
  | released (objects : Nat)
  /-- A scenario left the cells that it should. -/
  | scenarioPassed (scenario : String) (collected remaining : Nat)
  /-- A stress run came to its end. -/
  | stressEnded (iterations collections remaining : Nat)
  deriving DecidableEq

namespace Record

def level : Record → Level
  | .allocated _ _ | .freed _ => .trace
  | .collected _ _ | .released _ => .debug
  | .scenarioPassed _ _ _ | .stressEnded _ _ _ => .info
  | .limitReached _ _ => .warn

def text : Record → String
  | .allocated kind index => s!"allocated {kind.name} #{index}"
  | .freed index => s!"freed #{index}"
  | .collected count remaining => s!"Collected {count} objects, {remaining} remaining."
  | .limitReached live limit => s!"object limit reached: {live} live, limit {limit}"
  | .released objects => s!"releasing machine with {objects} objects"
  | .scenarioPassed scenario count remaining =>
    s!"{scenario}: collected {count}, {remaining} remaining"
  | .stressEnded iterations collections remaining =>
    s!"stress: {iterations} iterations, {collections} collections, " ++
      s!"{remaining} objects remaining"

/-- A record as a line of the journal. -/
def line (r : Record) : String :=
  s!"{r.level.name} {r.text}"

end Record

end MarkSweep
