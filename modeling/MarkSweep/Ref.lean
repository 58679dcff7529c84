/-
# Handles

A cell is never named by its address but by a `Ref`: the slot it sits in, and
how often that slot had been vacated when the cell moved in.  Two occupants of
one slot therefore have different handles (until the counter wraps), and a
handle that outlives its cell is recognised instead of reaching whoever lives
there now.
-/

namespace MarkSweep

/-- A handle to a cell: the index of a slot and the generation the slot had when
the handle was given out. -/
structure Ref where
  index : Nat
  generation : UInt32
  deriving DecidableEq, Inhabited

/-- A handle is written by its slot alone. -/
def Ref.text (r : Ref) : String :=
  s!"#{r.index}"

end MarkSweep
