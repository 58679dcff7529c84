/-
# Dumps

The root stack and the allocation list as text, a line for each entry.
-/

import MarkSweep.Machine.Basic
import MarkSweep.Unfolding

namespace MarkSweep

/-- A link in a dump of the heap: the slot alone, or the absence of one. -/
def Payload.linkText : Option Ref → String
  | none => "nil"
  | some r => r.text

/-- A payload in a dump of the heap. -/
def Payload.text : Payload → String
  | .scalar value => toString value
  | .pair first second => s!"{linkText first} {linkText second}"

/-- A cell as one line of a dump. -/
def Cell.line (r : Ref) (cell : Cell) : String :=
  s!"{r.text} gen {r.generation} {cell.payload.kind.name} {cell.payload.text}\n"

/-- The allocation list, newest cell first. -/
def Heap.dump (heap : Heap) : String :=
  String.join (heap.cells.map fun (r, cell) => cell.line r)

/-- A number with at least two digits. -/
def twoDigits (n : Nat) : String :=
  if n < 10 then s!"0{n}" else toString n

namespace Machine

/-- How far a dump of the roots looks into the graph. -/
def dumpDepth : Nat := 4

/-- A root as one line of a dump, with its position from the bottom of the stack. -/
def rootLine (heap : Heap) (position : Nat) (r : Ref) : String :=
  s!"[{twoDigits position}] {heap.prettyPrint r dumpDepth}\n"

/-- The root stack, top first. -/
def dumpRoots (machine : Machine) : String :=
  let lines := machine.roots.toList.zipIdx.map fun (r, position) =>
    rootLine machine.heap position r
  String.join lines.reverse

/-- Prints the root stack under a heading. -/
def printRoots : Action Machine Unit := do
  let heading ← Action.observe fun machine => s!"--- Roots ({machine.depth}):\n"
  let lines ← Action.observe dumpRoots
  Action.print (heading ++ lines)

/-- Prints the allocation list. -/
def printCells : Action Machine Unit := do
  let lines ← Action.observe (·.heap.dump)
  Action.print lines

end Machine

end MarkSweep
