/-
# The machine

A stack machine that owns a heap.  Its stack is the only root set: what cannot
be reached from there may be freed by the next collection, which runs on request
or when an allocation finds `threshold` cells on the heap.
-/

import MarkSweep.RootStack
import MarkSweep.Heap.Allocate
import MarkSweep.Heap.Mark
import MarkSweep.Heap.Sweep

namespace MarkSweep

/-- What a machine has done in its lifetime: how often it collected, how many
cells it allocated and how many it freed. -/
structure Totals where
  collections : Nat := 0
  allocated : Nat := 0
  collected : Nat := 0
  deriving DecidableEq

/-- A heap, its roots, and when to collect. -/
structure Machine where
  heap : Heap
  roots : RootStack
  /-- The cell count at which an allocation collects first. -/
  threshold : Nat
  settings : Settings
  totals : Totals

namespace Machine

/-- The machine that a run starts from. -/
def initial (settings : Settings) : Machine :=
  ⟨{}, { capacity := settings.stackCapacity }, settings.initialThreshold, settings, {}⟩

/-- The machine that a run starts from, if the settings allow one. -/
def create (settings : Settings) : Except Failure Machine :=
  match settings.rejected? with
  | some setting => .error (.invalidSettings setting)
  | none => .ok (initial settings)

/-- How many cells the heap holds. -/
def count (machine : Machine) : Nat :=
  machine.heap.count

/-- How many roots there are. -/
def depth (machine : Machine) : Nat :=
  machine.roots.depth

/-- Works on the heap behind the machine's back: no collection, no totals. -/
@[inline] def onHeap {α : Type} (act : Action Heap α) : Action Machine α :=
  Action.focus
    (fun ⟨heap, roots, threshold, settings, totals⟩ =>
      (heap, fun heap => ⟨heap, roots, threshold, settings, totals⟩))
    act

/-- Works on the root stack. -/
@[inline] def onRoots {α : Type} (act : Action RootStack α) : Action Machine α :=
  Action.focus
    (fun ⟨heap, roots, threshold, settings, totals⟩ =>
      (roots, fun roots => ⟨heap, roots, threshold, settings, totals⟩))
    act

/-- Runs an action on a machine of its own.  The machine is given up however the
action ends, and the journal says with how many cells. -/
def within {α : Type} (settings : Settings) (act : Action Machine α) : Action Unit α :=
  fun ⟨_, journal, output⟩ =>
    match create settings with
    | .error failure => .error failure ⟨(), journal, output⟩
    | .ok machine =>
      match act ⟨machine, journal, output⟩ with
      | .ok a ⟨machine, journal, output⟩ =>
        .ok a ⟨(), .released machine.count :: journal, output⟩
      | .error failure ⟨machine, journal, output⟩ =>
        .error failure ⟨(), .released machine.count :: journal, output⟩

end Machine

end MarkSweep
