/-
# The root stack

The operand stack of a machine, and the only place where its roots are kept: a
cell is live when it can be reached from here.
-/

import MarkSweep.Action

namespace MarkSweep

/-- A bounded stack of handles. -/
structure RootStack where
  capacity : Nat := 256
  /-- The handles, bottom first. -/
  items : Array Ref := #[]

namespace RootStack

def depth (stack : RootStack) : Nat :=
  stack.items.size

def isEmpty (stack : RootStack) : Bool :=
  stack.items.isEmpty

def isFull (stack : RootStack) : Bool :=
  stack.capacity ≤ stack.depth

/-- The handle at a position counted from the top. -/
def nth? (stack : RootStack) (n : Nat) : Option Ref :=
  if n < stack.depth then stack.items[stack.depth - 1 - n]? else none

/-- The handle on top. -/
def peek? (stack : RootStack) : Option Ref :=
  stack.items.back?

/-- The handles, bottom first. -/
def toList (stack : RootStack) : List Ref :=
  stack.items.toList

/-- Puts a handle on top of a stack that is not full. -/
def push (r : Ref) : Action RootStack Unit := do
  if ← Action.observe isFull then
    Action.abort .rootOverflow
  Action.update fun ⟨capacity, items⟩ => ⟨capacity, items.push r⟩

/-- Takes the handle off the top. -/
def pop : Action RootStack Ref := do
  match ← Action.observe peek? with
  | none => Action.abort .rootUnderflow
  | some r =>
    Action.update fun ⟨capacity, items⟩ => ⟨capacity, items.pop⟩
    return r

/-- A push onto a full stack changes nothing. -/
theorem push_of_isFull {stack : RootStack} (h : stack.isFull = true) (r : Ref)
    (journal : List Record) (output : String) :
    push r ⟨stack, journal, output⟩ = .error (.fault .rootOverflow) ⟨stack, journal, output⟩ := by
  simp [push, h]

/-- A push onto any other stack adds one handle to it. -/
theorem push_of_not_isFull {stack : RootStack} (h : stack.isFull = false) (r : Ref)
    (journal : List Record) (output : String) :
    push r ⟨stack, journal, output⟩ =
      .ok () ⟨⟨stack.capacity, stack.items.push r⟩, journal, output⟩ := by
  simp [push, h]

end RootStack

end MarkSweep
