/-
# Unfolding

What a reader sees of the graph below a cell is a tree: shared cells appear once
for each way to them, and pairs below a given depth are cut off, which also cuts
cycles.  `Heap.write` writes it on the way through the graph, without making it;
`Heap.unfold` makes it, and `Unfolding.text` is how it is written.
-/

import MarkSweep.Heap.Basic

namespace MarkSweep

/-- The part of a graph that is seen from one link, down to some depth. -/
inductive Unfolding where
  /-- No link. -/
  | nil
  /-- A link to a cell that is gone. -/
  | freed (index : Nat)
  | scalar (value : Int64)
  /-- A pair below the depth that was asked for. -/
  | cut
  | pair (first second : Unfolding)
  deriving DecidableEq

/-- The tree as text. -/
def Unfolding.text : Unfolding → String
  | .nil => "nil"
  | .freed index => s!"<freed #{index}>"
  | .scalar value => toString value
  | .cut => "(...)"
  | .pair first second => "(" ++ first.text ++ " . " ++ second.text ++ ")"

namespace Heap

/-- Unfolds the graph from a link, through at most `depth` pairs on any path. -/
def unfold (heap : Heap) : (depth : Nat) → (link : Option Ref) → Unfolding
  | _, none => .nil
  | depth, some r =>
    match heap.get? r with
    | none => .freed r.index
    | some cell =>
      match cell.payload, depth with
      | .scalar value, _ => .scalar value
      | .pair _ _, 0 => .cut
      | .pair first second, depth + 1 =>
        .pair (heap.unfold depth first) (heap.unfold depth second)

/-- Writes what is seen from a link behind a text.  The depth is that of the link,
counted from the root; from `limit` on pairs are cut off. -/
def write (heap : Heap) (limit depth : Nat) (link : Option Ref) (output : String) : String :=
  match link with
  | none => output ++ "nil"
  | some r =>
    match heap.get? r with
    | none => output ++ s!"<freed {r.text}>"
    | some cell =>
      match cell.payload with
      | .scalar value => output ++ toString value
      | .pair first second =>
        if limit ≤ depth then
          output ++ "(...)"
        else
          let output := heap.write limit (depth + 1) first (output ++ "(")
          let output := heap.write limit (depth + 1) second (output ++ " . ")
          output ++ ")"
termination_by limit - depth

/-- The graph below a cell as text. -/
def prettyPrint (heap : Heap) (r : Ref) (depth : Nat) : String :=
  heap.write depth 0 (some r) ""

end Heap

end MarkSweep
