/-
# Cells

What the heap stores.  A cell holds a `Payload` (a number, or a pair of links
to other cells) and the two fields the collector needs for itself: a mark bit
and the link to the cell allocated before it.
-/

import MarkSweep.Ref

namespace MarkSweep

/-- The two kinds of cell. -/
inductive Kind where
  | scalar
  | pair
  deriving DecidableEq

/-- The kind as dumps and journal entries spell it. -/
def Kind.name : Kind → String
  | .scalar => "Scalar"
  | .pair => "Pair"

/-- What a cell holds: a 64-bit number, or two links of which either may be
absent. -/
inductive Payload where
  | scalar (value : Int64)
  | pair (first second : Option Ref)
  deriving DecidableEq

namespace Payload

/-- The payload of a kind with nothing filled in yet. -/
def zeroed : Kind → Payload
  | .scalar => .scalar 0
  | .pair => .pair none none

def kind : Payload → Kind
  | .scalar _ => .scalar
  | .pair _ _ => .pair

/-- The number of a scalar. -/
def value? : Payload → Option Int64
  | .scalar value => some value
  | .pair _ _ => none

/-- The first link of a pair, if it is filled. -/
def first? : Payload → Option Ref
  | .scalar _ => none
  | .pair first _ => first

/-- The second link of a pair, if it is filled. -/
def second? : Payload → Option Ref
  | .scalar _ => none
  | .pair _ second => second

/-- The cells a payload points at: first before second, absent links left out. -/
def edges (payload : Payload) : List Ref :=
  payload.first?.toList ++ payload.second?.toList

/-- The cells pointed at are those of the two links, and no others. -/
theorem mem_edges_iff {payload : Payload} {s : Ref} :
    s ∈ payload.edges ↔ payload.first? = some s ∨ payload.second? = some s := by
  rw [edges, List.mem_append, Option.mem_toList, Option.mem_toList]

/-- No payload points at more than two cells, which is what bounds the work of
marking. -/
theorem length_edges_le (payload : Payload) : payload.edges.length ≤ 2 := by
  cases payload with
  | scalar => simp [edges, first?, second?]
  | pair first second => cases first <;> cases second <;> simp [edges, first?, second?]

end Payload

/-- A cell of the heap.  `next` threads all cells on one list, newest first. -/
structure Cell where
  payload : Payload
  marked : Bool := false
  next : Option Ref := none
  deriving DecidableEq

end MarkSweep
