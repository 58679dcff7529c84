/-
# What the printer writes

The printer goes through the graph and writes as it goes, with the depth counted up from the root
and the text so far handed on from one link to the next.  What it adds to that text is the text of
the tree below the link, cut off as many pairs further down as are left to the limit
(`Heap.write_eq`).  The text of a cell is the text of its tree (`Heap.prettyPrint_eq`).

First come the equations of the tree, and of the printer, one for each thing that can be under a
link.
-/

import MarkSweep.Proofs.Heap.Views
import MarkSweep.Unfolding

namespace MarkSweep

namespace Heap

variable {heap : Heap} {r : Ref} {value : Int64} {first second : Option Ref} {limit depth : Nat}

/-- What can be under a handle. -/
theorem payload?_cases (heap : Heap) (r : Ref) : heap.get? r = none ∨
    (∃ value, heap.payload? r = some (.scalar value)) ∨
      ∃ first second, heap.payload? r = some (.pair first second) := by
  cases hget : heap.get? r with
  | none => exact Or.inl rfl
  | some cell =>
    have hp : heap.payload? r = some cell.payload := congrArg (Option.map Cell.payload) hget
    cases hpayload : cell.payload with
    | scalar value => exact Or.inr (Or.inl ⟨value, hpayload ▸ hp⟩)
    | pair first second => exact Or.inr (Or.inr ⟨first, second, hpayload ▸ hp⟩)

/-! ### The tree -/

@[simp] theorem unfold_none (heap : Heap) (depth : Nat) : heap.unfold depth none = .nil := by
  cases depth <;> rfl

theorem unfold_freed (h : heap.get? r = none) (depth : Nat) :
    heap.unfold depth (some r) = .freed r.index := by
  unfold unfold
  simp [h]

theorem unfold_scalar (h : heap.payload? r = some (.scalar value)) (depth : Nat) :
    heap.unfold depth (some r) = .scalar value := by
  obtain ⟨cell, hcell, hp⟩ := Option.map_eq_some_iff.1 h
  unfold unfold
  simp [hcell, hp]

theorem unfold_pair_zero (h : heap.payload? r = some (.pair first second)) :
    heap.unfold 0 (some r) = .cut := by
  obtain ⟨cell, hcell, hp⟩ := Option.map_eq_some_iff.1 h
  unfold unfold
  simp [hcell, hp]

theorem unfold_pair_succ (h : heap.payload? r = some (.pair first second)) (depth : Nat) :
    heap.unfold (depth + 1) (some r) =
      .pair (heap.unfold depth first) (heap.unfold depth second) := by
  obtain ⟨cell, hcell, hp⟩ := Option.map_eq_some_iff.1 h
  rw [unfold]
  simp [hcell, hp]

/-! ### The printer -/

theorem write_none (heap : Heap) (limit depth : Nat) (output : String) :
    heap.write limit depth none output = output ++ "nil" := by
  rw [write]

theorem write_freed (h : heap.get? r = none) (limit depth : Nat) (output : String) :
    heap.write limit depth (some r) output = output ++ (Unfolding.freed r.index).text := by
  rw [write]
  simp only [h]
  rfl

theorem write_scalar (h : heap.payload? r = some (.scalar value)) (limit depth : Nat)
    (output : String) :
    heap.write limit depth (some r) output = output ++ (Unfolding.scalar value).text := by
  obtain ⟨cell, hcell, hp⟩ := Option.map_eq_some_iff.1 h
  rw [write]
  simp only [hcell, hp]
  rfl

theorem write_pair_of_le (h : heap.payload? r = some (.pair first second)) (hle : limit ≤ depth)
    (output : String) : heap.write limit depth (some r) output = output ++ "(...)" := by
  obtain ⟨cell, hcell, hp⟩ := Option.map_eq_some_iff.1 h
  rw [write]
  simp only [hcell, hp, if_pos hle]

theorem write_pair_of_lt (h : heap.payload? r = some (.pair first second)) (hlt : depth < limit)
    (output : String) : heap.write limit depth (some r) output =
      heap.write limit (depth + 1) second
        (heap.write limit (depth + 1) first (output ++ "(") ++ " . ") ++ ")" := by
  obtain ⟨cell, hcell, hp⟩ := Option.map_eq_some_iff.1 h
  rw [write]
  simp only [hcell, hp, if_neg (Nat.not_le.2 hlt)]

/-- **The printer adds the text of the tree below the link.** -/
theorem write_eq (heap : Heap) (limit : Nat) : ∀ (depth : Nat) (link : Option Ref)
    (output : String), heap.write limit depth link output =
      output ++ (heap.unfold (limit - depth) link).text
  | depth, none, output => by
    rw [write_none, unfold_none]
    rfl
  | depth, some r, output => by
    rcases payload?_cases heap r with hr | ⟨value, hp⟩ | ⟨first, second, hp⟩
    · rw [write_freed hr, unfold_freed hr]
    · rw [write_scalar hp, unfold_scalar hp]
    · rcases Nat.lt_or_ge depth limit with hlt | hle
      · -- one pair further down there is one pair less to the limit
        have hbelow : limit - depth = limit - (depth + 1) + 1 := by omega
        have hfirst := write_eq heap limit (depth + 1) first
        have hsecond := write_eq heap limit (depth + 1) second
        rw [write_pair_of_lt hp hlt, hsecond, hfirst, hbelow, unfold_pair_succ hp]
        simp only [Unfolding.text, String.append_assoc]
      · rw [write_pair_of_le hp hle, Nat.sub_eq_zero_of_le hle, unfold_pair_zero hp]
        rfl
termination_by depth => limit - depth

/-- The text of a cell is that of its tree. -/
theorem prettyPrint_eq (heap : Heap) (r : Ref) (depth : Nat) :
    heap.prettyPrint r depth = (heap.unfold depth (some r)).text := by
  rw [prettyPrint, write_eq, String.empty_append, Nat.sub_zero]

end Heap

end MarkSweep
