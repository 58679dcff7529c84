/-
# Weighing a heap

The loops of the collector end because each round takes something away from the
slots.  `weight` adds up what a measure `w` finds in every slot, and
`weight_modify` is the one fact the loops need: changing a slot changes the sum
by the change in that slot.
-/

import MarkSweep.Heap.Basic

namespace MarkSweep

namespace Heap

/-- What a measure finds in all the slots together. -/
def weight (w : Slot → Nat) (slots : Array Slot) : Nat :=
  slots.toList.foldr (fun slot total => w slot + total) 0

private theorem foldr_modify (w : Slot → Nat) (f : Slot → Slot) {slot : Slot} :
    ∀ {l : List Slot} {i : Nat}, l[i]? = some slot →
      (l.modify i f).foldr (fun slot total => w slot + total) 0 + w slot =
        l.foldr (fun slot total => w slot + total) 0 + w (f slot)
  | [], _, h => by simp at h
  | a :: l, 0, h => by
    obtain rfl : a = slot := by simpa using h
    simp only [List.modify_zero_cons, List.foldr_cons]
    omega
  | a :: l, i + 1, h => by
    have ih := foldr_modify w f (l := l) (i := i) (by simpa using h)
    simp only [List.modify_succ_cons, List.foldr_cons]
    omega

/-- Changing one slot changes the weight by as much as it changes that slot. -/
theorem weight_modify (w : Slot → Nat) (f : Slot → Slot) {slots : Array Slot} {i : Nat}
    {slot : Slot} (h : slots[i]? = some slot) :
    weight w (slots.modify i f) + w slot = weight w slots + w (f slot) := by
  unfold weight
  rw [Array.toList_modify]
  exact foldr_modify w f (by simpa using h)

/-- Changing one slot in a way that the measure does not notice leaves the weight
as it was. -/
theorem weight_modify_of_forall (w : Slot → Nat) (f : Slot → Slot) (slots : Array Slot) (i : Nat)
    (h : ∀ slot, w (f slot) = w slot) : weight w (slots.modify i f) = weight w slots := by
  cases hs : slots[i]? with
  | none =>
    unfold weight
    rw [Array.toList_modify, List.modify_eq_self (by simpa using hs)]
  | some slot =>
    have := weight_modify w f hs
    have := h slot
    omega

end Heap

end MarkSweep
