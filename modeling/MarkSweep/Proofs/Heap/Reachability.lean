/-
# Reachability

A cell is live when some root leads to it along the links of pairs.  Reachability
is a matter of payloads alone (`Reachable.agree`): marks, the allocation list and
cells that are not reached have no say in it.

`Heap.Whole` is what keeps a collection from meeting a handle whose cell is gone:
every link of every cell resolves, garbage included.  On a whole heap everything
reachable resolves as soon as the roots do (`Reachable.contains`).

A marking that finds marks on the heap goes no further than them.  What it comes to is
`Heap.Exposed`: what the roots lead to through cells that are not marked.
-/

import MarkSweep.Proofs.Heap.Views

namespace MarkSweep

namespace Heap

/-- The handles that some roots lead to: the roots, and what the cells reached
point at. -/
inductive Reachable (heap : Heap) (roots : List Ref) : Ref → Prop where
  | root {r : Ref} : r ∈ roots → Reachable heap roots r
  | edge {r s : Ref} {payload : Payload} :
      Reachable heap roots r → heap.payload? r = some payload → s ∈ payload.edges →
        Reachable heap roots s

/-- Every link of every cell resolves. -/
def Whole (heap : Heap) : Prop :=
  ∀ r payload, heap.payload? r = some payload → ∀ s ∈ payload.edges, heap.contains s = true

variable {heap heap' : Heap} {roots roots' : List Ref} {r : Ref}

/-- A set that holds the roots and is closed under links holds everything
reachable. -/
theorem Reachable.of_closed {S : Ref → Prop} (h : heap.Reachable roots r)
    (hroots : ∀ r ∈ roots, S r)
    (hedges : ∀ r payload, S r → heap.payload? r = some payload → ∀ s ∈ payload.edges, S s) :
    S r := by
  induction h with
  | root hr => exact hroots _ hr
  | edge _ hp hs ih => exact hedges _ _ ih hp _ hs

theorem not_reachable_nil : ¬ heap.Reachable [] r := fun h =>
  h.of_closed (S := fun _ => False) (fun _ hr => List.not_mem_nil hr) fun _ _ hr _ => hr.elim

/-- Reachability depends on the payloads of the cells that are reached. -/
theorem Reachable.agree (h : heap.Reachable roots r)
    (hagree : ∀ s, heap.Reachable roots s → heap'.payload? s = heap.payload? s) :
    heap'.Reachable roots r := by
  induction h with
  | root hr => exact .root hr
  | edge hr hp hs ih => exact ih.edge ((hagree _ hr).trans hp) hs

/-- On a whole heap, whatever resolving roots lead to resolves. -/
theorem Reachable.contains (h : heap.Reachable roots r) (hwhole : heap.Whole)
    (hroots : ∀ r ∈ roots, heap.contains r = true) : heap.contains r = true :=
  h.of_closed (S := fun r => heap.contains r = true) hroots fun r payload _ hp =>
    hwhole r payload hp

/-! ### Through cells that are not marked -/

/-- The handles that some roots lead to through cells that are not marked.  The last cell
on the way may be marked, or gone. -/
inductive Exposed (heap : Heap) (roots : List Ref) : Ref → Prop where
  | root {r : Ref} : r ∈ roots → Exposed heap roots r
  | edge {r s : Ref} {payload : Payload} :
      Exposed heap roots r → ¬ heap.Marked r → heap.payload? r = some payload →
        s ∈ payload.edges → Exposed heap roots s

theorem Exposed.reachable (h : heap.Exposed roots r) : heap.Reachable roots r := by
  induction h with
  | root hr => exact .root hr
  | edge _ _ hp hs ih => exact ih.edge hp hs

theorem Exposed.mono (h : heap.Exposed roots r) (hsub : roots ⊆ roots') :
    heap.Exposed roots' r := by
  induction h with
  | root hr => exact .root (hsub hr)
  | edge _ hm hp hs ih => exact ih.edge hm hp hs

theorem exposed_cons {root : Ref} :
    heap.Exposed (root :: roots) r ↔ heap.Exposed [root] r ∨ heap.Exposed roots r := by
  constructor
  · intro h
    induction h with
    | root hs =>
      rcases List.mem_cons.1 hs with rfl | hs
      · exact Or.inl (.root List.mem_cons_self)
      · exact Or.inr (.root hs)
    | edge _ hm hp hs ih => exact ih.imp (·.edge hm hp hs) (·.edge hm hp hs)
  · rintro (h | h)
    · exact h.mono (by simp)
    · exact h.mono (List.subset_cons_self _ _)

theorem not_exposed_nil : ¬ heap.Exposed [] r := fun h => not_reachable_nil h.reachable

/-- With more marks on the heap, less is exposed. -/
theorem Exposed.of_marks (h : heap'.Exposed roots r)
    (hp : ∀ s, heap'.payload? s = heap.payload? s) (hm : ∀ s, heap.Marked s → heap'.Marked s) :
    heap.Exposed roots r := by
  induction h with
  | root hr => exact .root hr
  | edge _ hs hpayload ht ih => exact ih.edge (fun h => hs (hm _ h)) (hp _ ▸ hpayload) ht

/-- Marking nothing but what some roots expose takes no more than that out of the reach of
others. -/
theorem Exposed.marked_or_exposed (h : heap.Exposed roots r)
    (hp : ∀ s, heap'.payload? s = heap.payload? s)
    (hm : ∀ s, heap'.Marked s ↔ heap.Marked s ∨ heap.Exposed roots' s) :
    heap'.Marked r ∨ heap'.Exposed roots r := by
  induction h with
  | root hr => exact Or.inr (.root hr)
  | @edge s t payload _ hs hpayload ht ih =>
    by_cases hs' : heap'.Marked s
    · exact Or.inl ((hm t).2 (Or.inr ((((hm s).1 hs').resolve_left hs).edge hs hpayload ht)))
    · exact Or.inr ((ih.resolve_left hs').edge hs' ((hp s).trans hpayload) ht)

end Heap

end MarkSweep
