/-
# The parts of a machine

Operations work on the heap or on the root stack of a machine.  `withRoots`,
`withCell` and `withLinks` are the machines they leave: the stack is spoken of as a
list with its top at the end, and the heap by the changes that are made to it.

The operations on the stack are told here in full, one lemma for each of their outcomes.
At the end stands what each of the three changes asks for to leave a sound machine sound.
-/

import MarkSweep.Proofs.Machine.Soundness

namespace MarkSweep

namespace Machine

variable {machine : Machine}

/-- The machine with other roots, bottom first. -/
def withRoots (machine : Machine) (roots : List Ref) : Machine :=
  { machine with roots := ⟨machine.roots.capacity, roots.toArray⟩ }

/-- The machine with a new cell in a slot. -/
def withCell (machine : Machine) (index : Nat) (payload : Payload) : Machine :=
  countAllocation { machine with heap := machine.heap.occupy index payload }

/-- The machine with both links of a pair filled. -/
def withLinks (machine : Machine) (pair first second : Ref) : Machine :=
  { machine with heap := machine.heap.fill pair first second }

@[simp] theorem heap_withRoots (machine : Machine) (roots : List Ref) :
    (machine.withRoots roots).heap = machine.heap := rfl

@[simp] theorem heap_withCell (machine : Machine) (index : Nat) (payload : Payload) :
    (machine.withCell index payload).heap = machine.heap.occupy index payload := rfl

@[simp] theorem heap_withLinks (machine : Machine) (pair first second : Ref) :
    (machine.withLinks pair first second).heap = machine.heap.fill pair first second := rfl

@[simp] theorem roots_withRoots (machine : Machine) (roots : List Ref) :
    (machine.withRoots roots).roots.toList = roots := by
  simp [withRoots, RootStack.toList]

theorem depth_eq (machine : Machine) : machine.depth = machine.roots.toList.length := by
  simp [depth, RootStack.depth, RootStack.toList]

/-! ### Acting on a part -/

theorem onHeap_apply {α : Type} (act : Action Heap α) (machine : Machine) (journal : List Record)
    (output : String) :
    onHeap act ⟨machine, journal, output⟩ =
      match act ⟨machine.heap, journal, output⟩ with
      | .ok a ⟨heap, journal, output⟩ => .ok a ⟨{ machine with heap := heap }, journal, output⟩
      | .error e ⟨heap, journal, output⟩ =>
        .error e ⟨{ machine with heap := heap }, journal, output⟩ := by
  cases h : act ⟨machine.heap, journal, output⟩ <;> simp [onHeap, Action.focus, h]

theorem onRoots_apply {α : Type} (act : Action RootStack α) (machine : Machine)
    (journal : List Record) (output : String) :
    onRoots act ⟨machine, journal, output⟩ =
      match act ⟨machine.roots, journal, output⟩ with
      | .ok a ⟨roots, journal, output⟩ => .ok a ⟨{ machine with roots := roots }, journal, output⟩
      | .error e ⟨roots, journal, output⟩ =>
        .error e ⟨{ machine with roots := roots }, journal, output⟩ := by
  cases h : act ⟨machine.roots, journal, output⟩ <;> simp [onRoots, Action.focus, h]

theorem onHeap_setPair {pair : Ref} {old₁ old₂ : Option Ref}
    (h : machine.heap.payload? pair = some (.pair old₁ old₂)) (first second : Ref)
    (journal : List Record) (output : String) :
    onHeap (Heap.setPair pair first second) ⟨machine, journal, output⟩ =
      .ok () ⟨machine.withLinks pair first second, journal, output⟩ := by
  rw [onHeap_apply, Heap.setPair_eq_ok h]
  rfl

theorem onHeap_setPair_of_scalar {pair : Ref} {value : Int64}
    (h : machine.heap.payload? pair = some (.scalar value)) (first second : Ref)
    (journal : List Record) (output : String) :
    onHeap (Heap.setPair pair first second) ⟨machine, journal, output⟩ =
      .error (.fault (.notAPair pair)) ⟨machine, journal, output⟩ := by
  rw [onHeap_apply, Heap.setPair_of_scalar h]

/-! ### The root stack -/

theorem popRoot_cases (machine : Machine) (journal : List Record) (output : String) :
    (machine.roots.toList = [] ∧ popRoot ⟨machine, journal, output⟩ =
      .error (.fault .rootUnderflow) ⟨machine, journal, output⟩) ∨
    ∃ rest r, machine.roots.toList = rest ++ [r] ∧ popRoot ⟨machine, journal, output⟩ =
      .ok r ⟨machine.withRoots rest, journal, output⟩ := by
  obtain ⟨heap, ⟨capacity, ⟨items⟩⟩, threshold, settings, totals⟩ := machine
  rcases List.eq_nil_or_concat items with rfl | ⟨rest, r, rfl⟩
  · exact Or.inl ⟨rfl, by simp [popRoot, onRoots_apply, RootStack.pop, RootStack.peek?]⟩
  · refine Or.inr ⟨rest, r, List.concat_eq_append, ?_⟩
    simp [popRoot, onRoots_apply, RootStack.pop, RootStack.peek?, withRoots]

theorem popRoot_eq_ok {rest : List Ref} {r : Ref} (h : machine.roots.toList = rest ++ [r])
    (journal : List Record) (output : String) :
    popRoot ⟨machine, journal, output⟩ = .ok r ⟨machine.withRoots rest, journal, output⟩ := by
  rcases popRoot_cases machine journal output with ⟨hnil, -⟩ | ⟨rest', r', hroots, hpop⟩
  · rw [hnil] at h
    simp at h
  · obtain ⟨rfl, hr⟩ := List.append_inj' (hroots.symm.trans h) rfl
    obtain rfl := List.singleton_inj.1 hr
    exact hpop

theorem onRoots_push (h : machine.roots.isFull = false) (r : Ref) (journal : List Record)
    (output : String) :
    onRoots (RootStack.push r) ⟨machine, journal, output⟩ =
      .ok () ⟨machine.withRoots (machine.roots.toList ++ [r]), journal, output⟩ := by
  have hpush : machine.roots.items.push r = (machine.roots.toList ++ [r]).toArray := by
    rw [← Array.toList_inj, Array.toList_push]
    rfl
  rw [onRoots_apply, RootStack.push_of_not_isFull h, hpush]
  rfl

theorem pushRoot_of_not_contains {r : Ref} (h : machine.heap.contains r = false)
    (journal : List Record) (output : String) :
    pushRoot r ⟨machine, journal, output⟩ =
      .error (.fault (.collectedRoot r)) ⟨machine, journal, output⟩ := by
  simp [pushRoot, h]

theorem pushRoot_of_isFull {r : Ref} (hc : machine.heap.contains r = true)
    (hfull : machine.roots.isFull = true) (journal : List Record) (output : String) :
    pushRoot r ⟨machine, journal, output⟩ =
      .error (.fault .rootOverflow) ⟨machine, journal, output⟩ := by
  simp [pushRoot, hc, onRoots_apply, RootStack.push_of_isFull hfull]

theorem pushRoot_eq_ok {r : Ref} (hc : machine.heap.contains r = true)
    (hfull : machine.roots.isFull = false) (journal : List Record) (output : String) :
    pushRoot r ⟨machine, journal, output⟩ =
      .ok () ⟨machine.withRoots (machine.roots.toList ++ [r]), journal, output⟩ := by
  simp [pushRoot, hc, onRoots_push hfull]

/-! ### Sound parts -/

/-- A stack that is not full can hold one root more. -/
theorem Sound.length_le_of_not_isFull (h : machine.Sound) (hfull : machine.roots.isFull = false)
    {r : Ref} : (machine.roots.toList ++ [r]).length ≤ machine.settings.stackCapacity := by
  have hlt : machine.roots.depth < machine.roots.capacity :=
    Nat.not_le.1 (of_decide_eq_false hfull)
  rw [h.capacity] at hlt
  rw [List.length_append, ← depth_eq]
  exact hlt

/-- Other roots leave a machine sound, if they resolve and the stack can hold them. -/
theorem Sound.withRoots (h : machine.Sound) {roots : List Ref}
    (hroots : ∀ r ∈ roots, machine.heap.contains r = true)
    (hdepth : roots.length ≤ machine.settings.stackCapacity) :
    (machine.withRoots roots).Sound where
  heap := h.heap
  roots r hr := by
    rw [roots_withRoots] at hr
    exact hroots r hr
  capacity := h.capacity
  depth := by
    rw [depth_eq, roots_withRoots]
    exact hdepth
  accepted := h.accepted
  threshold := h.threshold
  limit := h.limit

/-- A new cell without links leaves a machine sound, if the object limit allows one
more. -/
theorem Sound.withCell (h : machine.Sound) {index : Nat} {payload : Payload}
    (hv : machine.heap.vacancy = .ok index) (hp : payload.edges = [])
    (hlimit : ∀ limit, machine.settings.maxObjects = some limit → machine.count < limit) :
    (machine.withCell index payload).Sound where
  heap := h.heap.occupy hv hp
  roots r hr := (Heap.contains_occupy hv _ r).2 (Or.inr (h.roots r hr))
  capacity := h.capacity
  depth := h.depth
  accepted := h.accepted
  threshold := h.threshold
  limit limit hl := hlimit limit hl

/-- Filling a pair leaves a machine sound, if the links resolve. -/
theorem Sound.withLinks (h : machine.Sound) {pair first second : Ref}
    (hpair : machine.heap.contains pair = true) (hfirst : machine.heap.contains first = true)
    (hsecond : machine.heap.contains second = true) :
    (machine.withLinks pair first second).Sound where
  heap := h.heap.fill hpair hfirst hsecond
  roots r hr := by
    rw [heap_withLinks, Heap.contains_fill]
    exact h.roots r hr
  capacity := h.capacity
  depth := h.depth
  accepted := h.accepted
  threshold := h.threshold
  limit limit hl := by
    rw [count, heap_withLinks, Heap.fill, Heap.count_update]
    exact h.limit limit hl

end Machine

end MarkSweep
