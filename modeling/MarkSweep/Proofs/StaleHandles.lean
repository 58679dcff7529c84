/-
# Stale handles

A handle whose cell was freed does not resolve: not while its slot is vacant, and not while
the slot has another occupant, which came in another generation.  That is so until the slot
was vacated 2³² times since the handle was given out.  Then the generation is what it was,
and the handle resolves to whatever cell is in the slot.

A `System` is a heap that is worked on, on its own or in a machine.
`System.resolves_iff` says exactly when a handle resolves at any later point of a run, and
that it stays dead for fewer than 2³² releases of its slot.  `stale_handle_resolves` is a run
in which one comes back.
-/

import MarkSweep.Proofs.Machine.Grants

namespace MarkSweep

/-- A heap that is worked on, on its own or in a machine. -/
inductive System where
  | heap (session : Session Heap)
  | machine (session : Session Machine)

namespace System

/-- The heap, with the records and the output. -/
def view : System → Session Heap
  | .heap session => session
  | .machine session => ⟨session.state.heap, session.journal, session.output⟩

def arena (system : System) : Heap :=
  system.view.state

/-- How often the journal says that the cell of a slot was freed. -/
def releases (system : System) (index : Nat) : Nat :=
  system.view.journal.count (.freed index)

/-- An empty heap, or a machine that was never used. -/
inductive Starts : System → Prop where
  | heap : Starts (.heap ⟨{}, [], ""⟩)
  | machine {settings : Settings} {machine : Machine} :
      Machine.create settings = .ok machine → Starts (.machine ⟨machine, [], ""⟩)

/-- One operation on the heap or the machine, however it ends. -/
inductive Step : System → System → Prop where
  | allocate {session : Session Heap} (payload : Payload) :
      Step (.heap session) (.heap ((Heap.allocate payload).after session))
  | mark {session : Session Heap} (root : Ref) :
      Step (.heap session) (.heap ((Heap.mark root).after session))
  | markFrom {session : Session Heap} (roots : List Ref) :
      Step (.heap session) (.heap ((Heap.markFrom roots).after session))
  | sweep {session : Session Heap} :
      Step (.heap session) (.heap (Heap.sweep.after session))
  | machine {session session' : Session Machine} :
      MarkSweep.Step session session' → Step (.machine session) (.machine session')

/-- Any number of operations. -/
def Steps : System → System → Prop :=
  Relation.ReflTransGen Step

/-- An allocation that answers a handle. -/
inductive Gives : System → Ref → System → Prop where
  | allocate {session session' : Session Heap} {payload : Payload} {r : Ref} :
      Heap.allocate payload session = .ok r session' →
      Gives (.heap session) r (.heap session')
  | pushScalar {session session' : Session Machine} {value : Int64} {r : Ref} :
      Machine.pushScalar value session = .ok r session' →
      Gives (.machine session) r (.machine session')
  | makePair {session session' : Session Machine} {r : Ref} :
      Machine.makePair session = .ok r session' →
      Gives (.machine session) r (.machine session')

variable {system system' start before given gone later : System} {r : Ref}

theorem Step.aged (h : Step system system') : system.view.Aged id system'.view := by
  cases h with
  | allocate payload => exact Heap.ages_allocate payload _
  | mark root => exact Heap.ages_mark root _
  | markFrom roots => exact Heap.ages_markFrom roots _
  | sweep => exact Heap.ages_sweep _
  | machine hstep =>
    obtain ⟨op, -⟩ := hstep
    exact op.ages _

theorem Steps.aged (h : Steps system system') : system.view.Aged id system'.view := by
  induction h with
  | refl => exact .refl _
  | tail _ hstep ih => exact ih.trans hstep.aged

/-- A run on a machine is a run of the machine. -/
theorem Starts.reached (h : Starts start) (hsteps : Steps start system) :
    match system with
    | .heap _ => True
    | .machine session => ∃ settings, Reached settings session := by
  induction hsteps with
  | refl =>
    cases h with
    | heap => trivial
    | @machine settings machine hcreate => exact ⟨settings, machine, hcreate, .refl⟩
  | tail _ hstep ih =>
    cases hstep with
    | machine hstep =>
      obtain ⟨settings, machine, hcreate, hreached⟩ := ih
      exact ⟨settings, machine, hcreate, hreached.tail hstep⟩
    | _ => trivial

/-- A handle that is answered resolves. -/
theorem Gives.contains (h : Gives before r given) (hstart : Starts start)
    (hbefore : Steps start before) : given.arena.contains r = true := by
  have hreached := hstart.reached hbefore
  cases h with
  | @allocate session session' payload r hok =>
    obtain ⟨index, hv, rfl, rfl⟩ := Heap.allocate_eq_ok hok
    exact (Heap.contains_occupy hv payload _).2 (Or.inl rfl)
  | pushScalar hok =>
    obtain ⟨settings, hreached⟩ := hreached
    exact (Machine.pushScalar_grants hreached.sound.1 hok).contains
  | makePair hok =>
    obtain ⟨settings, hreached⟩ := hreached
    obtain ⟨rest, second, first, -, hgrants⟩ := Machine.makePair_grants hreached.sound.1 hok
    exact hgrants.contains

/-- **When a stale handle resolves.**  A handle that was given out, and whose cell was freed
since, is dead at any later point of a run unless its slot is taken and was vacated a
multiple of 2³² times since it was given out.  So it is dead for fewer than 2³² releases. -/
theorem resolves_iff (hstart : Starts start) (hbefore : Steps start before)
    (hgives : Gives before r given) (hgone : Steps given gone)
    (hdead : gone.arena.contains r = false) (hlater : Steps gone later) :
    (later.arena.get? r = none ↔ later.arena.Vacant r.index ∨
      ¬ UInt32.size ∣ later.releases r.index - given.releases r.index) ∧
    (later.releases r.index - given.releases r.index < UInt32.size →
      later.arena.get? r = none) := by
  have hr := hgives.contains hstart hbefore
  obtain ⟨records, hjournal, hages⟩ := hgone.aged
  obtain ⟨records', hjournal', hages'⟩ := hlater.aged
  -- the cell is gone, so it was freed at least once
  have hfreed : 0 < records.count (.freed r.index) := by
    refine Nat.pos_of_ne_zero fun hzero => ?_
    have hc : gone.arena.contains r = true := hages.stays r hr hzero
    rw [hdead] at hc
    cases hc
  have hcount : later.releases r.index - given.releases r.index =
      (records' ++ records).count (.freed r.index) := by
    rw [releases, releases, hjournal', hjournal, ← List.append_assoc, List.count_append]
    omega
  have hcontains : later.arena.contains r = true ↔ ¬ later.arena.Vacant r.index ∧
      UInt32.size ∣ (records' ++ records).count (.freed r.index) :=
    (hages.trans hages').contains_iff hr
  have hiff : later.arena.get? r = none ↔ later.arena.Vacant r.index ∨
      ¬ UInt32.size ∣ later.releases r.index - given.releases r.index := by
    rw [Heap.get?_eq_none_iff, ← Bool.not_eq_true, hcontains, hcount, not_and_or, not_not]
  refine ⟨hiff, fun hlt => hiff.2 (Or.inr fun hdvd => ?_)⟩
  have hpos : 0 < later.releases r.index - given.releases r.index := by
    rw [hcount, List.count_append]
    omega
  have hle := Nat.le_of_dvd hpos hdvd
  omega

/-! ### A handle that comes back -/

/-- A heap of one slot, which is vacant. -/
def vacated (generation : UInt32) (journal : List Record) : Session Heap :=
  ⟨⟨#[⟨generation, none⟩], [0], none, 0, []⟩, journal, ""⟩

/-- A heap of one slot, with a scalar in it. -/
def taken (generation : UInt32) (value : Int64) (journal : List Record) : Session Heap :=
  ⟨⟨#[⟨generation, some ⟨.scalar value, false, none⟩⟩], [], some ⟨0, generation⟩, 1, []⟩,
    journal, ""⟩

theorem allocate_vacated (generation : UInt32) (value : Int64) (journal : List Record) :
    (Heap.allocate (.scalar value)).after (vacated generation journal) =
      taken generation value (.allocated .scalar 0 :: journal) := rfl

theorem sweep_taken (generation : UInt32) (value : Int64) (journal : List Record) :
    Heap.sweep.after (taken generation value journal) =
      vacated (generation + 1) (.freed 0 :: journal) := by
  -- one round frees the cell, and the list is at its end
  have hgo : (Sweeping.ofHeap (taken generation value journal).state).halted = false := by
    simp [Sweeping.ofHeap, Sweeping.halted, Sweeping.obstacle?, taken, Heap.get?, Slot.read]
  have hstep : (Sweeping.ofHeap (taken generation value journal).state).step =
      ⟨(vacated (generation + 1) journal).state, none, none, [⟨0, generation⟩]⟩ := by
    simp [Sweeping.ofHeap, Sweeping.step, taken, vacated, Heap.get?, Slot.read, Heap.relink,
      Heap.release, Slot.vacate]
  have hrun : (Sweeping.ofHeap (taken generation value journal).state).run =
      ⟨(vacated (generation + 1) journal).state, none, none, [⟨0, generation⟩]⟩ := by
    rw [Sweeping.run_of_not_halted hgo, hstep, Sweeping.run_of_halted rfl]
  have hsweep := Heap.sweep_apply (taken generation value journal).state journal ""
  rw [hrun] at hsweep
  exact Action.after_of_ok hsweep

/-- One more occupant of the slot, and its end. -/
def occupant (session : Session Heap) : Session Heap :=
  Heap.sweep.after ((Heap.allocate (.scalar 2)).after session)

/-- Every occupant moves the generation on by one. -/
theorem iterate_occupant (n : Nat) (generation : UInt32) (journal : List Record) :
    ∃ journal', Nat.iterate occupant n (vacated generation journal) =
      vacated (generation + UInt32.ofNat n) journal' := by
  induction n generalizing generation journal with
  | zero =>
    refine ⟨journal, ?_⟩
    show vacated generation journal = vacated (generation + 0) journal
    rw [UInt32.add_zero]
  | succ n ih =>
    obtain ⟨journal', h⟩ := ih (generation + 1) (.freed 0 :: .allocated .scalar 0 :: journal)
    refine ⟨journal', ?_⟩
    have hnext : occupant (vacated generation journal) =
        vacated (generation + 1) (.freed 0 :: .allocated .scalar 0 :: journal) := by
      rw [occupant, allocate_vacated, sweep_taken]
    show Nat.iterate occupant n (occupant (vacated generation journal)) = _
    rw [hnext, h, Nat.add_comm, UInt32.ofNat_add, ← UInt32.add_assoc]
    rfl

theorem steps_iterate_occupant (n : Nat) (session : Session Heap) :
    Steps (.heap session) (.heap (Nat.iterate occupant n session)) := by
  induction n generalizing session with
  | zero => exact .refl
  | succ n ih =>
    have hallocate : Steps (.heap session) (.heap ((Heap.allocate (.scalar 2)).after session)) :=
      .single (.allocate (.scalar 2))
    exact (hallocate.tail .sweep).trans (ih (occupant session))

/-- The first cell of a heap, freed. -/
def early : Session Heap :=
  vacated 1 [.freed 0, .allocated .scalar 0]

/-- After 2³² - 1 more cells that came and went in the same slot, one more. -/
def late : Session Heap :=
  (Heap.allocate (.scalar 3)).after (Nat.iterate occupant (UInt32.size - 1) early)

theorem gives_first : Gives (.heap ⟨{}, [], ""⟩) ⟨0, 0⟩
    (.heap (taken 0 1 [.allocated .scalar 0])) :=
  .allocate rfl

theorem steps_early : Steps (.heap (taken 0 1 [.allocated .scalar 0])) (.heap early) := by
  have hsweep : Heap.sweep.after (taken 0 1 [.allocated .scalar 0]) = early :=
    sweep_taken 0 1 [.allocated .scalar 0]
  rw [← hsweep]
  exact .single .sweep

/-- **A stale handle can come back.**  The handle of the first cell of a heap is dead once
that cell is freed, and in the end it resolves to a cell that was allocated long after. -/
theorem stale_handle_resolves :
    Gives (.heap ⟨{}, [], ""⟩) ⟨0, 0⟩ (.heap (taken 0 1 [.allocated .scalar 0])) ∧
      Steps (.heap (taken 0 1 [.allocated .scalar 0])) (.heap early) ∧
      early.state.contains ⟨0, 0⟩ = false ∧
      Steps (.heap early) (.heap late) ∧
      late.state.payload? ⟨0, 0⟩ = some (.scalar 3) := by
  have hsteps : Steps (.heap early) (.heap late) :=
    (steps_iterate_occupant (UInt32.size - 1) early).tail (.allocate (.scalar 3))
  obtain ⟨journal, hiterate⟩ :=
    iterate_occupant (UInt32.size - 1) 1 [.freed 0, .allocated .scalar 0]
  have hlate : late = taken 0 3 (.allocated .scalar 0 :: journal) := by
    rw [late, early, hiterate, allocate_vacated]
    rfl
  refine ⟨gives_first, steps_early, rfl, hsteps, ?_⟩
  rw [hlate]
  rfl

/-- With the next occupant of its slot the handle is dead. -/
theorem stale_handle_dead :
    (System.heap (taken 1 2 [.allocated .scalar 0, .freed 0, .allocated .scalar 0])).arena.get?
      ⟨0, 0⟩ = none := by
  have hnext : Steps (.heap early)
      (.heap (taken 1 2 [.allocated .scalar 0, .freed 0, .allocated .scalar 0])) :=
    .single (.allocate (.scalar 2))
  exact (resolves_iff .heap .refl gives_first steps_early rfl hnext).2 (by decide)

end System

end MarkSweep
