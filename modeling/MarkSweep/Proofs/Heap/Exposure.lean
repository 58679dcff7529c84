/-
# What marking comes to, and how soon

A marking that finds marks on the heap stops at them, so what it does depends on which cells
the roots lead to through cells that are not marked.  That is all it depends on
(`Heap.markFrom_exposure`): it breaks off if and only if a handle of a cell that is gone is
exposed, and otherwise it adds the exposed cells to the marked ones and changes nothing else.
In what order the roots come, and how often, cannot matter then, and marking once more finds
nothing to do.  The heap may be any on which nothing waits to be marked, as on every heap between
commands (`Heap.worklist_carryOut`).

The loop may meet a handle many times before it visits it, and on a cycle the worklist grows
again and again.  Still every round drops a handle, or marks a cell and puts at most two handles
in the place of one (`Marking.length_worklist_step_le`), so from one root there are at most two
rounds for each cell marked, and one for the root (`Marking.rounds_add_le`).
-/

import MarkSweep.Proofs.Heap.Inventory
import Mathlib.Logic.Function.Iterate

namespace MarkSweep

namespace Marking

variable {marking : Marking}

/-- How often the loop takes a handle off the worklist, the one that it breaks off at
included. -/
def rounds (marking : Marking) : Nat :=
  if h : marking.halted then
    if marking.heap.worklist = [] then 0 else 1
  else
    have : marking.step.remaining < marking.remaining := remaining_step_lt (by simpa using h)
    rounds marking.step + 1
termination_by marking.remaining

theorem rounds_of_halted (h : marking.halted = true) :
    marking.rounds = if marking.heap.worklist = [] then 0 else 1 := by
  rw [rounds, dif_pos h]

theorem rounds_of_not_halted (h : marking.halted = false) :
    marking.rounds = marking.step.rounds + 1 := by
  rw [rounds, dif_neg (by rw [h]; exact Bool.false_ne_true)]

theorem step_of_halted (h : marking.halted = true) : marking.step = marking := by
  obtain ⟨heap, order⟩ := marking
  cases hw : heap.worklist with
  | nil => simp [step, hw]
  | cons r rest =>
    rw [halted, hw] at h
    have hr : heap.get? r = none := Heap.get?_eq_none_iff.2 (by simpa using h)
    simp [step, hw, hr]

/-- The loop does nothing but go round. -/
theorem run_eq_iterate (marking : Marking) : marking.run = step^[marking.rounds] marking := by
  induction marking using run.induct with
  | case1 marking h =>
    rw [run_of_halted h, rounds_of_halted h]
    split_ifs
    · rfl
    · exact (step_of_halted h).symm
  | case2 marking h _ ih =>
    have h' := Bool.eq_false_iff.2 h
    rw [run_of_not_halted h', rounds_of_not_halted h', Function.iterate_succ_apply, ih]

/-- A round drops a handle, or marks a cell and puts at most two handles in the place of
one. -/
theorem length_worklist_step_le (h : marking.halted = false) :
    marking.step.heap.worklist.length + 1 + 2 * marking.order.length ≤
      marking.heap.worklist.length + 2 * marking.step.order.length := by
  obtain ⟨heap, order⟩ := marking
  cases hw : heap.worklist with
  | nil => simp [halted, hw] at h
  | cons r rest =>
    cases hr : heap.get? r with
    | none => simp [halted, hw, Heap.contains, hr] at h
    | some cell =>
      cases hm : cell.marked with
      | true => simp [step, hw, hr, hm, Heap.await]
      | false =>
        have hedges := cell.payload.length_edges_le
        simp [step, hw, hr, hm, Heap.await]
        omega

/-- Each round is paid for by a handle that waits at the start, or by a cell marked on the
way. -/
theorem rounds_add_le (marking : Marking) :
    marking.rounds + 2 * marking.order.length ≤
      marking.heap.worklist.length + 2 * marking.run.order.length := by
  induction marking using run.induct with
  | case1 marking h =>
    rw [rounds_of_halted h, run_of_halted h]
    split_ifs with hw
    · omega
    · have hlength := List.length_pos_iff.2 hw
      omega
  | case2 marking h _ ih =>
    have h' := Bool.eq_false_iff.2 h
    have hstep := length_worklist_step_le h'
    rw [rounds_of_not_halted h', run_of_not_halted h']
    omega

end Marking

namespace Heap

variable {heap heap' heap'' : Heap} {roots roots' order order' : List Ref}

theorem Exposed.congr {r : Ref} (h : ∀ r, r ∈ roots' ↔ r ∈ roots) :
    heap.Exposed roots' r ↔ heap.Exposed roots r :=
  ⟨fun hr => hr.mono fun s => (h s).1, fun hr => hr.mono fun s => (h s).2⟩

/-- The heap after a marking is settled by which cells are marked on it. -/
theorem Marks.eq_of_marked (h : heap.Marks order heap') (h' : heap.Marks order' heap'')
    (hm : ∀ r, heap''.Marked r ↔ heap'.Marked r) :
    heap'' = heap' ∧ order'.length = order.length := by
  refine ⟨(h.same.symm.trans h'.same).eq_of_marked hm (h'.idle.trans h.idle.symm), ?_⟩
  -- a cell is among those marked exactly when it is marked now and was not before
  have hmem : ∀ r, r ∈ order' ↔ r ∈ order := fun r => by
    have h₁ := h.marked r
    have h₂ := h'.marked r
    have h₃ := h.fresh r
    have h₄ := h'.fresh r
    rw [hm r] at h₂
    tauto
  exact ((List.perm_ext_iff_of_nodup h'.nodup h.nodup).2 hmem).length_eq

/-- Roots in another order, or given more often, leave the same heap. -/
theorem MarksExposed.eq_of_mem (h : heap.MarksExposed roots order heap')
    (h' : heap.MarksExposed roots' order' heap'') (hroots : ∀ r, r ∈ roots' ↔ r ∈ roots) :
    heap'' = heap' ∧ order'.length = order.length :=
  h.toMarks.eq_of_marked h'.toMarks fun r => by
    rw [h'.exposed, h.exposed, Exposed.congr hroots]

/-- Once everything that some roots expose is marked, they expose nothing else. -/
theorem MarksExposed.marked_of_exposed (h : heap.MarksExposed roots order heap') {r : Ref}
    (hr : heap'.Exposed roots r) : heap'.Marked r :=
  (h.exposed r).2 (Or.inr (hr.of_marks h.same.payload fun s hs => (h.exposed s).2 (Or.inl hs)))

/-- So marking from them once more comes to nothing. -/
theorem MarksExposed.settled (h : heap.MarksExposed roots order heap') :
    heap'.MarksExposed roots [] heap' where
  same := .refl heap'
  idle := h.idle
  nodup := List.nodup_nil
  fresh _ hr := absurd hr List.not_mem_nil
  marked _ := (or_iff_left List.not_mem_nil).symm
  exposed _ := (or_iff_left_of_imp h.marked_of_exposed).symm

/-! ### The outcome of a marking -/

section Outcome

variable {journal : List Record} {output : String}

theorem markFrom_fails_iff (hidle : heap.worklist = []) (roots : List Ref) :
    (∃ failure, (markFrom roots).failure? ⟨heap, journal, output⟩ = some failure) ↔
      ∃ r, heap.Exposed roots r ∧ heap.contains r = false := by
  rcases markFrom_cases hidle roots journal output with ⟨order, heap', hm, hrun⟩ |
    ⟨r, heap', hr, hrun⟩
  · rw [Action.failure?_of_ok hrun]
    constructor
    · rintro ⟨failure, hfailure⟩
      cases hfailure
    · rintro ⟨r, hr, hgone⟩
      rw [hm.contains hr] at hgone
      cases hgone
  · rw [Action.failure?_of_error hrun]
    exact ⟨fun _ => ⟨r, hr⟩, fun _ => ⟨_, rfl⟩⟩

theorem marksExposed_of_ok (hidle : heap.worklist = []) {number : Nat} {after : Session Heap}
    (h : markFrom roots ⟨heap, journal, output⟩ = .ok number after) :
    ∃ order heap', heap.MarksExposed roots order heap' ∧ number = order.length ∧
      after = ⟨heap', journal, output⟩ := by
  rcases markFrom_cases hidle roots journal output with ⟨order, heap', hm, hrun⟩ |
    ⟨r, heap', -, hrun⟩
  · obtain ⟨hnumber, hafter⟩ := EStateM.Result.ok.inj (h.symm.trans hrun)
    exact ⟨order, heap', hm, hnumber, hafter⟩
  · cases h.symm.trans hrun

/-- What is exposed settles the whole outcome. -/
theorem markFrom_eq_of_marksExposed (h : heap.MarksExposed roots order heap')
    (hidle : heap.worklist = []) (hroots : ∀ r, r ∈ roots' ↔ r ∈ roots) :
    markFrom roots' ⟨heap, journal, output⟩ = .ok order.length ⟨heap', journal, output⟩ := by
  rcases markFrom_cases hidle roots' journal output with ⟨order', heap'', hm, hrun⟩ |
    ⟨r, heap'', ⟨hr, hgone⟩, -⟩
  · obtain ⟨rfl, hlength⟩ := h.eq_of_mem hm hroots
    rw [hrun, hlength]
  · rw [h.contains ((Exposed.congr hroots).1 hr)] at hgone
    cases hgone

end Outcome

/-- What marking from some roots comes to. -/
structure Exposure (roots : List Ref) (session : Session Heap) : Prop where
  /-- It breaks off if and only if a cell is gone that the roots lead to through cells that are
  not marked. -/
  fails_iff : (∃ failure, (markFrom roots).failure? session = some failure) ↔
    ∃ r, session.state.Exposed roots r ∧ session.state.contains r = false
  /-- It breaks off at such a cell. -/
  fails : ∀ failure, (markFrom roots).failure? session = some failure →
    ∃ r, failure = .fault (.danglingEdge r) ∧
      session.state.Exposed roots r ∧ session.state.contains r = false
  /-- Otherwise it marks what the roots lead to through such cells, changes nothing else, and
  answers how many cells it marked. -/
  marks : ∀ number after, markFrom roots session = .ok number after →
    (∃ order, session.state.MarksExposed roots order after.state ∧ number = order.length) ∧
      after.journal = session.journal ∧ after.output = session.output
  /-- Neither the order of the roots nor repetition matters. -/
  same_roots : ∀ roots', (∀ r, r ∈ roots' ↔ r ∈ roots) →
    (((markFrom roots').failure? session).isSome ↔ ((markFrom roots).failure? session).isSome) ∧
      ∀ number after, markFrom roots session = .ok number after →
        markFrom roots' session = .ok number after
  /-- A second marking from the same roots finds nothing to mark. -/
  again : ∀ number after, markFrom roots session = .ok number after →
    markFrom roots after = .ok 0 after
  /-- From each root the loop goes round at most twice for each cell that it marks, and once
  more. -/
  rounds : ∀ root, let start := Marking.ofRoot session.state root
    start.run = Marking.step^[start.rounds] start ∧
      ∃ order, session.state.Marks order ((mark root).after session).state ∧
        start.rounds ≤ 1 + 2 * order.length

theorem marks_mark (hidle : heap.worklist = []) (root : Ref) (journal : List Record)
    (output : String) :
    heap.Marks (Marking.ofRoot heap root).run.order
      ((mark root).after ⟨heap, journal, output⟩).state := by
  rw [after_mark]
  exact (Marking.run_induction (P := Marking.Tracks heap root) (fun _ h => h.step)
    (Marking.ofRoot heap root) (Marking.tracks_ofRoot hidle)).1.marks

theorem rounds_ofRoot_le (hidle : heap.worklist = []) (root : Ref) :
    (Marking.ofRoot heap root).rounds ≤
      1 + 2 * (Marking.ofRoot heap root).run.order.length := by
  have hrounds := Marking.rounds_add_le (Marking.ofRoot heap root)
  have hstart : (Marking.ofRoot heap root).heap.worklist.length = 1 := by
    show (root :: heap.worklist).length = 1
    rw [hidle]
    rfl
  have horder : (Marking.ofRoot heap root).order.length = 0 := rfl
  omega

/-- **Marking marks exactly what the roots lead to through unmarked cells**, or breaks off if a
cell on the way is gone.  The marks that were there before and the links can be any at all. -/
theorem markFrom_exposure {session : Session Heap} (hidle : session.state.worklist = [])
    (roots : List Ref) : Exposure roots session := by
  obtain ⟨heap, journal, output⟩ := session
  have hfails : ∀ roots, (∃ failure,
      (markFrom roots).failure? ⟨heap, journal, output⟩ = some failure) ↔
        ∃ r, heap.Exposed roots r ∧ heap.contains r = false := markFrom_fails_iff hidle
  refine ⟨hfails roots, fun failure hfailure => ?_, fun number after hok => ?_,
    fun roots' hroots => ⟨?_, fun number after hok => ?_⟩, fun number after hok => ?_,
    fun root => ⟨Marking.run_eq_iterate _, _, marks_mark hidle root journal output,
      rounds_ofRoot_le hidle root⟩⟩
  · rcases markFrom_cases hidle roots journal output with ⟨order, heap', -, hrun⟩ |
      ⟨r, heap', hr, hrun⟩
    · rw [Action.failure?_of_ok hrun] at hfailure
      cases hfailure
    · rw [Action.failure?_of_error hrun] at hfailure
      exact ⟨r, (Option.some.inj hfailure).symm, hr⟩
  · obtain ⟨order, heap', hm, hnumber, rfl⟩ := marksExposed_of_ok hidle hok
    exact ⟨⟨order, hm, hnumber⟩, rfl, rfl⟩
  · rw [Option.isSome_iff_exists, Option.isSome_iff_exists, hfails, hfails]
    simp only [Exposed.congr hroots]
  · obtain ⟨order, heap', hm, rfl, rfl⟩ := marksExposed_of_ok hidle hok
    exact markFrom_eq_of_marksExposed hm hidle hroots
  · obtain ⟨order, heap', hm, -, rfl⟩ := marksExposed_of_ok hidle hok
    exact markFrom_eq_of_marksExposed hm.settled hm.idle fun _ => Iff.rfl

/-- A marked pair with a link to a cell that there never was, a scalar, and two more pairs: one
linked to the marked pair, the other to the scalar and to itself. -/
def sheltered : Session Heap :=
  carryOut [.allocate (.pair (some ⟨9, 0⟩) none), .mark ⟨0, 0⟩, .allocate (.scalar 5),
    .allocate (.pair (some ⟨0, 0⟩) none), .allocate (.pair (some ⟨1, 0⟩) (some ⟨3, 0⟩))]
    ⟨{}, [], ""⟩

/-- The missing cell is not exposed to the two pairs, so a marking from them does not break
off, however often it is given them. -/
theorem sheltered_marked : sheltered.state.worklist = [] ∧
    ¬ sheltered.state.Exposed [⟨2, 0⟩, ⟨3, 0⟩] ⟨9, 0⟩ ∧
    ∃ after, markFrom [⟨2, 0⟩, ⟨3, 0⟩] sheltered = .ok 3 after ∧
      markFrom [⟨3, 0⟩, ⟨2, 0⟩, ⟨3, 0⟩] sheltered = .ok 3 after ∧
      markFrom [⟨2, 0⟩, ⟨3, 0⟩] after = .ok 0 after := by
  have hidle : sheltered.state.worklist = [] := worklist_carryOut _
  have hexposure := markFrom_exposure hidle [⟨2, 0⟩, ⟨3, 0⟩]
  have hgone : sheltered.state.contains ⟨9, 0⟩ = false := by decide +kernel
  have hok : (markFrom [⟨2, 0⟩, ⟨3, 0⟩]).failure? sheltered = none := by decide +kernel
  refine ⟨hidle, fun hr => ?_, ?_⟩
  · obtain ⟨failure, hfailure⟩ := hexposure.fails_iff.2 ⟨_, hr, hgone⟩
    rw [hok] at hfailure
    cases hfailure
  · have hnumber : (match markFrom [⟨2, 0⟩, ⟨3, 0⟩] sheltered with
        | .ok number _ => some number
        | .error _ _ => none) = some 3 := by decide +kernel
    cases hrun : markFrom [⟨2, 0⟩, ⟨3, 0⟩] sheltered with
    | error failure after =>
      rw [hrun] at hnumber
      cases hnumber
    | ok number after =>
      rw [hrun] at hnumber
      obtain rfl : number = 3 := Option.some.inj hnumber
      refine ⟨after, rfl, (hexposure.same_roots _ fun r => ?_).2 3 after hrun,
        hexposure.again 3 after hrun⟩
      simp only [List.mem_cons, List.not_mem_nil, or_false]
      tauto

end Heap

end MarkSweep
