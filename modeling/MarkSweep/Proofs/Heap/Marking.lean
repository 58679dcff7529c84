/-
# What marking marks

`Marking.Tracks` is the invariant of the worklist: the heap differs from the one it
started on in marks alone, the cells marked since are listed once each and the root exposes
them, and whatever a cell marked since points at is marked or waits on the worklist.  Every
round keeps it (`Tracks.step`), whether it drops a handle or marks a cell.

When the worklist runs dry the last clause says that whatever the root exposes is marked.  If
it does not run dry, what it halts at is exposed and gone.  So marking from some roots adds
exactly what they expose, or breaks off at something that they expose (`markFrom_cases`).  On a
whole heap whose marks were closed under links it adds what they lead to, and does not break
off (`markFrom_eq_ok`).
-/

import MarkSweep.Proofs.Heap.Listing
import MarkSweep.Proofs.Heap.Reachability

namespace MarkSweep

namespace Heap

/-- The second heap has other marks and another worklist than the first, at most. -/
structure SameButMarks (heap heap' : Heap) : Prop where
  head : heap'.head = heap.head
  free : heap'.free = heap.free
  count : heap'.count = heap.count
  slotCount : heap'.slotCount = heap.slotCount
  payload : ∀ r, heap'.payload? r = heap.payload? r
  next : ∀ r, heap'.next? r = heap.next? r
  vacant : ∀ i, heap'.Vacant i ↔ heap.Vacant i
  handle : ∀ i, heap'.handle i = heap.handle i

namespace SameButMarks

variable {heap heap' heap'' : Heap}

theorem refl (heap : Heap) : heap.SameButMarks heap :=
  ⟨rfl, rfl, rfl, rfl, fun _ => rfl, fun _ => rfl, fun _ => Iff.rfl, fun _ => rfl⟩

theorem trans (h : heap.SameButMarks heap') (h' : heap'.SameButMarks heap'') :
    heap.SameButMarks heap'' where
  head := h'.head.trans h.head
  free := h'.free.trans h.free
  count := h'.count.trans h.count
  slotCount := h'.slotCount.trans h.slotCount
  payload r := (h'.payload r).trans (h.payload r)
  next r := (h'.next r).trans (h.next r)
  vacant i := (h'.vacant i).trans (h.vacant i)
  handle i := (h'.handle i).trans (h.handle i)

theorem symm (h : heap.SameButMarks heap') : heap'.SameButMarks heap where
  head := h.head.symm
  free := h.free.symm
  count := h.count.symm
  slotCount := h.slotCount.symm
  payload r := (h.payload r).symm
  next r := (h.next r).symm
  vacant i := (h.vacant i).symm
  handle i := (h.handle i).symm

theorem await (heap : Heap) (worklist : List Ref) : heap.SameButMarks (heap.await worklist) :=
  ⟨rfl, rfl, rfl, rfl, fun _ => rfl, fun _ => rfl, fun _ => Iff.rfl, fun _ => rfl⟩

theorem setMark (heap : Heap) (r : Ref) : heap.SameButMarks (heap.setMark r) where
  head := rfl
  free := rfl
  count := rfl
  slotCount := slotCount_update ..
  payload s := map_get?_update Cell.payload heap r s _ fun _ => rfl
  next s := map_get?_update Cell.next heap r s _ fun _ => rfl
  vacant i := vacant_update heap r _ i
  handle i := handle_update heap r _ i

theorem contains (h : heap.SameButMarks heap') (r : Ref) : heap'.contains r = heap.contains r :=
  contains_eq_of_payload? (h.payload r)

/-- If the marks and the worklist are the same as well, nothing differs. -/
theorem eq_of_marked (h : heap.SameButMarks heap') (hm : ∀ r, heap'.Marked r ↔ heap.Marked r)
    (hw : heap'.worklist = heap.worklist) : heap' = heap :=
  eq_of_get? (fun r => get?_eq_of_parts (h.payload r)
    (mark?_eq_of_marked (h.contains r) (hm r)) (h.next r)) h.handle h.slotCount h.free h.head
    h.count hw

theorem listed {refs : List Ref} (h : heap.SameButMarks heap') (hl : heap.Listed refs) :
    heap'.Listed refs :=
  hl.congr h.head h.count h.free h.next h.vacant

end SameButMarks

theorem marked_setMark {heap : Heap} {r : Ref} (h : heap.contains r = true) (s : Ref) :
    (heap.setMark r).Marked s ↔ heap.Marked s ∨ s = r := by
  obtain ⟨cell, hcell⟩ := contains_iff_exists.1 h
  rw [Marked, Marked, mark?, setMark, get?_update]
  split_ifs with hs
  · simp [hs, hcell]
  · simp [hs, mark?]

/-- Whatever a marked cell points at is marked. -/
def MarksClosed (heap : Heap) : Prop :=
  ∀ r payload, heap.Marked r → heap.payload? r = some payload → ∀ s ∈ payload.edges, heap.Marked s

/-- The second heap is the first with more marks.  The list names the cells marked. -/
structure Marks (heap : Heap) (order : List Ref) (heap' : Heap) : Prop where
  same : heap.SameButMarks heap'
  idle : heap'.worklist = []
  nodup : order.Nodup
  fresh : ∀ r ∈ order, ¬ heap.Marked r
  marked : ∀ r, heap'.Marked r ↔ heap.Marked r ∨ r ∈ order

/-- The second heap comes from the first by marking what some roots expose. -/
structure MarksExposed (heap : Heap) (roots order : List Ref) (heap' : Heap) : Prop
    extends heap.Marks order heap' where
  exposed : ∀ r, heap'.Marked r ↔ heap.Marked r ∨ heap.Exposed roots r

/-- The second heap comes from the first by marking what some roots lead to. -/
structure MarksFrom (heap : Heap) (roots order : List Ref) (heap' : Heap) : Prop
    extends heap.Marks order heap' where
  reached : ∀ r, heap'.Marked r ↔ heap.Marked r ∨ heap.Reachable roots r

end Heap

namespace Marking

open Heap

/-- The invariant of a marking from a root, over the heap it started on. -/
structure Tracks (heap : Heap) (root : Ref) (marking : Marking) : Prop where
  same : heap.SameButMarks marking.heap
  nodup : marking.order.Nodup
  fresh : ∀ r ∈ marking.order, ¬ heap.Marked r
  marked : ∀ r, marking.heap.Marked r ↔ heap.Marked r ∨ r ∈ marking.order
  exposed : ∀ r, r ∈ marking.order ∨ r ∈ marking.heap.worklist → heap.Exposed [root] r
  /-- What the cells marked since point at is marked, or will be. -/
  pending : ∀ r ∈ marking.order, ∀ payload, heap.payload? r = some payload →
    ∀ s ∈ payload.edges, marking.heap.Marked s ∨ s ∈ marking.heap.worklist
  root : marking.heap.Marked root ∨ root ∈ marking.heap.worklist

variable {heap : Heap} {root : Ref} {marking : Marking}

theorem tracks_ofRoot (h : heap.worklist = []) : Tracks heap root (ofRoot heap root) where
  same := SameButMarks.await heap (root :: heap.worklist)
  nodup := List.nodup_nil
  fresh _ hr := absurd hr List.not_mem_nil
  marked r := (or_iff_left List.not_mem_nil).symm
  exposed r hr := by
    rcases hr with hr | hr
    · exact absurd hr List.not_mem_nil
    · refine .root ?_
      change r ∈ root :: heap.worklist at hr
      rwa [h] at hr
  pending _ hr := absurd hr List.not_mem_nil
  root := Or.inr List.mem_cons_self

/-- Dropping a handle whose cell is marked already. -/
theorem Tracks.drop {r : Ref} {rest : List Ref} (h : Tracks heap root marking)
    (hw : marking.heap.worklist = r :: rest) (hr : marking.heap.Marked r) :
    Tracks heap root ⟨marking.heap.await rest, marking.order⟩ where
  same := h.same.trans (SameButMarks.await ..)
  nodup := h.nodup
  fresh := h.fresh
  marked := h.marked
  exposed s hs := h.exposed s (hs.imp_right fun hs => by
    rw [hw]
    exact List.mem_cons_of_mem _ hs)
  pending s hs payload hp t ht := by
    rcases h.pending s hs payload hp t ht with hm | hm
    · exact Or.inl hm
    · rw [hw] at hm
      rcases List.mem_cons.1 hm with rfl | hm
      · exact Or.inl hr
      · exact Or.inr hm
  root := by
    rcases h.root with hm | hm
    · exact Or.inl hm
    · rw [hw] at hm
      rcases List.mem_cons.1 hm with hm | hm
      · exact Or.inl (hm ▸ hr)
      · exact Or.inr hm

/-- Marking a cell, and putting what it points at in front of what waits. -/
theorem Tracks.visit {r : Ref} {rest : List Ref} {payload : Payload}
    (h : Tracks heap root marking) (hw : marking.heap.worklist = r :: rest)
    (hp : marking.heap.payload? r = some payload) (hr : ¬ marking.heap.Marked r) :
    Tracks heap root ⟨(marking.heap.setMark r).await (payload.edges ++ rest),
      r :: marking.order⟩ := by
  have hc : marking.heap.contains r = true := contains_iff_payload?.2 ⟨payload, hp⟩
  have hm : ∀ s, ((marking.heap.setMark r).await (payload.edges ++ rest)).Marked s ↔
      marking.heap.Marked s ∨ s = r := marked_setMark hc
  have hnew : ¬ (heap.Marked r ∨ r ∈ marking.order) := fun hr' => hr ((h.marked r).2 hr')
  have hroot : heap.Exposed [root] r :=
    h.exposed r (Or.inr (by rw [hw]; exact List.mem_cons_self))
  have hp' : heap.payload? r = some payload := (h.same.payload r).symm.trans hp
  -- what waited for a visit before is marked now, or waits still
  have hwait : ∀ s, marking.heap.Marked s ∨ s ∈ marking.heap.worklist →
      (marking.heap.Marked s ∨ s = r) ∨ s ∈ payload.edges ++ rest := by
    rintro s (hs | hs)
    · exact Or.inl (Or.inl hs)
    · rw [hw] at hs
      rcases List.mem_cons.1 hs with hs | hs
      · exact Or.inl (Or.inr hs)
      · exact Or.inr (List.mem_append_right _ hs)
  refine ⟨h.same.trans ((SameButMarks.setMark ..).trans (SameButMarks.await ..)),
    List.nodup_cons.2 ⟨fun hr' => hnew (Or.inr hr'), h.nodup⟩, fun s hs => ?_, fun s => ?_,
    fun s hs => ?_, fun s hs p hps t ht => ?_, ?_⟩
  · rcases List.mem_cons.1 hs with rfl | hs
    · exact fun hr' => hnew (Or.inl hr')
    · exact h.fresh s hs
  · rw [hm, h.marked, List.mem_cons]
    tauto
  · rcases hs with hs | hs
    · rcases List.mem_cons.1 hs with rfl | hs
      · exact hroot
      · exact h.exposed s (Or.inl hs)
    · rcases List.mem_append.1 hs with hs | hs
      · exact hroot.edge (fun hm => hnew (Or.inl hm)) hp' hs
      · exact h.exposed s (Or.inr (by rw [hw]; exact List.mem_cons_of_mem _ hs))
  · rw [hm]
    rcases List.mem_cons.1 hs with rfl | hs
    · obtain rfl : payload = p := Option.some.inj (hp'.symm.trans hps)
      exact Or.inr (List.mem_append_left _ ht)
    · exact hwait t (h.pending s hs p hps t ht)
  · rw [hm]
    exact hwait root h.root

/-- A round keeps the invariant. -/
theorem Tracks.step (h : Tracks heap root marking) : Tracks heap root marking.step := by
  obtain ⟨heap', order⟩ := marking
  cases hw : heap'.worklist with
  | nil => simpa [Marking.step, hw] using h
  | cons r rest =>
    cases hr : heap'.get? r with
    | none => simpa [Marking.step, hw, hr] using h
    | some cell =>
      cases hc : cell.marked with
      | true =>
        have hm : heap'.Marked r := by simp [Marked, mark?, hr, hc]
        simpa [Marking.step, hw, hr, hc] using h.drop hw hm
      | false =>
        have hp : heap'.payload? r = some cell.payload := by simp [payload?, hr]
        have hm : ¬ heap'.Marked r := by simp [Marked, mark?, hr, hc]
        simpa [Marking.step, hw, hr, hc] using h.visit hw hp hm

theorem run_of_halted (h : marking.halted = true) : marking.run = marking := by
  rw [run, dif_pos h]

theorem run_of_not_halted (h : marking.halted = false) : marking.run = marking.step.run := by
  rw [run, dif_neg (by rw [h]; exact Bool.false_ne_true)]

/-- A round changes marks and the worklist at most, whatever the heap. -/
theorem step_sameButMarks (marking : Marking) : marking.heap.SameButMarks marking.step.heap := by
  obtain ⟨heap, order⟩ := marking
  cases hw : heap.worklist with
  | nil => simpa [step, hw] using Heap.SameButMarks.refl heap
  | cons r rest =>
    cases hr : heap.get? r with
    | none => simpa [step, hw, hr] using Heap.SameButMarks.refl heap
    | some cell =>
      cases hm : cell.marked with
      | true => simpa [step, hw, hr, hm] using Heap.SameButMarks.await heap rest
      | false =>
        simpa [step, hw, hr, hm] using (Heap.SameButMarks.setMark heap r).trans (.await _ _)

/-- What every round keeps, the whole run keeps. -/
theorem run_induction {P : Marking → Prop} (step : ∀ marking, P marking → P marking.step)
    (marking : Marking) (h : P marking) : P marking.run ∧ marking.run.halted = true := by
  induction marking using run.induct with
  | case1 marking hh =>
    rw [run_of_halted hh]
    exact ⟨h, hh⟩
  | case2 marking hh _ ih =>
    rw [run_of_not_halted (Bool.eq_false_iff.2 hh)]
    exact ih (step marking h)

theorem run_sameButMarks (marking : Marking) : marking.heap.SameButMarks marking.run.heap :=
  (run_induction (P := fun m => marking.heap.SameButMarks m.heap)
    (fun m hm => hm.trans m.step_sameButMarks) marking (.refl marking.heap)).1

theorem Tracks.marks (h : Tracks heap root marking) :
    heap.Marks marking.order (marking.heap.await []) :=
  ⟨h.same.trans (SameButMarks.await ..), rfl, h.nodup, h.fresh, h.marked⟩

/-- Once nothing waits, what was marked is what the root exposes. -/
theorem Tracks.marksExposed (h : Tracks heap root marking) (hw : marking.heap.worklist = []) :
    heap.MarksExposed [root] marking.order (marking.heap.await []) := by
  have hdone : ∀ {s}, marking.heap.Marked s ∨ s ∈ marking.heap.worklist → marking.heap.Marked s :=
    fun hs => hs.resolve_right (by rw [hw]; exact List.not_mem_nil)
  refine ⟨h.marks, fun r => ?_⟩
  change marking.heap.Marked r ↔ _
  constructor
  · intro hr
    exact ((h.marked r).1 hr).imp_right fun hr => h.exposed r (Or.inl hr)
  · rintro (hr | hr)
    · exact (h.marked r).2 (Or.inl hr)
    · induction hr with
      | root hs =>
        rw [List.mem_singleton.1 hs]
        exact hdone h.root
      | edge _ hm hp ht ih =>
        exact hdone (h.pending _ (((h.marked _).1 ih).resolve_left hm) _ hp _ ht)

/-- What a marking halts at is exposed, and gone. -/
theorem Tracks.lost_of_halted (h : Tracks heap root marking) (hh : marking.halted = true)
    {r : Ref} {rest : List Ref} (hw : marking.heap.worklist = r :: rest) :
    heap.Exposed [root] r ∧ heap.contains r = false := by
  refine ⟨h.exposed r (Or.inr (by rw [hw]; exact List.mem_cons_self)), ?_⟩
  rw [halted, hw] at hh
  simpa [h.same.contains r] using hh

end Marking

namespace Heap

variable {heap heap' heap'' : Heap} {journal : List Record} {output : String}

theorem mark_apply (root : Ref) (heap : Heap) (journal : List Record) (output : String) :
    mark root ⟨heap, journal, output⟩ =
      let marking := (Marking.ofRoot heap root).run
      match marking.heap.worklist.head? with
      | none => .ok marking.order.length ⟨marking.heap.await [], journal, output⟩
      | some r => .error (.fault (.danglingEdge r)) ⟨marking.heap.await [], journal, output⟩ := by
  simp only [mark, Action.bind_apply, Action.transition_apply]
  obtain ⟨heap', order⟩ := (Marking.ofRoot heap root).run
  simp only [Marking.finish]
  cases heap'.worklist.head? <;> rfl

theorem after_mark (root : Ref) (heap : Heap) (journal : List Record) (output : String) :
    (mark root).after ⟨heap, journal, output⟩ =
      ⟨(Marking.ofRoot heap root).run.heap.await [], journal, output⟩ := by
  rw [Action.after, mark_apply]
  dsimp only
  cases (Marking.ofRoot heap root).run.heap.worklist.head? <;> rfl

/-- However a marking ends, it changes marks and the worklist at most. -/
theorem sameButMarks_mark (root : Ref) (session : Session Heap) :
    session.state.SameButMarks ((mark root).after session).state := by
  obtain ⟨heap, journal, output⟩ := session
  rw [after_mark]
  have hstart : heap.SameButMarks (Marking.ofRoot heap root).heap :=
    .await heap (root :: heap.worklist)
  exact (hstart.trans (Marking.ofRoot heap root).run_sameButMarks).trans (.await _ [])

/-- A marking leaves nothing waiting, even one that breaks off. -/
theorem worklist_mark (root : Ref) (session : Session Heap) :
    ((mark root).after session).state.worklist = [] := by
  obtain ⟨heap, journal, output⟩ := session
  rw [after_mark]
  rfl

/-- What a marking from each root keeps, a marking from all of them keeps. -/
theorem after_markFrom {P : Session Heap → Prop}
    (h : ∀ root session, P session → P ((mark root).after session)) (roots : List Ref)
    {session : Session Heap} (hs : P session) : P ((markFrom roots).after session) := by
  -- the induction carries the number of cells marked from the roots before
  suffices hfold : ∀ (marked : Nat) (session : Session Heap), P session → P
      (Action.after (roots.foldlM (fun marked root => do return marked + (← mark root)) marked)
        session) from hfold 0 session hs
  induction roots with
  | nil => exact fun _ session hs => hs
  | cons root roots ih =>
    intro marked session hs
    have hroot := h root session hs
    rw [List.foldlM_cons, Action.after, Action.bind_apply, Action.bind_apply]
    cases hmark : mark root session with
    | ok newly session' =>
      rw [Action.after_of_ok hmark] at hroot
      exact ih (marked + newly) session' hroot
    | error failure session' =>
      rwa [Action.after_of_error hmark] at hroot

theorem sameButMarks_markFrom (roots : List Ref) (session : Session Heap) :
    session.state.SameButMarks ((markFrom roots).after session).state :=
  after_markFrom (P := fun s => session.state.SameButMarks s.state)
    (fun root _ hs => hs.trans (sameButMarks_mark root _)) roots (.refl session.state)

theorem worklist_markFrom (roots : List Ref) {session : Session Heap}
    (hidle : session.state.worklist = []) :
    ((markFrom roots).after session).state.worklist = [] :=
  after_markFrom (P := fun s => s.state.worklist = []) (fun root _ _ => worklist_mark root _)
    roots hidle

/-- Nothing that some roots expose is gone when all of it was marked. -/
theorem MarksExposed.contains {roots order : List Ref} (h : heap.MarksExposed roots order heap')
    {r : Ref} (hr : heap.Exposed roots r) : heap.contains r = true := by
  rw [← h.same.contains r]
  exact contains_of_marked ((h.exposed r).2 (Or.inr hr))

/-- If the marks that were there before were closed under links, what is exposed and what is
reachable come to the same. -/
theorem MarksExposed.marksFrom {roots order : List Ref}
    (h : heap.MarksExposed roots order heap') (hclosed : heap.MarksClosed) :
    heap.MarksFrom roots order heap' := by
  refine ⟨h.toMarks, fun r => ?_⟩
  constructor
  · intro hr
    exact ((h.exposed r).1 hr).imp_right Exposed.reachable
  · rintro (hr | hr)
    · exact (h.exposed r).2 (Or.inl hr)
    · refine hr.of_closed (S := fun r => heap'.Marked r)
        (fun s hs => (h.exposed s).2 (Or.inr (.root hs))) fun s payload hs hp t ht => ?_
      by_cases hm : heap.Marked s
      · exact (h.exposed t).2 (Or.inl (hclosed s payload hm hp t ht))
      · exact (h.exposed t).2 (Or.inr ((((h.exposed s).1 hs).resolve_left hm).edge hm hp ht))

/-- Two markings after each other are one from the roots of both. -/
theorem MarksExposed.append {root : Ref} {roots order order' : List Ref}
    (h : heap.MarksExposed [root] order heap') (h' : heap'.MarksExposed roots order' heap'') :
    heap.MarksExposed (root :: roots) (order' ++ order) heap'' where
  same := h.same.trans h'.same
  idle := h'.idle
  nodup := List.nodup_append.2 ⟨h'.nodup, h.nodup, by
    rintro r hr _ hs rfl
    exact h'.fresh r hr ((h.marked r).2 (Or.inr hs))⟩
  fresh r hr hm := by
    rcases List.mem_append.1 hr with hr | hr
    · exact h'.fresh r hr ((h.marked r).2 (Or.inl hm))
    · exact h.fresh r hr hm
  marked r := by
    rw [h'.marked, h.marked, List.mem_append]
    tauto
  exposed r := by
    rw [h'.exposed, exposed_cons, ← or_assoc, ← h.exposed]
    constructor
    · exact Or.imp_right (·.of_marks h.same.payload fun s hs => (h.exposed s).2 (Or.inl hs))
    · rintro (hr | hr)
      · exact Or.inl hr
      · exact hr.marked_or_exposed h.same.payload h.exposed

/-- Marking from a root marks what it exposes, or breaks off at a part of it that is gone. -/
theorem mark_cases (hidle : heap.worklist = []) (root : Ref) (journal : List Record)
    (output : String) :
    (∃ order heap', heap.MarksExposed [root] order heap' ∧
      mark root ⟨heap, journal, output⟩ = .ok order.length ⟨heap', journal, output⟩) ∨
    ∃ r heap', (heap.Exposed [root] r ∧ heap.contains r = false) ∧
      mark root ⟨heap, journal, output⟩ =
        .error (.fault (.danglingEdge r)) ⟨heap', journal, output⟩ := by
  obtain ⟨htracks, hhalted⟩ := Marking.run_induction (P := Marking.Tracks heap root)
    (fun _ h => h.step) (Marking.ofRoot heap root) (Marking.tracks_ofRoot hidle)
  rw [mark_apply]
  cases hw : (Marking.ofRoot heap root).run.heap.worklist with
  | nil => exact Or.inl ⟨_, _, htracks.marksExposed hw, by simp only [hw, List.head?_nil]⟩
  | cons r rest =>
    exact Or.inr ⟨r, (Marking.ofRoot heap root).run.heap.await [],
      htracks.lost_of_halted hhalted hw, by simp only [hw, List.head?_cons]⟩

/-- **Marking from some roots marks what they expose**, or breaks off at a part of it that is
gone. -/
theorem markFrom_cases (hidle : heap.worklist = []) (roots : List Ref) (journal : List Record)
    (output : String) :
    (∃ order heap', heap.MarksExposed roots order heap' ∧
      markFrom roots ⟨heap, journal, output⟩ = .ok order.length ⟨heap', journal, output⟩) ∨
    ∃ r heap', (heap.Exposed roots r ∧ heap.contains r = false) ∧
      markFrom roots ⟨heap, journal, output⟩ =
        .error (.fault (.danglingEdge r)) ⟨heap', journal, output⟩ := by
  -- the induction carries the number of cells marked from the roots before
  suffices h : ∀ marked, (∃ order heap', heap.MarksExposed roots order heap' ∧
      (roots.foldlM (fun marked root => do return marked + (← mark root)) marked :
        Action Heap Nat) ⟨heap, journal, output⟩ =
          .ok (marked + order.length) ⟨heap', journal, output⟩) ∨
      ∃ r heap', (heap.Exposed roots r ∧ heap.contains r = false) ∧
      (roots.foldlM (fun marked root => do return marked + (← mark root)) marked :
        Action Heap Nat) ⟨heap, journal, output⟩ =
          .error (.fault (.danglingEdge r)) ⟨heap', journal, output⟩ by
    simpa only [markFrom, Nat.zero_add] using h 0
  induction roots generalizing heap with
  | nil =>
    intro marked
    exact Or.inl ⟨[], heap, ⟨⟨SameButMarks.refl heap, hidle, List.nodup_nil,
      fun _ hr => absurd hr List.not_mem_nil, fun r => by simp⟩,
      fun r => by simp [not_exposed_nil]⟩, rfl⟩
  | cons root roots ih =>
    intro marked
    rw [List.foldlM_cons, Action.bind_apply, Action.bind_apply]
    rcases mark_cases hidle root journal output with ⟨order, heap', hm, hrun⟩ |
      ⟨r, heap', ⟨hr, hgone⟩, hrun⟩
    · simp only [hrun, Action.pure_apply]
      rcases ih hm.idle (marked + order.length) with ⟨order', heap'', hm', hrun'⟩ |
        ⟨r, heap'', ⟨hr, hgone⟩, hrun'⟩
      · refine Or.inl ⟨_, _, hm.append hm', ?_⟩
        rw [hrun', List.length_append, Nat.add_assoc, Nat.add_comm order.length]
      · rw [hm.same.contains] at hgone
        have hr' := hr.of_marks hm.same.payload fun s hs => (hm.exposed s).2 (Or.inl hs)
        exact Or.inr ⟨r, heap'', ⟨hr'.mono (List.subset_cons_self _ _), hgone⟩, hrun'⟩
    · simp only [hrun]
      exact Or.inr ⟨r, heap', ⟨hr.mono (by simp), hgone⟩, rfl⟩

/-- **On a whole heap, marking from some roots marks what they lead to**, if the marks that
were there before were closed under links. -/
theorem markFrom_eq_ok {roots : List Ref} (hidle : heap.worklist = []) (hwhole : heap.Whole)
    (hclosed : heap.MarksClosed) (hroots : ∀ r ∈ roots, heap.contains r = true)
    (journal : List Record) (output : String) :
    ∃ order heap', heap.MarksFrom roots order heap' ∧
      markFrom roots ⟨heap, journal, output⟩ = .ok order.length ⟨heap', journal, output⟩ := by
  rcases markFrom_cases hidle roots journal output with ⟨order, heap', hm, hrun⟩ |
    ⟨r, heap', ⟨hr, hgone⟩, -⟩
  · exact ⟨order, heap', hm.marksFrom hclosed, hrun⟩
  · rw [hr.reachable.contains hwhole hroots] at hgone
    cases hgone

end Heap

end MarkSweep
