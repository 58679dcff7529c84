/-
# Generations

A slot counts how often it was vacated, as far as 32 bits can count, and a handle resolves
only in the generation that it was given out in.  `Heap.Ages` says how the generations move
on while records are made: by one for every cell that is recorded as freed, and a cell that
is not recorded as freed stays.  It asks nothing of the heap, so it holds of whatever a
failing operation leaves, too.

`Heap.Ages.contains_iff` is what follows for a handle: it resolves again once its slot is
taken and was vacated a multiple of 2³² times since.

`Action.Ages` lifts this to actions, and every operation on a heap has it.
-/

import MarkSweep.Proofs.Heap.Marking
import MarkSweep.Proofs.Heap.Sweeping
import Mathlib.Data.List.Count
import Mathlib.Order.Nat

namespace MarkSweep

namespace Heap

variable {heap heap' heap'' : Heap} {records records' : List Record}

/-- From the first heap to the second the generations moved on as the records say. -/
structure Ages (heap : Heap) (records : List Record) (heap' : Heap) : Prop where
  grows : heap.slotCount ≤ heap'.slotCount
  handle : ∀ i, heap'.handle i =
    ⟨i, (heap.handle i).generation + UInt32.ofNat (records.count (.freed i))⟩
  stays : ∀ r, heap.contains r = true → records.count (.freed r.index) = 0 →
    heap'.contains r = true

/-- Nothing happens to the generations where every slot keeps its handle and every handle
goes on to resolve. -/
theorem ages_of_handle_eq (hcount : ∀ i, records.count (.freed i) = 0)
    (hgrows : heap.slotCount ≤ heap'.slotCount)
    (hhandle : ∀ i, heap'.handle i = heap.handle i)
    (hstays : ∀ r, heap.contains r = true → heap'.contains r = true) :
    heap.Ages records heap' where
  grows := hgrows
  handle i := by
    rw [hhandle, hcount]
    exact congrArg (Ref.mk i) (UInt32.add_zero _).symm
  stays r hr _ := hstays r hr

theorem Ages.refl (heap : Heap) : heap.Ages [] heap :=
  ages_of_handle_eq (fun _ => rfl) le_rfl (fun _ => rfl) fun _ => id

theorem Ages.trans (h : heap.Ages records heap') (h' : heap'.Ages records' heap'') :
    heap.Ages (records' ++ records) heap'' where
  grows := h.grows.trans h'.grows
  handle i := by
    rw [h'.handle, h.handle, List.count_append, Nat.add_comm, UInt32.ofNat_add, UInt32.add_assoc]
  stays r hr hcount := by
    rw [List.count_append] at hcount
    exact h'.stays r (h.stays r hr (by omega)) (by omega)

/-- A multiple of 2³² releases brings a generation back. -/
theorem generation_add_ofNat_eq_iff (generation : UInt32) (n : Nat) :
    generation + UInt32.ofNat n = generation ↔ UInt32.size ∣ n := by
  rw [UInt32.add_eq_left, ← UInt32.toNat_inj, UInt32.toNat_ofNat', Nat.dvd_iff_mod_eq_zero]
  rfl

/-- **When a handle resolves again.**  A handle that resolved once resolves later on if its
slot is taken and was vacated a multiple of 2³² times in between. -/
theorem Ages.contains_iff {r : Ref} (h : heap.Ages records heap')
    (hr : heap.contains r = true) :
    heap'.contains r = true ↔
      ¬ heap'.Vacant r.index ∧ UInt32.size ∣ records.count (.freed r.index) := by
  have hslot : r.index < heap'.slotCount := (Heap.contains_iff.1 hr).1.trans_le h.grows
  have hhandle : heap'.handle r.index = r ↔ UInt32.size ∣ records.count (.freed r.index) := by
    rw [h.handle, (Heap.contains_iff.1 hr).2.2, ← generation_add_ofNat_eq_iff r.generation]
    constructor
    · intro heq
      exact congrArg Ref.generation heq
    · intro heq
      rw [heq]
  rw [Heap.contains_iff, hhandle, and_iff_right hslot]

/-- Records of cells that were freed count the slots of these cells. -/
theorem count_freed (refs : List Ref) (i : Nat) :
    ((refs.map fun r => Record.freed r.index).reverse).count (.freed i) =
      (refs.map Ref.index).count i := by
  have hinjective : Function.Injective Record.freed := fun _ _ => Record.freed.inj
  rw [List.count_reverse, ← List.count_map_of_injective _ _ hinjective, List.map_map]
  rfl

/-! ### The changes of a heap -/

theorem ages_update (heap : Heap) (r : Ref) (f : Cell → Cell) :
    heap.Ages [] (heap.update r f) :=
  ages_of_handle_eq (fun _ => rfl) (slotCount_update heap r f).ge (handle_update heap r f)
    fun s hs => by rwa [contains_update]

theorem SameButMarks.ages (h : heap.SameButMarks heap') : heap.Ages [] heap' :=
  ages_of_handle_eq (fun _ => rfl) h.slotCount.ge h.handle fun r hr => by rwa [h.contains]

theorem ages_relink (heap : Heap) (link target : Option Ref) :
    heap.Ages [] (heap.relink link target) :=
  ages_of_handle_eq (fun _ => rfl) (slotCount_relink heap link target).ge
    (handle_relink heap link target) fun r hr => by rwa [contains_relink]

theorem ages_occupy {index : Nat} (hv : heap.vacancy = .ok index) (payload : Payload) :
    heap.Ages [.allocated payload.kind index] (heap.occupy index payload) :=
  ages_of_handle_eq (fun _ => rfl) (slotCount_le_occupy heap index payload)
    (handle_occupy hv payload) fun r hr => (contains_occupy hv payload r).2 (Or.inr hr)

theorem ages_release {r : Ref} (hr : heap.contains r = true) :
    heap.Ages [.freed r.index] (heap.release r) where
  grows := (slotCount_release heap r).ge
  handle i := by
    rw [handle_release hr]
    by_cases hi : i = r.index
    · rw [if_pos hi, hi, List.count_singleton_self]
      rfl
    · have hne : (Record.freed r.index == Record.freed i) = false := by
        simpa using Ne.symm hi
      rw [if_neg hi, List.count_singleton, hne]
      exact congrArg (Ref.mk i) (UInt32.add_zero _).symm
  stays s hs hcount := by
    have hi : s.index ≠ r.index := by
      intro hi
      rw [hi, List.count_singleton_self] at hcount
      omega
    have hsr : s ≠ r := fun hsr => hi (congrArg Ref.index hsr)
    have hget := map_get?_release (fun _ => ()) hr s
    rw [if_neg hsr] at hget
    rwa [contains, ← Option.isSome_map (f := fun _ => ()), hget, Option.isSome_map]

end Heap

/-! ### Loops -/

/-- A round of a sweep frees the cell at the cursor, or frees none. -/
theorem Sweeping.ages_step {heap : Heap} {sweeping : Sweeping}
    (h : heap.Ages (sweeping.freed.map fun r => .freed r.index) sweeping.heap) :
    heap.Ages (sweeping.step.freed.map fun r => .freed r.index) sweeping.step.heap := by
  obtain ⟨swept, link, cursor, freed⟩ := sweeping
  cases cursor with
  | none => exact h
  | some r =>
    cases hr : swept.get? r with
    | none => simpa [step, hr] using h
    | some cell =>
      cases hm : cell.marked with
      | true =>
        have hstep : (Sweeping.mk swept link (some r) freed).step =
            ⟨swept.clearMark r, some r, cell.next, freed⟩ := by simp [step, hr, hm]
        rw [hstep]
        exact h.trans (Heap.ages_update swept r _)
      | false =>
        have hstep : (Sweeping.mk swept link (some r) freed).step =
            ⟨(swept.relink link cell.next).release r, link, cell.next, r :: freed⟩ := by
          simp [step, hr, hm]
        have hc : (swept.relink link cell.next).contains r = true := by
          rw [Heap.contains_relink]
          exact Heap.contains_iff_exists.2 ⟨cell, hr⟩
        rw [hstep]
        exact (h.trans (Heap.ages_relink swept link cell.next)).trans (Heap.ages_release hc)

theorem Sweeping.ages_run (heap : Heap) :
    heap.Ages ((ofHeap heap).run.freed.map fun r => .freed r.index) (ofHeap heap).run.heap :=
  run_induction (P := fun s => heap.Ages (s.freed.map fun r => .freed r.index) s.heap)
    (fun _ _ hs => ages_step hs) (ofHeap heap) (.refl heap)

/-! ### Actions -/

/-- The generations of the heap in a session moved on as its journal says. -/
def Session.Aged {σ : Type} (part : σ → Heap) (session session' : Session σ) : Prop :=
  ∃ records, session'.journal = records ++ session.journal ∧
    (part session.state).Ages records (part session'.state)

section Aged

variable {σ : Type} {part : σ → Heap} {session session' session'' : Session σ}

theorem Session.Aged.refl (session : Session σ) : session.Aged part session :=
  ⟨[], rfl, .refl _⟩

theorem Session.Aged.trans (h : session.Aged part session') (h' : session'.Aged part session'') :
    session.Aged part session'' := by
  obtain ⟨records, hj, hages⟩ := h
  obtain ⟨records', hj', hages'⟩ := h'
  refine ⟨records' ++ records, ?_, hages.trans hages'⟩
  rw [hj', hj, List.append_assoc]

end Aged

namespace Action

variable {σ α β : Type} {part : σ → Heap}

/-- However the action ends, the generations move on as it records. -/
def Ages (part : σ → Heap) (act : Action σ α) : Prop :=
  ∀ session : Session σ, session.Aged part (act.after session)

theorem ages_pure (a : α) : Ages part (pure a) := fun session => .refl session

theorem ages_throw (failure : Failure) : Ages part (throw failure : Action σ α) :=
  fun session => .refl session

theorem ages_observe (f : σ → α) : Ages part (observe f) := fun session => .refl session

/-- A record of anything but a cell freed. -/
theorem ages_record {r : Record} (h : ∀ i, r ≠ .freed i) : Ages part (record r) := fun session =>
  ⟨[r], rfl, Heap.ages_of_handle_eq (fun i => by simp [h i]) le_rfl (fun _ => rfl) fun _ => id⟩

/-- A change of everything but the heap. -/
theorem ages_update {f : σ → σ} (h : ∀ state, part (f state) = part state) :
    Ages part (update f) := fun session => by
  refine ⟨[], rfl, ?_⟩
  show (part session.state).Ages [] (part (f session.state))
  rw [h]
  exact .refl _

theorem ages_transition {f : σ → α × σ} (h : ∀ state, part (f state).2 = part state) :
    Ages part (transition f) := fun session => by
  refine ⟨[], rfl, ?_⟩
  show (part session.state).Ages [] (part (f session.state).2)
  rw [h]
  exact .refl _

theorem Ages.bind {act : Action σ α} {next : α → Action σ β} (h : Ages part act)
    (hnext : ∀ a, Ages part (next a)) : Ages part (act >>= next) := fun session => by
  have hact := h session
  rw [after] at hact
  rw [after, bind_apply]
  cases hresult : act session with
  | ok a session' =>
    rw [hresult] at hact
    exact hact.trans (hnext a session')
  | error failure session' =>
    rw [hresult] at hact
    exact hact

theorem Ages.ite {c : Prop} [Decidable c] {act act' : Action σ α} (h : Ages part act)
    (h' : Ages part act') : Ages part (if c then act else act') := by
  split_ifs
  · exact h
  · exact h'

theorem ages_foldlM {ι : Type} {next : β → ι → Action σ β} (h : ∀ b i, Ages part (next b i))
    (items : List ι) (b : β) : Ages part (items.foldlM next b) := by
  induction items generalizing b with
  | nil => exact ages_pure b
  | cons i items ih =>
    rw [List.foldlM_cons]
    exact (h b i).bind ih

end Action

namespace Heap

theorem ages_allocate (payload : Payload) : Action.Ages id (allocate payload) := by
  rintro ⟨heap, journal, output⟩
  cases hv : heap.vacancy with
  | error failure =>
    have hfail : allocate payload ⟨heap, journal, output⟩ =
        .error failure ⟨heap, journal, output⟩ := by simp [allocate, hv]
    rw [Action.after_of_error hfail]
    exact .refl _
  | ok index =>
    have hok : allocate payload ⟨heap, journal, output⟩ = .ok (heap.handle index)
        ⟨heap.occupy index payload, .allocated payload.kind index :: journal, output⟩ := by
      simp [allocate, hv]
    rw [Action.after_of_ok hok]
    exact ⟨_, rfl, ages_occupy hv payload⟩

theorem ages_setPair (pair first second : Ref) : Action.Ages id (setPair pair first second) := by
  refine .bind (Action.ages_observe _) fun found => ?_
  cases found with
  | none => exact Action.ages_throw _
  | some cell =>
    refine Action.Ages.ite ((Action.ages_throw _).bind fun _ => ?_) ?_ <;>
      exact fun session => ⟨[], rfl, ages_update _ _ _⟩

theorem ages_mark (root : Ref) : Action.Ages id (mark root) := by
  rintro ⟨heap, journal, output⟩
  have hages := (sameButMarks_mark root ⟨heap, journal, output⟩).ages
  rw [after_mark] at hages ⊢
  exact ⟨[], rfl, hages⟩

theorem ages_markFrom (roots : List Ref) : Action.Ages id (markFrom roots) :=
  Action.ages_foldlM (fun _ root => (ages_mark root).bind fun _ => Action.ages_pure _) roots 0

theorem ages_sweep : Action.Ages id sweep := by
  rintro ⟨heap, journal, output⟩
  have hafter : Action.after sweep ⟨heap, journal, output⟩ = ⟨(Sweeping.ofHeap heap).run.heap,
      ((Sweeping.ofHeap heap).run.freed.map fun r => .freed r.index) ++ journal, output⟩ := by
    rw [Action.after, sweep_apply]
    dsimp only
    cases (Sweeping.ofHeap heap).run.obstacle? <;> rfl
  rw [hafter]
  exact ⟨_, rfl, Sweeping.ages_run heap⟩

end Heap

end MarkSweep
