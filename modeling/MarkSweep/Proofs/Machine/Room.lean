/-
# Room for a cell

An allocation request looks for room first.  It collects when the threshold or the
object limit is reached (`Machine.Due`), and is refused exactly when as many cells
are live as the limit allows (`Machine.HasRoom`); `makeRoom_cases` puts the outcomes
together.  A request collects once at most, and from the machine it was made on,
since nothing else comes before.

`Machine.Keeps` is what the search for room leaves for the program to see: the
roots, the live cells with their payloads, and the number of allocations.
-/

import MarkSweep.Proofs.Machine.Collection

namespace MarkSweep

namespace Machine

variable {machine before after : Machine} {freed : List Ref}

/-- The second machine holds what the program can see of the first. -/
structure Keeps (before after : Machine) : Prop where
  roots : after.roots = before.roots
  settings : after.settings = before.settings
  allocated : after.totals.allocated = before.totals.allocated
  live : after.live = before.live
  payload : ∀ r ∈ before.live, after.heap.payload? r = before.heap.payload? r

theorem Keeps.refl (machine : Machine) : machine.Keeps machine :=
  ⟨rfl, rfl, rfl, rfl, fun _ _ => rfl⟩

theorem Collects.keeps (h : before.Collects freed after) : before.Keeps after where
  roots := h.roots
  settings := h.settings
  allocated := by rw [h.totals]
  live := h.live
  payload := h.kept

/-- A collection runs if the threshold or the object limit is reached. -/
def Due (machine : Machine) : Prop :=
  machine.threshold ≤ machine.count ∨
    ∃ limit, machine.settings.maxObjects = some limit ∧ limit ≤ machine.count

/-- Fewer cells are live than the object limit allows. -/
def HasRoom (machine : Machine) : Prop :=
  ∀ limit, machine.settings.maxObjects = some limit → machine.live.ncard < limit

theorem due_iff_of_none (h : machine.settings.maxObjects = none) :
    machine.Due ↔ machine.threshold ≤ machine.count := by
  simp [Due, h]

theorem due_iff_of_some {limit : Nat} (h : machine.settings.maxObjects = some limit) :
    machine.Due ↔ machine.threshold ≤ machine.count ∨ limit ≤ machine.count := by
  simp [Due, h]

theorem hasRoom_of_none (h : machine.settings.maxObjects = none) : machine.HasRoom := by
  simp [HasRoom, h]

theorem hasRoom_iff_of_some {limit : Nat} (h : machine.settings.maxObjects = some limit) :
    machine.HasRoom ↔ machine.live.ncard < limit := by
  simp [HasRoom, h]

/-- Without a collection due there is room, and nothing happens. -/
theorem makeRoom_of_not_due (hs : machine.Sound) (h : ¬ machine.Due) (journal : List Record)
    (output : String) :
    machine.HasRoom ∧
      makeRoom ⟨machine, journal, output⟩ = .ok () ⟨machine, journal, output⟩ := by
  have hlive := hs.ncard_live_le_count
  cases hmax : machine.settings.maxObjects with
  | none =>
    rw [due_iff_of_none hmax] at h
    exact ⟨hasRoom_of_none hmax, by simp [makeRoom, collectIfDue, h, hmax]⟩
  | some limit =>
    rw [due_iff_of_some hmax, not_or] at h
    refine ⟨(hasRoom_iff_of_some hmax).2 (by omega), ?_⟩
    simp [makeRoom, collectIfDue, enforceLimit, h.1, h.2, hmax]

/-- A collection that is due runs once, whichever of its two reasons it has, and the
object limit is checked on what it leaves. -/
theorem makeRoom_of_due {stats : Collection} {journal journal' : List Record} {output : String}
    (h : machine.Due) (hsettings : after.settings = machine.settings)
    (hcollect : collect ⟨machine, journal, output⟩ = .ok stats ⟨after, journal', output⟩) :
    makeRoom ⟨machine, journal, output⟩ =
      match machine.settings.maxObjects with
      | none => .ok () ⟨after, journal', output⟩
      | some limit =>
        if limit ≤ after.count then
          .error (.heapExhausted after.count limit)
            ⟨after, .limitReached after.count limit :: journal', output⟩
        else
          .ok () ⟨after, journal', output⟩ := by
  by_cases hdue : machine.threshold ≤ machine.count
  · cases hmax : machine.settings.maxObjects with
    | none => simp [makeRoom, collectIfDue, hdue, hcollect, hsettings, hmax]
    | some limit =>
      by_cases hfull : limit ≤ after.count <;>
        simp [makeRoom, collectIfDue, enforceLimit, hdue, hcollect, hsettings, hmax, hfull]
  · obtain ⟨limit, hmax, hle⟩ := h.resolve_left hdue
    by_cases hfull : limit ≤ after.count <;>
      simp [makeRoom, collectIfDue, enforceLimit, hdue, hcollect, hmax, hle, hfull]

/-- **The search for room has three outcomes.**  Nothing happens, if no collection is
due; or one collection runs and makes room; or it runs, as many cells are live as the
object limit allows, and the request is refused. -/
theorem makeRoom_cases (hs : machine.Sound) (journal : List Record) (output : String) :
    (¬ machine.Due ∧ machine.HasRoom ∧
      makeRoom ⟨machine, journal, output⟩ = .ok () ⟨machine, journal, output⟩) ∨
    ∃ freed after, machine.Due ∧ machine.Collects freed after ∧
      collect ⟨machine, journal, output⟩ =
        .ok ⟨machine.live.ncard, freed.length, machine.live.ncard, after.threshold⟩
          ⟨after, collectionRecords freed machine.live.ncard ++ journal, output⟩ ∧
      ((machine.HasRoom ∧ makeRoom ⟨machine, journal, output⟩ =
          .ok () ⟨after, collectionRecords freed machine.live.ncard ++ journal, output⟩) ∨
        ∃ limit, machine.settings.maxObjects = some limit ∧ machine.live.ncard = limit ∧
          makeRoom ⟨machine, journal, output⟩ = .error (.heapExhausted limit limit)
            ⟨after, .limitReached limit limit ::
              (collectionRecords freed machine.live.ncard ++ journal), output⟩) := by
  by_cases hdue : machine.Due
  · obtain ⟨freed, after, hcollects, hcollect⟩ := collect_eq_ok hs journal output
    have hroom := makeRoom_of_due hdue hcollects.settings hcollect
    refine Or.inr ⟨freed, after, hdue, hcollects, hcollect, ?_⟩
    cases hmax : machine.settings.maxObjects with
    | none =>
      rw [hmax] at hroom
      exact Or.inl ⟨hasRoom_of_none hmax, hroom⟩
    | some limit =>
      simp only [hmax, hcollects.count] at hroom
      split_ifs at hroom with hfull
      · have hlimit := hs.limit limit hmax
        have hlive := hs.ncard_live_le_count
        obtain rfl : machine.live.ncard = limit := by omega
        exact Or.inr ⟨_, rfl, rfl, hroom⟩
      · exact Or.inl ⟨(hasRoom_iff_of_some hmax).2 (Nat.not_le.1 hfull), hroom⟩
  · exact Or.inl ⟨hdue, makeRoom_of_not_due hs hdue journal output⟩

end Machine

end MarkSweep
