/-
# How large the arena grows

The arena never gives a slot back, so its size is the most cells there ever were.  What
bounds it is the threshold: a cell is added below the threshold, or after a collection that
left the live cells alone, and a threshold is what the settings start with, or what they make
of the live cells (`Settings.footprint`).

With `peak` cells live at the worst moment of a run, the arena therefore keeps to the
footprint of that many cells, and to the object limit (`Trail.within_footprint`).
-/

import MarkSweep.Proofs.Machine.Effects

namespace MarkSweep

namespace Settings

variable {settings : Settings} {live most : Nat}

/-- The slots that a machine gets by with when no more than so many cells are ever live. -/
def footprint (settings : Settings) (most : Nat) : Nat :=
  max (max settings.initialThreshold settings.minThreshold) (settings.growthFactor * most)

theorem initialThreshold_le_footprint (settings : Settings) (most : Nat) :
    settings.initialThreshold ≤ settings.footprint most :=
  (Nat.le_max_left _ _).trans (Nat.le_max_left _ _)

theorem footprint_mono (settings : Settings) : Monotone settings.footprint := fun _ _ h =>
  max_le_max_left _ (Nat.mul_le_mul_left _ h)

theorem thresholdAfter_le_footprint (h : live ≤ most) :
    settings.thresholdAfter live ≤ settings.footprint most := by
  have hgrown : live * settings.growthFactor ≤ settings.growthFactor * most := by
    rw [Nat.mul_comm]
    exact Nat.mul_le_mul_left _ h
  refine max_le ?_ ?_
  · exact (Nat.min_le_left _ _).trans (hgrown.trans (Nat.le_max_right _ _))
  · exact (Nat.le_max_right _ _).trans (Nat.le_max_left _ _)

theorem one_le_growthFactor (h : settings.rejected? = none) : 1 ≤ settings.growthFactor :=
  pos_of_value? h .growthFactor rfl

/-- The threshold after a collection is any multiple of the survivors that the growth factor
and 64 bits allow, at least. -/
theorem mul_le_thresholdAfter {factor : Nat} (hgrowth : factor ≤ settings.growthFactor)
    (hfits : factor * live ≤ UInt64.size - 1) : factor * live ≤ settings.thresholdAfter live := by
  refine le_max_of_le_left (le_min ?_ hfits)
  rw [Nat.mul_comm]
  exact Nat.mul_le_mul_left _ hgrowth

/-- The live cells themselves fit in. -/
theorem le_footprint (h : settings.rejected? = none) (most : Nat) :
    most ≤ settings.footprint most :=
  (Nat.le_mul_of_pos_left _ (one_le_growthFactor h)).trans (Nat.le_max_right _ _)

end Settings

namespace Machine

/-- A machine that keeps to the footprint of so many live cells, to its object limit, and to
the slots that can be numbered. -/
structure Fits (most : Nat) (machine : Machine) : Prop where
  slotCount : machine.heap.slotCount ≤ machine.settings.footprint most
  threshold : machine.threshold ≤ machine.settings.footprint most
  limit : ∀ limit, machine.settings.maxObjects = some limit → machine.heap.slotCount ≤ limit
  numbered : machine.heap.slotCount ≤ Heap.maxSlots

variable {machine mid after : Machine} {most : Nat}

theorem fits_initial (settings : Settings) (most : Nat) : (initial settings).Fits most where
  slotCount := Nat.zero_le _
  threshold := settings.initialThreshold_le_footprint most
  limit _ _ := Nat.zero_le _
  numbered := Nat.zero_le _

theorem Fits.mono {most' : Nat} (h : machine.Fits most) (hle : most ≤ most') :
    machine.Fits most' where
  slotCount := h.slotCount.trans (Settings.footprint_mono _ hle)
  threshold := h.threshold.trans (Settings.footprint_mono _ hle)
  limit := h.limit
  numbered := h.numbered

theorem Collects.fits {freed : List Ref} (h : machine.Collects freed after)
    (hf : machine.Fits most) (hlive : machine.live.ncard ≤ most) : after.Fits most where
  slotCount := by
    rw [h.slotCount, h.settings]
    exact hf.slotCount
  threshold := by
    rw [h.threshold, h.settings]
    exact Settings.thresholdAfter_le_footprint hlive
  limit := by
    rw [h.slotCount, h.settings]
    exact hf.limit
  numbered := h.slotCount ▸ hf.numbered

variable {journal journal' : List Record} {output : String}

theorem Prepares.fits (h : machine.Prepares journal output mid journal')
    (hf : machine.Fits most) (hlive : machine.live.ncard ≤ most) : mid.Fits most := by
  cases h with
  | spare => exact hf
  | collected _ hcollects => exact hcollects.fits hf hlive

/-- One more cell fits in, since it is either below the threshold or makes one more live cell
than there are. -/
theorem Prepares.count_lt_footprint (h : machine.Prepares journal output mid journal')
    (hs : machine.Sound) (hf : machine.Fits most) (hlive : machine.live.ncard < most) :
    mid.count < machine.settings.footprint most := by
  cases h with
  | spare hdue => exact (Nat.not_le.1 fun hle => hdue (Or.inl hle)).trans_le hf.threshold
  | collected _ hcollects =>
    rw [hcollects.count]
    exact hlive.trans_le (Settings.le_footprint hs.accepted most)

/-- **No operation outgrows the footprint** of the cells that are live before and after it. -/
theorem Fits.effect {op : Operation} (h : op.Effect machine after) (hs : machine.Sound)
    (hf : machine.Fits most) (hbefore : machine.live.ncard ≤ most)
    (hafter : after.live.ncard ≤ most) : after.Fits most := by
  cases h with
  | none => exact hf
  | rooted => exact ⟨hf.slotCount, hf.threshold, hf.limit, hf.numbered⟩
  | unrooted => exact ⟨hf.slotCount, hf.threshold, hf.limit, hf.numbered⟩
  | @filled pair first second =>
    have hslots : (machine.withLinks pair first second).heap.slotCount =
        machine.heap.slotCount := by
      rw [heap_withLinks, Heap.fill, Heap.slotCount_update]
    exact ⟨hslots ▸ hf.slotCount, hf.threshold, hslots ▸ hf.limit, hslots ▸ hf.numbered⟩
  | collected hcollects => exact hcollects.fits hf hbefore
  | denied _ hprep => exact hprep.fits hf hbefore
  | @granted _ mid after index _ _ _ _ hprep hroom hv hadds =>
    have hmid := hprep.fits hf hbefore
    have hsettings : after.settings = machine.settings :=
      hadds.settings.trans hprep.keeps.settings
    have hlive : machine.live.ncard < most := by
      have hgrown := hadds.ncard_live (hprep.sound hs) hv
      rw [hprep.keeps.live] at hgrown
      omega
    obtain ⟨refs, hrefs⟩ := (hprep.sound hs).heap.listed
    refine ⟨?_, ?_, fun limit hmax => ?_, ?_⟩
    · rw [hadds.slotCount, hadds.settings]
      refine max_le hmid.slotCount ?_
      rw [hprep.keeps.settings]
      exact hprep.count_lt_footprint hs hf hlive
    · rw [hadds.threshold, hadds.settings]
      exact hmid.threshold
    · rw [hadds.slotCount]
      exact max_le (hmid.limit limit (hadds.settings ▸ hmax))
        (hprep.count_lt hroom (hsettings ▸ hmax))
    · rw [hadds.slotCount]
      exact max_le hmid.numbered (hrefs.count_lt_maxSlots hv hmid.numbered)

theorem Sound.count_le_slotCount (h : machine.Sound) :
    machine.count ≤ machine.heap.slotCount := by
  obtain ⟨refs, hrefs⟩ := h.heap.listed
  rw [← hrefs.count_add_length_free]
  exact Nat.le_add_right _ _

/-- No more cells are live than slots can be numbered. -/
theorem Sound.ncard_live_le_maxSlots (h : machine.Sound)
    (hnumbered : machine.heap.slotCount ≤ Heap.maxSlots) : machine.live.ncard ≤ Heap.maxSlots :=
  h.ncard_live_le_count.trans (h.count_le_slotCount.trans hnumbered)

end Machine

variable {settings : Settings} {past : List Turn} {session : Session Machine}

/-- The most cells that were live in a state of a run, what it left included.  No state has
infinitely many (`Machine.Sound.finite_live`). -/
noncomputable def peak : List Turn → Session Machine → Nat
  | [], session => session.state.live.ncard
  | turn :: past, session => max session.state.live.ncard (peak past turn.session)

theorem live_le_peak (past : List Turn) (session : Session Machine) :
    session.state.live.ncard ≤ peak past session := by
  cases past with
  | nil => exact Nat.le_refl _
  | cons turn past => exact Nat.le_max_left _ _

theorem Trail.fits (h : Trail settings past session) :
    session.state.Fits (peak past session) := by
  induction h with
  | start hcreate =>
    obtain ⟨-, rfl⟩ := Machine.create_eq_ok_iff.1 hcreate
    exact Machine.fits_initial _ _
  | @step past session op htrail hop ih =>
    obtain ⟨hs, -⟩ := htrail.reached.sound
    have hgrows : peak past session ≤ peak (⟨session, op⟩ :: past) (op.act.after session) :=
      Nat.le_max_right _ _
    exact (ih.mono hgrows).effect (Operation.effect hs hop) hs
      ((live_le_peak past session).trans hgrows) (live_le_peak _ _)

/-- **The arena keeps to the footprint of the live cells at their peak**, and to the object
limit, in every state of every run: whatever was garbage on the way, the cells and the slots
are no more than that. -/
theorem Trail.within_footprint (h : Trail settings past session) :
    session.state.count ≤ session.state.heap.slotCount ∧
    session.state.heap.slotCount ≤ max (max settings.initialThreshold settings.minThreshold)
      (settings.growthFactor * peak past session) ∧
    ∀ limit, settings.maxObjects = some limit → session.state.heap.slotCount ≤ limit := by
  obtain ⟨hs, rfl⟩ := h.reached.sound
  exact ⟨hs.count_le_slotCount, h.fits.slotCount, h.fits.limit⟩

/-- Three scalars are pushed and the first is dropped, on a machine that collects whenever
it has a cell more than survived: two slots are taken, so two cells were live at once. -/
theorem peak_of_two_slots : ∃ past session,
    Trail { initialThreshold := 1, growthFactor := 1 } past session ∧
      session.state.heap.slotCount = 2 ∧ 2 ≤ peak past session := by
  have hcreate : Machine.create { initialThreshold := 1, growthFactor := 1 } =
      .ok (Machine.initial { initialThreshold := 1, growthFactor := 1 }) :=
    Machine.create_eq_ok_iff.2 ⟨by decide, rfl⟩
  have hone := (Trail.start hcreate).step (.pushScalar 1) trivial
  have hpop := hone.step .popRoot trivial
  have htwo := hpop.step (.pushScalar 2) trivial
  have hthree := htwo.step (.pushScalar 3) trivial
  obtain ⟨-, hfits, -⟩ := Trail.within_footprint hthree
  have hslots : (Operation.performAll [.pushScalar 1, .popRoot, .pushScalar 2, .pushScalar 3]
      ⟨Machine.initial { initialThreshold := 1, growthFactor := 1 }, [], ""⟩).state.heap.slotCount
      = 2 := by decide +kernel
  refine ⟨_, _, hthree, hslots, ?_⟩
  have hmost := hslots.ge.trans hfits
  simpa using hmost

end MarkSweep
