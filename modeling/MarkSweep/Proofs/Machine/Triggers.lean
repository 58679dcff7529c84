/-
# When a collection runs

A request for a cell collects first if there are as many cells as the threshold says, or as the
object limit allows.  Each has a check of its own, and the second knows whether the first has
just collected; what the two come to is one number, the lower of the two bounds
(`Machine.trigger`), and one collection at most (`Operation.triggers`).  No operation but a
request and an explicit collection runs one, and only a collection sets the threshold.

From this the distance between collections follows (`Reached.paced`).  Between two of them every
request that is made adds one cell, whatever else is done to the roots and the links in the
meantime, so what counts is how many cells are missing to the trigger (`Spares`).  A collection
may leave none missing; the request that started it is granted all the same, and the next one
collects again.
-/

import MarkSweep.Proofs.Machine.Footprint

namespace MarkSweep

/-- A threshold of 64 bits is enough for as many cells as 32 bits can number. -/
theorem Settings.le_thresholdAfter {settings : Settings} {live : Nat}
    (h : settings.rejected? = none) (hlive : live ≤ Heap.maxSlots) :
    live ≤ settings.thresholdAfter live := by
  have hfits : 1 * live ≤ UInt64.size - 1 := by
    rw [Nat.one_mul]
    exact hlive.trans (by decide)
  have hle := mul_le_thresholdAfter (one_le_growthFactor h) hfits
  rwa [Nat.one_mul] at hle

namespace Machine

variable {machine mid after : Machine} {freed : List Ref} {journal journal' : List Record}
  {output : String} {request : Action Machine Ref}

/-- The cells that make a request collect first: as many as the threshold says, or as the object
limit allows if that is less. -/
def trigger (machine : Machine) : Nat :=
  match machine.settings.maxObjects with
  | none => machine.threshold
  | some limit => min machine.threshold limit

theorem due_iff_trigger_le : machine.Due ↔ machine.trigger ≤ machine.count := by
  rw [trigger]
  cases hmax : machine.settings.maxObjects with
  | none => exact due_iff_of_none hmax
  | some limit =>
    rw [due_iff_of_some hmax]
    exact min_le_iff.symm

theorem trigger_congr (hsettings : after.settings = machine.settings)
    (hthreshold : after.threshold = machine.threshold) : after.trigger = machine.trigger := by
  rw [trigger, trigger, hsettings, hthreshold]

/-- One collection ran, and the threshold is what it made of the cells that it left. -/
structure Resets (before : Session Machine) (stats : Collection) (after : Machine) : Prop where
  ran : ∃ mid, collect before = .ok stats mid ∧ mid.state.count = stats.remaining
  collections : after.totals.collections = before.state.totals.collections + 1
  threshold : after.threshold =
    max (min (stats.remaining * before.state.settings.growthFactor) (UInt64.size - 1))
      before.state.settings.minThreshold
  enough : max stats.remaining 1 ≤ after.threshold

/-- What a collection sets stays until the end of the operation that it runs in. -/
theorem Collects.resets (h : machine.Collects freed mid) (hs : machine.Sound)
    (hnumbered : machine.heap.slotCount ≤ Heap.maxSlots)
    (hcollect : collect ⟨machine, journal, output⟩ =
      .ok ⟨machine.live.ncard, freed.length, machine.live.ncard, mid.threshold⟩
        ⟨mid, journal', output⟩)
    (hthreshold : after.threshold = mid.threshold)
    (hcollections : after.totals.collections = mid.totals.collections) :
    ∃ stats, Resets ⟨machine, journal, output⟩ stats after := by
  have hlive := hs.ncard_live_le_maxSlots hnumbered
  refine ⟨_, ⟨_, hcollect, h.count⟩, ?_, hthreshold.trans h.threshold, ?_⟩
  · rw [hcollections, h.totals]
  · rw [hthreshold, h.threshold]
    exact max_le (Settings.le_thresholdAfter hs.accepted hlive)
      (Settings.one_le_thresholdAfter hs.accepted _)

/-- After a collection the trigger is reached at most. -/
theorem Collects.count_le_trigger (h : machine.Collects freed after) (hs : machine.Sound)
    (hnumbered : machine.heap.slotCount ≤ Heap.maxSlots) : after.count ≤ after.trigger := by
  have hthreshold : after.count ≤ after.threshold := by
    rw [h.threshold, h.count]
    exact Settings.le_thresholdAfter hs.accepted (hs.ncard_live_le_maxSlots hnumbered)
  rw [trigger]
  cases hmax : after.settings.maxObjects with
  | none => exact hthreshold
  | some limit => exact le_min hthreshold ((h.sound hs).limit limit hmax)

/-- The ways in which a request ends: it is refused, which takes a collection, or there is no
slot, or it adds a cell. -/
theorem Asks.cases (h : machine.Asks request) (hs : machine.Sound) (journal : List Record)
    (output : String) :
    ∃ mid journal', machine.Prepares journal output mid journal' ∧
      ((machine.Due ∧ ∃ limit journal'', request ⟨machine, journal, output⟩ =
          .error (.heapExhausted limit limit) ⟨mid, journal'', output⟩) ∨
        request ⟨machine, journal, output⟩ = .error .outOfMemory ⟨mid, journal', output⟩ ∨
        ∃ index after journal'', mid.Adds index after ∧ request ⟨machine, journal, output⟩ =
          .ok (mid.heap.handle index) ⟨after, journal'', output⟩) := by
  obtain ⟨kind, finish, hserves, hadds⟩ := h.serves hs journal output
  cases hserves with
  | @refused after journal' limit hprep hdue _ _ hrequest =>
    exact ⟨after, journal', hprep, Or.inl ⟨hdue, limit, _, hrequest⟩⟩
  | @unplaced after journal' hprep _ _ hrequest =>
    exact ⟨after, journal', hprep, Or.inr (Or.inl hrequest)⟩
  | @granted mid journal' index hprep _ hv hrequest =>
    exact ⟨mid, journal', hprep, Or.inr (Or.inr ⟨index, _, _,
      hadds mid index (hprep.sound hs) hprep.keeps.roots hv, hrequest⟩)⟩

/-- Nothing changed that decides about collections. -/
structure Idles (before after : Machine) : Prop where
  settings : after.settings = before.settings
  threshold : after.threshold = before.threshold
  totals : after.totals = before.totals
  count : after.count = before.count

end Machine

namespace Operation

open Machine

variable {machine after : Machine} {op : Operation} {session : Session Machine}

/-- The operation is a request for a cell, and its demand on the root stack is met. -/
def Admitted (machine : Machine) : Operation → Prop
  | .pushScalar _ => machine.roots.isFull = false
  | .makePair => 2 ≤ machine.depth
  | _ => False

/-- The operation is an explicit collection, or a request for a cell that finds the trigger
reached. -/
def Collecting (machine : Machine) (op : Operation) : Prop :=
  op = .collect ∨ (op.Admitted machine ∧ machine.trigger ≤ machine.count)

theorem Admitted.exists_asks (h : op.Admitted machine) :
    ∃ request, machine.Asks request ∧ op.act = (fun _ => ()) <$> request := by
  cases op with
  | pushScalar value => exact ⟨_, .pushScalar value h, rfl⟩
  | makePair => exact ⟨_, .makePair h, rfl⟩
  | _ => exact h.elim

theorem Admitted.resolves (h : op.Admitted machine) : op.Resolves machine := by
  cases op with
  | setPair => exact h.elim
  | _ => trivial

/-- A request whose demand on the root stack is not met changes nothing. -/
theorem after_eq_of_not_admitted (h : op.Allocates) (hadmitted : ¬ op.Admitted session.state) :
    op.act.after session = session := by
  obtain ⟨machine, journal, output⟩ := session
  cases op with
  | pushScalar value =>
    rw [act, Action.after_map]
    exact Action.after_of_error
      (pushScalar_of_isFull (Bool.of_not_eq_false hadmitted) value journal output)
  | makePair =>
    rw [act, Action.after_map]
    exact Action.after_of_error
      (makePair_of_depth_lt (Nat.not_le.1 hadmitted) journal output)
  | _ => exact h.elim

theorem Effect.idles (h : op.Effect machine after) (hallocates : ¬ op.Allocates)
    (hcollect : op ≠ .collect) : machine.Idles after := by
  cases h with
  | none => exact ⟨rfl, rfl, rfl, rfl⟩
  | rooted => exact ⟨rfl, rfl, rfl, rfl⟩
  | unrooted => exact ⟨rfl, rfl, rfl, rfl⟩
  | filled => exact ⟨rfl, rfl, rfl, rfl⟩
  | collected => exact absurd rfl hcollect
  | denied hrequest => exact absurd hrequest hallocates
  | granted hrequest => exact absurd hrequest hallocates

/-- Nothing but a request and an explicit collection has a say in when to collect. -/
theorem idles (hs : session.state.Sound) (hresolves : op.Resolves session.state)
    (hadmitted : ¬ op.Admitted session.state) (hcollect : op ≠ .collect) :
    session.state.Idles (op.act.after session).state := by
  by_cases hallocates : op.Allocates
  · rw [after_eq_of_not_admitted hallocates hadmitted]
    exact ⟨rfl, rfl, rfl, rfl⟩
  · exact (effect hs hresolves).idles hallocates hcollect

/-- Whether an operation collects. -/
structure Triggers (op : Operation) (session : Session Machine) : Prop where
  /-- It collects once, and the threshold is what the collection sets it to. -/
  once : op.Collecting session.state → ∃ stats, Resets session stats (op.act.after session).state
  /-- Or it does not collect, and leaves the threshold alone. -/
  never : ¬ op.Collecting session.state →
    (op.act.after session).state.totals.collections = session.state.totals.collections ∧
      (op.act.after session).state.threshold = session.state.threshold

/-- However a request ends, it leaves the threshold and the number of collections as it found
them when it had made room. -/
theorem Admitted.prepares (h : op.Admitted session.state) (hs : session.state.Sound) :
    ∃ mid journal', session.state.Prepares session.journal session.output mid journal' ∧
      (op.act.after session).state.threshold = mid.threshold ∧
      (op.act.after session).state.totals.collections = mid.totals.collections := by
  obtain ⟨machine, journal, output⟩ := session
  obtain ⟨request, hasks, hact⟩ := h.exists_asks
  obtain ⟨mid, journal', hprep, ⟨-, limit, journal'', hrequest⟩ | hrequest |
    ⟨index, after, journal'', hadds, hrequest⟩⟩ := hasks.cases hs journal output
  all_goals
    refine ⟨mid, journal', hprep, ?_⟩
    rw [hact, Action.after_map]
  · rw [Action.after_of_error hrequest]
    exact ⟨rfl, rfl⟩
  · rw [Action.after_of_error hrequest]
    exact ⟨rfl, rfl⟩
  · have hbooks : after.totals.collections = _ := congrArg Totals.collections hadds.totals
    rw [Action.after_of_ok hrequest]
    exact ⟨hadds.threshold, hbooks⟩

theorem Admitted.collecting_iff (h : op.Admitted machine) :
    op.Collecting machine ↔ machine.Due := by
  rw [due_iff_trigger_le]
  constructor
  · rintro (rfl | ⟨-, hdue⟩)
    · exact h.elim
    · exact hdue
  · exact fun hdue => Or.inr ⟨h, hdue⟩

/-- A request that finds a collection due runs one, whether it is granted or not. -/
theorem Admitted.collections (h : op.Admitted session.state) (hs : session.state.Sound)
    (hdue : session.state.Due) : (op.act.after session).state.totals.collections =
      session.state.totals.collections + 1 := by
  obtain ⟨mid, journal', hprep, -, hcollections⟩ := h.prepares hs
  rw [hcollections]
  cases hprep with
  | spare hspare => exact absurd hdue hspare
  | collected _ hcollects => rw [hcollects.totals]

theorem Admitted.triggers (h : op.Admitted session.state) (hs : session.state.Sound)
    (hnumbered : session.state.heap.slotCount ≤ Heap.maxSlots) : op.Triggers session := by
  obtain ⟨mid, journal', hprep, hthreshold, hcollections⟩ := h.prepares hs
  cases hprep with
  | spare hdue =>
    exact ⟨fun hcollecting => absurd (h.collecting_iff.1 hcollecting) hdue,
      fun _ => ⟨hcollections, hthreshold⟩⟩
  | collected hdue hcollects hcollect =>
    exact ⟨fun _ => hcollects.resets hs hnumbered hcollect hthreshold hcollections,
      fun hcollecting => absurd (h.collecting_iff.2 hdue) hcollecting⟩

/-- **An operation collects exactly when it is to**, once, whether it succeeds or fails. -/
theorem triggers (hs : session.state.Sound)
    (hnumbered : session.state.heap.slotCount ≤ Heap.maxSlots)
    (hresolves : op.Resolves session.state) : op.Triggers session := by
  by_cases hadmitted : op.Admitted session.state
  · exact hadmitted.triggers hs hnumbered
  · by_cases hcollect : op = .collect
    · subst hcollect
      obtain ⟨machine, journal, output⟩ := session
      obtain ⟨freed, after, hcollects, hrun⟩ := collect_eq_ok hs journal output
      have hafter : collect.act.after ⟨machine, journal, output⟩ = _ :=
        (Action.after_map _ _ _).trans (Action.after_of_ok hrun)
      refine ⟨fun _ => ?_, fun h => absurd (Or.inl rfl) h⟩
      rw [hafter]
      exact hcollects.resets hs hnumbered hrun rfl rfl
    · have hidles := idles hs hresolves hadmitted hcollect
      refine ⟨fun h => absurd h ?_, fun _ => ⟨congrArg Totals.collections hidles.totals,
        hidles.threshold⟩⟩
      rintro (h | ⟨h, -⟩)
      · exact hcollect h
      · exact hadmitted h

/-- Whatever an operation comes to, it leaves a sound machine. -/
theorem sound_after (hs : session.state.Sound) (hresolves : op.Resolves session.state) :
    (op.act.after session).state.Sound := by
  rcases hresolves.legal_or_unchanged with hlegal | hsame
  · exact (endsWell hs hlegal).sound
  · rwa [hsame]

/-- A request that finds the trigger not reached adds one cell, as long as there is a slot. -/
theorem granted_of_lt_trigger (hs : session.state.Sound) (hadmitted : op.Admitted session.state)
    (hroom : session.state.count < session.state.trigger)
    (hplaced : op.act.failure? session ≠ some .outOfMemory) :
    ∃ index, session.state.Adds index (op.act.after session).state := by
  obtain ⟨machine, journal, output⟩ := session
  obtain ⟨request, hasks, hact⟩ := hadmitted.exists_asks
  have hdue : ¬ machine.Due := fun h => Nat.not_le.2 hroom (due_iff_trigger_le.1 h)
  obtain ⟨mid, journal', hprep, ⟨hdue', -⟩ | hrequest | ⟨index, after, journal'', hadds,
    hrequest⟩⟩ := hasks.cases hs journal output
  · exact absurd hdue' hdue
  · exact absurd (hact ▸ Action.failure?_of_error (Action.map_of_error hrequest _)) hplaced
  · cases hprep with
    | spare =>
      rw [hact, Action.after_map, Action.after_of_ok hrequest]
      exact ⟨index, hadds⟩
    | collected hdue' => exact absurd hdue' hdue

end Operation

/-! ### The distance between collections -/

open Machine

/-- A part of a run without an explicit collection, in which no request goes without a slot.  The
number counts the requests whose demand on the root stack is met; any other operation may be
asked for in between. -/
inductive Stretch (first : Session Machine) : Nat → Session Machine → Prop where
  | start : Stretch first 0 first
  | request {n : Nat} {session : Session Machine} (op : Operation) : Stretch first n session →
      op.Admitted session.state → op.act.failure? session ≠ some .outOfMemory →
      Stretch first (n + 1) (op.act.after session)
  | aside {n : Nat} {session : Session Machine} (op : Operation) : Stretch first n session →
      ¬ op.Admitted session.state → op ≠ .collect → op.Resolves session.state →
      Stretch first n (op.act.after session)

/-- The next requests, as many as the gap says, are granted without a collection, and the one
after them collects. -/
structure Spares (first : Session Machine) (gap : Nat) : Prop where
  spared : ∀ n last, Stretch first n last → n ≤ gap →
    last.state.totals.collections = first.state.totals.collections ∧
      last.state.totals.allocated = first.state.totals.allocated + n
  next : ∀ last, Stretch first gap last → ∀ op : Operation, op.Admitted last.state →
    (op.act.after last).state.totals.collections = first.state.totals.collections + 1

/-- Where a stretch has come to that has not used up the cells missing to the trigger. -/
structure Advances (first : Machine) (n : Nat) (last : Machine) : Prop where
  sound : last.Sound
  trigger : last.trigger = first.trigger
  count : last.count = first.count + n
  collections : last.totals.collections = first.totals.collections
  allocated : last.totals.allocated = first.totals.allocated + n

section Stretch

variable {first last session : Session Machine} {n : Nat}

theorem Advances.request {op : Operation} (h : Advances first.state n session.state)
    (hadmitted : op.Admitted session.state)
    (hplaced : op.act.failure? session ≠ some .outOfMemory)
    (hroom : first.state.count + n < first.state.trigger) :
    Advances first.state (n + 1) (op.act.after session).state := by
  have hlt : session.state.count < session.state.trigger := by
    rwa [h.count, h.trigger]
  obtain ⟨index, hadds⟩ := Operation.granted_of_lt_trigger h.sound hadmitted hlt hplaced
  refine ⟨Operation.sound_after h.sound hadmitted.resolves, ?_, ?_, ?_, ?_⟩
  · rw [trigger_congr hadds.settings hadds.threshold, h.trigger]
  · rw [hadds.count, h.count, Nat.add_assoc]
  · rw [hadds.totals]
    exact h.collections
  · rw [hadds.totals]
    exact congrArg (· + 1) h.allocated

theorem Advances.aside {op : Operation} (h : Advances first.state n session.state)
    (hadmitted : ¬ op.Admitted session.state) (hcollect : op ≠ .collect)
    (hresolves : op.Resolves session.state) :
    Advances first.state n (op.act.after session).state := by
  have hidles := Operation.idles h.sound hresolves hadmitted hcollect
  refine ⟨Operation.sound_after h.sound hresolves, ?_, hidles.count.trans h.count, ?_, ?_⟩
  · rw [trigger_congr hidles.settings hidles.threshold, h.trigger]
  · rw [hidles.totals, h.collections]
  · rw [hidles.totals, h.allocated]

/-- **Every request of a stretch brings the trigger nearer by one cell**, as long as cells are
missing to it. -/
theorem Stretch.advances (h : Stretch first n last) (hs : first.state.Sound)
    (hn : n ≤ first.state.trigger - first.state.count) :
    Advances first.state n last.state := by
  induction h with
  | start => exact ⟨hs, rfl, rfl, rfl, rfl⟩
  | request op _ hadmitted hplaced ih =>
    exact (ih (Nat.le_of_succ_le hn)).request hadmitted hplaced (by omega)
  | aside op _ hadmitted hcollect hresolves ih =>
    exact (ih hn).aside hadmitted hcollect hresolves

/-- What is missing to the trigger is what a machine has to spare. -/
theorem spares_of_sound (hs : first.state.Sound) :
    Spares first (first.state.trigger - first.state.count) where
  spared n last h hn := by
    have hadvances := h.advances hs hn
    exact ⟨hadvances.collections, hadvances.allocated⟩
  next last h op hadmitted := by
    have hadvances := h.advances hs (Nat.le_refl _)
    have hdue : last.state.trigger ≤ last.state.count := by
      rw [hadvances.trigger, hadvances.count]
      omega
    rw [hadmitted.collections hadvances.sound (due_iff_trigger_le.2 hdue),
      hadvances.collections]

end Stretch

/-- How a machine paces its collections from here on. -/
structure Paced (session : Session Machine) : Prop where
  /-- Whether the next operation collects, and what becomes of the threshold. -/
  triggers : ∀ op : Operation, op.Resolves session.state → op.Triggers session
  /-- After an explicit collection as many requests are spared as cells are missing to the
  trigger. -/
  after_collect : ∀ stats after, collect session = .ok stats after →
    stats.remaining ≤ after.state.trigger ∧
      Spares after (after.state.trigger - stats.remaining)
  /-- After a collection in a request that is granted it is as many, but that request is one of
  them even if none are missing. -/
  after_request : ∀ (op : Operation) after, op.Admitted session.state →
    session.state.trigger ≤ session.state.count → op.act session = .ok () after →
      ∃ stats mid gap, collect session = .ok stats mid ∧
        gap + 1 = max 1 (after.state.trigger - stats.remaining) ∧ Spares after gap

variable {settings : Settings} {session : Session Machine}

theorem spares_after_collect (hs : session.state.Sound)
    (hnumbered : session.state.heap.slotCount ≤ Heap.maxSlots) {stats : Collection}
    {after : Session Machine} (h : collect session = .ok stats after) :
    stats.remaining ≤ after.state.trigger ∧
      Spares after (after.state.trigger - stats.remaining) := by
  obtain ⟨machine, journal, output⟩ := session
  obtain ⟨freed, mid, hcollects, hrun⟩ := collect_eq_ok hs journal output
  obtain ⟨rfl, rfl⟩ := EStateM.Result.ok.inj (h.symm.trans hrun)
  show machine.live.ncard ≤ mid.trigger ∧ Spares _ (mid.trigger - machine.live.ncard)
  rw [← hcollects.count]
  exact ⟨hcollects.count_le_trigger hs hnumbered, spares_of_sound (hcollects.sound hs)⟩

/-- The request that started a collection took the first of the cells that were missing, or took
one more than that. -/
theorem spares_after_request (hs : session.state.Sound) {op : Operation}
    {after : Session Machine} (hadmitted : op.Admitted session.state)
    (hdue : session.state.Due) (h : op.act session = .ok () after) :
    ∃ stats mid gap, collect session = .ok stats mid ∧
      gap + 1 = max 1 (after.state.trigger - stats.remaining) ∧ Spares after gap := by
  have hsound := Operation.sound_after hs hadmitted.resolves
  rw [Action.after_of_ok h] at hsound
  obtain ⟨machine, journal, output⟩ := session
  obtain ⟨request, hasks, hact⟩ := hadmitted.exists_asks
  obtain ⟨mid, journal', hprep, hends⟩ := hasks.cases hs journal output
  -- of the ways to end only the grant leaves a result
  have hgranted : ∃ index, mid.Adds index after.state := by
    rcases hends with ⟨-, limit, journal'', hrequest⟩ | hrequest |
      ⟨index, last, journal'', hadds, hrequest⟩
    all_goals
      rw [hact, Action.map_apply, hrequest] at h
      cases h
    exact ⟨index, hadds⟩
  obtain ⟨index, hadds⟩ := hgranted
  cases hprep with
  | spare hspare => exact absurd hdue hspare
  | collected _ hcollects hcollect =>
    refine ⟨_, _, _, hcollect, ?_, spares_of_sound hsound⟩
    have hcount : mid.count = machine.live.ncard := hcollects.count
    show after.state.trigger - after.state.count + 1 =
      max 1 (after.state.trigger - machine.live.ncard)
    rw [hadds.count, hcount]
    omega

/-- **When a machine collects**, at any point of any run.  A request whose demand on the root
stack is met collects once if it finds the threshold or the object limit reached, and not
otherwise; no other operation does but an explicit collection; and a collection alone sets the
threshold, to no less than the cells that it leaves.  So after a collection the machine grants as
many requests without another as cells are missing to the lower of the two bounds. -/
theorem Reached.paced (h : Reached settings session) : Paced session := by
  obtain ⟨past, htrail⟩ := h.exists_trail
  obtain ⟨hs, -⟩ := h.sound
  have hnumbered := htrail.fits.numbered
  exact ⟨fun op hresolves => Operation.triggers hs hnumbered hresolves,
    fun stats after hrun => spares_after_collect hs hnumbered hrun,
    fun op after hadmitted hdue hrun =>
      spares_after_request hs hadmitted (due_iff_trigger_le.2 hdue) hrun⟩

/-- A machine with as many cells as make it collect. -/
def brimming : Session Machine :=
  Operation.performAll [.pushScalar 1, .pushScalar 2]
    ⟨initial { initialThreshold := 2, maxObjects := some 4 }, [], ""⟩

/-- The third scalar starts a collection.  It leaves two cells and a threshold of four, so the
fourth scalar is granted without another, and the fifth is not. -/
theorem brimming_paced : ∃ stats after, Resets brimming stats after.state ∧
    (Operation.pushScalar 3).act brimming = .ok () after ∧ Spares after 1 := by
  have hpaced : Paced brimming :=
    Reached.paced (reached_performAll (by decide) ⟨trivial, trivial, trivial⟩)
  have hadmitted : (Operation.pushScalar 3).Admitted brimming.state := by
    show brimming.state.roots.isFull = false
    decide +kernel
  have hdue : brimming.state.trigger ≤ brimming.state.count := by decide +kernel
  have hok : (Operation.pushScalar 3).act.failure? brimming = none := by decide +kernel
  have hafter : ((Operation.pushScalar 3).act.after brimming).state.trigger = 4 := by
    decide +kernel
  have hleft : (match collect brimming with
      | .ok stats _ => stats.remaining
      | .error _ _ => 0) = 2 := by decide +kernel
  obtain ⟨stats, hresets⟩ := (hpaced.triggers (.pushScalar 3) trivial).once
    (Or.inr ⟨hadmitted, hdue⟩)
  obtain ⟨⟨⟩, after, hrun⟩ := Action.failure?_eq_none_iff.1 hok
  rw [Action.after_of_ok hrun] at hafter hresets
  obtain ⟨stats', mid, gap, hcollect, hgap, hspares⟩ :=
    hpaced.after_request _ after hadmitted hdue hrun
  rw [hcollect] at hleft
  rw [hafter, show stats'.remaining = 2 from hleft] at hgap
  obtain rfl : gap = 1 := by omega
  exact ⟨stats, after, hresets, hrun, hspares⟩

end MarkSweep
