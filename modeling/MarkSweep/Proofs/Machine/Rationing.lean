/-
# Programs under an object limit

A program that is known in full can be told in advance whether an object limit stops it: it
goes through exactly if the limit allows as many live cells as the program has at its worst
moment.  `Rationed` lists how such a program can end, and `Rationed.bind` puts two of them
together, so that the worst moment of a program is found request by request.

What a program knows of its machine while it runs is in `Machine.Shows`: the roots, the live
cells with what they hold, and how many cells were made so far.  Garbage and the threshold are
not in it.  Every operation takes one such picture to the next (`Shows.pushScalar`,
`Shows.makePair`, `Shows.popRoot`), and a collection changes nothing in it (`Shows.collect`).

The books of the machine are part of the picture.  They bound the slots by the cells that were
made, so that a program which makes few of them cannot run out of slots.
-/

import MarkSweep.Proofs.Machine.Effects

namespace MarkSweep

/-- What running an action comes to. -/
abbrev Ending (σ α : Type) : Type :=
  EStateM.Result Failure (Session σ) α

/-- There may be so many live cells at once. -/
def Allows (limit? : Option Nat) (most : Nat) : Prop :=
  ∀ limit ∈ limit?, most ≤ limit

theorem Allows.mono {limit? : Option Nat} {most most' : Nat} (h : Allows limit? most')
    (hle : most ≤ most') : Allows limit? most := fun limit hlimit => hle.trans (h limit hlimit)

theorem allows_some_iff {limit most : Nat} : Allows (some limit) most ↔ most ≤ limit := by
  simp [Allows]

section Rationing

variable {σ α β : Type}

/-- The action succeeds, and its answer and what it leaves are as they should be. -/
def Answers (good : α → Session σ → Prop) : Ending σ α → Prop
  | .ok a session => good a session
  | .error _ _ => False

/-- The action breaks off for this cause. -/
def Breaks (cause : Fault) : Ending σ α → Prop
  | .ok _ _ => False
  | .error failure _ => failure = .fault cause

/-- The ways in which an action ends that has up to `most` live cells at once, when `total`
cells were made by the end of it: it comes to its goal if so many are allowed, it is refused
one of them if not, or the arena is full. -/
inductive Rationed (limit? : Option Nat) (most total : Nat) (goal : Ending σ α → Prop) :
    Ending σ α → Prop where
  | settled {ending : Ending σ α} :
      Allows limit? most → goal ending → Rationed limit? most total goal ending
  | refused {limit : Nat} {session : Session σ} : limit ∈ limit? → limit < most →
      Rationed limit? most total goal (.error (.heapExhausted limit limit) session)
  | unplaced {session : Session σ} : Heap.maxSlots < total →
      Rationed limit? most total goal (.error .outOfMemory session)

variable {limit? : Option Nat} {most most' total total' : Nat} {good : α → Session σ → Prop}
  {goal : Ending σ α → Prop}

theorem Answers.exists_eq {ending : Ending σ α} (h : Answers good ending) :
    ∃ a session, ending = .ok a session ∧ good a session := by
  cases ending with
  | ok a session => exact ⟨a, session, rfl, h⟩
  | error => exact h.elim

theorem Answers.imp {good' : α → Session σ → Prop} {ending : Ending σ α} (h : Answers good ending)
    (himp : ∀ a after, good a after → good' a after) : Answers good' ending := by
  obtain ⟨a, session, rfl, ha⟩ := h.exists_eq
  exact himp a session ha

theorem Rationed.imp {goal' : Ending σ α → Prop} {ending : Ending σ α}
    (h : Rationed limit? most total goal ending) (himp : goal ending → goal' ending) :
    Rationed limit? most total goal' ending := by
  cases h with
  | settled hallows hsettled => exact .settled hallows (himp hsettled)
  | refused hlimit hlt => exact .refused hlimit hlt
  | unplaced hfull => exact .unplaced hfull

theorem Rationed.mono {ending : Ending σ α} (h : Rationed limit? most total goal ending)
    (hmost : most ≤ most') (htotal : total ≤ total') (hallows : Allows limit? most') :
    Rationed limit? most' total' goal ending := by
  cases h with
  | settled _ hsettled => exact .settled hallows hsettled
  | refused hlimit hlt => exact .refused hlimit (hlt.trans_le hmost)
  | unplaced hfull => exact .unplaced (hfull.trans_le htotal)

/-- **Two actions in a row.**  The second is told what the first one came to, and that so many
live cells as the first one needs are allowed. -/
theorem Rationed.bind {act : Action σ α} {next : α → Action σ β} {goal : Ending σ β → Prop}
    {session : Session σ} (h : Rationed limit? most total (Answers good) (act session))
    (hmost : most ≤ most') (htotal : total ≤ total')
    (hnext : ∀ a after, Allows limit? most → good a after →
      Rationed limit? most' total' goal (next a after)) :
    Rationed limit? most' total' goal ((act >>= next) session) := by
  rw [Action.bind_apply]
  generalize act session = ending at h
  cases h with
  | settled hallows hgood =>
    obtain ⟨a, after, rfl, ha⟩ := hgood.exists_eq
    exact hnext a after hallows ha
  | refused hlimit hlt => exact .refused hlimit (hlt.trans_le hmost)
  | unplaced hfull => exact .unplaced (hfull.trans_le htotal)

/-- What comes after a break is not reached. -/
theorem Rationed.breaks {act : Action σ α} {cause : Fault} {session : Session σ}
    (h : Rationed limit? most total (Breaks cause) (act session)) (next : α → Action σ β) :
    Rationed limit? most total (Breaks cause) ((act >>= next) session) := by
  rw [Action.bind_apply]
  generalize act session = ending at h
  cases h with
  | @settled ending hallows hbreaks =>
    cases ending with
    | ok => exact hbreaks.elim
    | error failure after => exact .settled hallows hbreaks
  | refused hlimit hlt => exact .refused hlimit hlt
  | unplaced hfull => exact .unplaced hfull

/-- An action that makes no cells and succeeds. -/
theorem rationed_of_ok {ending : Ending σ α} {a : α} {after : Session σ}
    (h : ending = .ok a after) (hgood : good a after) :
    Rationed limit? 0 total (Answers good) ending := by
  subst h
  exact .settled (fun _ _ => Nat.zero_le _) hgood

/-! ### What is known in advance -/

/-- The failure for want of one of so many live cells. -/
def shortage? (limit? : Option Nat) (most : Nat) : Option Failure :=
  (limit?.filter (· < most)).map fun limit => .heapExhausted limit limit

theorem shortage?_of_lt {limit : Nat} (hlimit : limit ∈ limit?) (hlt : limit < most) :
    shortage? limit? most = some (.heapExhausted limit limit) := by
  obtain rfl : limit? = some limit := hlimit
  simp [shortage?, hlt]

theorem shortage?_cases (limit? : Option Nat) (most : Nat) :
    (Allows limit? most ∧ shortage? limit? most = none) ∨
      ∃ limit ∈ limit?, limit < most ∧
        shortage? limit? most = some (.heapExhausted limit limit) := by
  by_cases hallows : Allows limit? most
  · refine Or.inl ⟨hallows, ?_⟩
    rw [shortage?, Option.map_eq_none_iff, Option.filter_eq_none_iff]
    intro limit hlimit hlt
    exact absurd (of_decide_eq_true hlt) (Nat.not_lt.2 (hallows limit hlimit))
  · simp only [Allows, not_forall, Nat.not_le] at hallows
    obtain ⟨limit, hlimit, hlt⟩ := hallows
    exact Or.inr ⟨limit, hlimit, hlt, shortage?_of_lt hlimit hlt⟩

theorem shortage?_eq_none_iff : shortage? limit? most = none ↔ Allows limit? most := by
  rcases shortage?_cases limit? most with ⟨hallows, hnone⟩ | ⟨limit, hlimit, hlt, hsome⟩
  · exact iff_of_true hnone hallows
  · refine iff_of_false (fun hnone => ?_) fun hallows => Nat.not_le.2 hlt (hallows limit hlimit)
    rw [hsome] at hnone
    cases hnone

/-- An action that succeeds does what it should. -/
theorem Rationed.good_of_ok {a : α} {after : Session σ}
    (h : Rationed limit? most total (Answers good) (.ok a after)) : good a after := by
  cases h with
  | settled _ hgood => exact hgood

theorem Rationed.exists_ok {act : Action σ α} {session : Session σ}
    (h : Rationed limit? most total (Answers good) (act session))
    (hnone : act.failure? session = none) :
    ∃ a after, act session = .ok a after ∧ good a after := by
  obtain ⟨a, after, hok⟩ := Action.failure?_eq_none_iff.1 hnone
  rw [hok] at h
  exact ⟨a, after, hok, h.good_of_ok⟩

/-- Where the arena has a slot for each cell, the limit alone decides whether an action that
should succeed fails. -/
theorem Rationed.failure?_eq {act : Action σ α} {session : Session σ}
    (h : Rationed limit? most total (Answers good) (act session))
    (hspace : act.failure? session ≠ some .outOfMemory) :
    act.failure? session = shortage? limit? most := by
  rw [Action.failure?] at hspace ⊢
  generalize act session = ending at h hspace ⊢
  cases h with
  | settled hallows hgood =>
    obtain ⟨a, after, rfl, -⟩ := hgood.exists_eq
    exact (shortage?_eq_none_iff.2 hallows).symm
  | refused hlimit hlt => exact (shortage?_of_lt hlimit hlt).symm
  | unplaced => exact absurd rfl hspace

/-- And what an action fails with that should break off. -/
theorem Rationed.failure?_eq_of_breaks {act : Action σ α} {cause : Fault} {session : Session σ}
    (h : Rationed limit? most total (Breaks cause) (act session))
    (hspace : act.failure? session ≠ some .outOfMemory) :
    act.failure? session = some ((shortage? limit? most).getD (.fault cause)) := by
  rw [Action.failure?] at hspace ⊢
  generalize act session = ending at h hspace ⊢
  cases h with
  | @settled ending hallows hbreaks =>
    cases ending with
    | ok => exact hbreaks.elim
    | error failure after =>
      obtain rfl : failure = .fault cause := hbreaks
      rw [shortage?_eq_none_iff.2 hallows]
      rfl
  | refused hlimit hlt =>
    rw [shortage?_of_lt hlimit hlt]
    rfl
  | unplaced => exact absurd rfl hspace

/-- Few cells find space. -/
theorem Rationed.has_space {act : Action σ α} {session : Session σ}
    (h : Rationed limit? most total goal (act session))
    (hgoal : ∀ after, ¬ goal (.error .outOfMemory after)) (htotal : total ≤ Heap.maxSlots) :
    act.failure? session ≠ some .outOfMemory := by
  intro hfull
  obtain ⟨after, herror⟩ := Action.failure?_eq_some_iff.1 hfull
  rw [herror] at h
  cases h with
  | settled _ hsettled => exact hgoal _ hsettled
  | unplaced hlt => omega

theorem not_answers_error {failure : Failure} {session : Session σ} :
    ¬ Answers good (.error failure session) := fun h => h

theorem not_breaks_outOfMemory {cause : Fault} {session : Session σ} :
    ¬ Breaks cause (.error .outOfMemory session : Ending σ α) := fun h => by cases h

end Rationing

namespace Machine

variable {settings : Settings} {roots rest : List Ref} {cells : List (Ref × Payload)}
  {made : Nat} {machine mid before after : Machine} {freed : List Ref} {index : Nat}
  {payload : Payload} {journal journal' : List Record} {output : String}
  {session : Session Machine}

/-- Every cell that was made is there or was freed, and no slot was taken without need. -/
structure Balanced (machine : Machine) : Prop where
  allocated : machine.totals.allocated = machine.totals.collected + machine.count
  slotCount : machine.heap.slotCount ≤ machine.totals.allocated

/-- What a program knows of a machine: the settings, the roots, the live cells in some order,
each with what it holds, and how many cells were made. -/
structure Shows (settings : Settings) (roots : List Ref) (cells : List (Ref × Payload))
    (made : Nat) (machine : Machine) : Prop where
  sound : machine.Sound
  balanced : machine.Balanced
  settings : machine.settings = settings
  roots : machine.roots.toList = roots
  nodup : (cells.map Prod.fst).Nodup
  live : ∀ r, r ∈ machine.live ↔ r ∈ cells.map Prod.fst
  payload : ∀ cell ∈ cells, machine.heap.payload? cell.1 = some cell.2
  made : machine.totals.allocated = made

/-! ### The picture -/

theorem shows_initial (h : settings.rejected? = none) :
    (initial settings).Shows settings [] [] 0 where
  sound := sound_initial h
  balanced := ⟨rfl, Nat.le_refl 0⟩
  settings := rfl
  roots := rfl
  nodup := List.nodup_nil
  live r := by
    rw [live_eq_empty rfl]
    exact iff_of_false (Set.notMem_empty r) List.not_mem_nil
  payload cell hm := absurd hm List.not_mem_nil
  made := rfl

theorem Shows.ncard_live (h : machine.Shows settings roots cells made) :
    machine.live.ncard = cells.length := by
  rw [ncard_eq_length h.nodup fun r => (h.live r).symm, List.length_map]

/-- The cells of a picture are allowed. -/
theorem Shows.allows (h : machine.Shows settings roots cells made) :
    Allows settings.maxObjects cells.length := by
  intro limit hlimit
  have hcount := h.sound.limit limit (h.settings ▸ hlimit)
  rw [← h.ncard_live]
  exact h.sound.ncard_live_le_count.trans hcount

theorem Shows.isFull_iff (h : machine.Shows settings roots cells made) :
    machine.roots.isFull = true ↔ settings.stackCapacity ≤ roots.length := by
  have hdepth : machine.roots.depth = roots.length := by
    rw [← h.roots]
    exact machine.depth_eq
  rw [RootStack.isFull, decide_eq_true_iff, h.sound.capacity, h.settings, hdepth]

theorem Shows.isFull_eq_false (h : machine.Shows settings roots cells made)
    (hroom : roots.length < settings.stackCapacity) : machine.roots.isFull = false := by
  rw [Bool.eq_false_iff, ne_eq, h.isFull_iff]
  omega

/-- Without roots there are no live cells. -/
theorem Shows.cells_eq_nil (h : machine.Shows settings [] cells made) : cells = [] := by
  have hlive := h.ncard_live
  rw [live_eq_empty h.roots, Set.ncard_empty] at hlive
  exact List.length_eq_zero_iff.1 hlive.symm

theorem Collects.balanced (h : before.Collects freed after) (hb : before.Balanced) :
    after.Balanced where
  allocated := by
    have hbalance := h.balance
    have hallocated := hb.allocated
    rw [h.totals]
    show before.totals.allocated = before.totals.collected + freed.length + after.count
    omega
  slotCount := by
    rw [h.slotCount, h.totals]
    exact hb.slotCount

/-- A collection does not show. -/
theorem Collects.shows (h : before.Collects freed after)
    (hshows : before.Shows settings roots cells made) :
    after.Shows settings roots cells made where
  sound := h.sound hshows.sound
  balanced := h.balanced hshows.balanced
  settings := h.settings.trans hshows.settings
  roots := by rw [h.roots, hshows.roots]
  nodup := hshows.nodup
  live r := by rw [h.live, hshows.live]
  payload cell hm := by
    rw [h.kept cell.1 ((hshows.live cell.1).2 (List.mem_map_of_mem hm)), hshows.payload cell hm]
  made := by rw [h.totals, hshows.made]

theorem Prepares.shows (h : machine.Prepares journal output mid journal')
    (hshows : machine.Shows settings roots cells made) : mid.Shows settings roots cells made := by
  cases h with
  | spare => exact hshows
  | collected _ hcollects => exact hcollects.shows hshows

theorem Adds.balanced (h : before.Adds index after) (hb : before.Balanced) :
    after.Balanced where
  allocated := by
    rw [h.totals, h.count, ← Nat.add_assoc, ← hb.allocated]
  slotCount := by
    have hallocated := hb.allocated
    have hslots := hb.slotCount
    rw [h.slotCount, h.totals]
    show max before.heap.slotCount (before.count + 1) ≤ before.totals.allocated + 1
    omega

/-- A new cell comes to the others. -/
theorem Adds.shows (h : before.Adds index after) (hv : before.heap.vacancy = .ok index)
    (hgains : before.heap.Gains index payload after.heap) (hsound : after.Sound)
    (hshows : before.Shows settings roots cells made) {roots' : List Ref}
    (hroots : after.roots.toList = roots') :
    after.Shows settings roots' ((before.heap.handle index, payload) :: cells) (made + 1) where
  sound := hsound
  balanced := h.balanced hshows.balanced
  settings := h.settings.trans hshows.settings
  roots := hroots
  nodup := by
    refine List.nodup_cons.2 ⟨fun hm => ?_, hshows.nodup⟩
    exact hshows.sound.handle_notMem_live hv ((hshows.live _).2 hm)
  live r := by
    rw [h.live, List.map_cons, List.mem_cons, ← hshows.live]
    rfl
  payload cell hm := by
    rw [hgains.payload?]
    rcases List.mem_cons.1 hm with rfl | hm
    · rw [if_pos rfl]
    · have hlive := (hshows.live cell.1).2 (List.mem_map_of_mem hm)
      rw [if_neg, hshows.payload cell hm]
      intro heq
      exact hshows.sound.handle_notMem_live hv (heq ▸ hlive)
  made := by rw [h.totals, hshows.made]

/-- Other roots, and what they lead to. -/
theorem Shows.withRoots (h : machine.Shows settings roots cells made) (hrest : rest ⊆ roots)
    (hdepth : rest.length ≤ roots.length) :
    ∃ cells', (machine.withRoots rest).Shows settings rest cells' made := by
  classical
  have hsound : (machine.withRoots rest).Sound := by
    refine h.sound.withRoots (fun r hr => h.sound.roots r (h.roots ▸ hrest hr)) ?_
    have hcapacity := h.sound.depth
    rw [depth_eq, h.roots] at hcapacity
    exact hdepth.trans hcapacity
  -- fewer roots lead to fewer cells
  have hlive : ∀ r ∈ (machine.withRoots rest).live, r ∈ cells.map Prod.fst := by
    intro r hr
    rw [← h.live]
    refine hr.of_closed (S := fun r => r ∈ machine.live) (fun s hs => .root ?_)
      fun s p hs hp t ht => .edge hs hp ht
    rw [roots_withRoots] at hs
    exact h.roots ▸ hrest hs
  refine ⟨cells.filter fun cell => cell.1 ∈ (machine.withRoots rest).live, hsound,
    ⟨h.balanced.allocated, h.balanced.slotCount⟩, h.settings, roots_withRoots _ _,
    h.nodup.sublist (List.filter_sublist.map _), fun r => ?_, fun cell hm => ?_, h.made⟩
  · constructor
    · intro hr
      obtain ⟨cell, hm, rfl⟩ := List.mem_map.1 (hlive r hr)
      exact List.mem_map_of_mem (List.mem_filter.2 ⟨hm, decide_eq_true hr⟩)
    · intro hr
      obtain ⟨cell, hm, rfl⟩ := List.mem_map.1 hr
      exact of_decide_eq_true (List.mem_filter.1 hm).2
  · exact h.payload cell (List.mem_of_mem_filter hm)

/-! ### Operations on it -/

/-- A request that is served needs one live cell more than there are. -/
theorem Serves.rationed {request : Action Machine Ref} {kind : Kind}
    {finish : Machine → Nat → Machine} {good : Ref → Session Machine → Prop}
    (h : Serves request kind finish machine journal output)
    (hshows : machine.Shows settings roots cells made)
    (hfinish : ∀ (mid : Machine) (index : Nat) (journal : List Record),
      mid.Shows settings roots cells made → mid.roots = machine.roots →
      mid.heap.vacancy = .ok index →
      (∀ limit, mid.settings.maxObjects = some limit → mid.count < limit) →
      good (mid.heap.handle index) ⟨finish mid index, journal, output⟩) :
    Rationed settings.maxObjects (cells.length + 1) (made + 1) (Answers good)
      (request ⟨machine, journal, output⟩) := by
  cases h with
  | @refused after journal' limit hprep _ hmax hlive hrequest =>
    rw [hrequest]
    refine .refused (hshows.settings ▸ hmax) ?_
    rw [← hlive, hshows.ncard_live]
    exact Nat.lt_succ_self _
  | @unplaced after journal' hprep _ hv hrequest =>
    have hmid := hprep.shows hshows
    rw [hrequest]
    refine .unplaced (Nat.lt_succ_of_le ?_)
    rw [← hmid.made]
    exact (Heap.maxSlots_le_of_vacancy hv).trans hmid.balanced.slotCount
  | @granted mid journal' index hprep hroom hv hrequest =>
    have hlimit : ∀ limit, mid.settings.maxObjects = some limit → mid.count < limit :=
      fun limit hl => hprep.count_lt hroom (hprep.keeps.settings ▸ hl)
    rw [hrequest]
    refine .settled (fun limit hmax => ?_)
      (hfinish mid index _ (hprep.shows hshows) hprep.keeps.roots hv hlimit)
    rw [← hshows.ncard_live]
    exact hroom limit (hshows.settings ▸ hmax)

theorem Shows.pushScalar (h : session.state.Shows settings roots cells made)
    (hroom : roots.length < settings.stackCapacity) (value : Int64) :
    Rationed settings.maxObjects (cells.length + 1) (made + 1)
      (Answers fun r after => after.output = session.output ∧
        after.state.Shows settings (roots ++ [r]) ((r, .scalar value) :: cells) (made + 1))
      (pushScalar value session) := by
  have hfull := h.isFull_eq_false hroom
  refine (pushScalar_serves h.sound hfull value session.journal session.output).rationed h
    fun mid index _ hmid hroots hv hlimit => ⟨rfl, ?_⟩
  refine (pushed_adds hmid.sound hv value).shows hv (gains_pushed hv value)
    (hmid.sound.pushed hv (hroots ▸ hfull) hlimit) hmid ?_
  rw [← hmid.roots]
  exact roots_withRoots _ _

/-- On a full stack a scalar is not asked for. -/
theorem Shows.pushScalar_full (h : session.state.Shows settings roots cells made)
    (hfull : settings.stackCapacity ≤ roots.length) (value : Int64) :
    Machine.pushScalar value session = .error (.fault .rootOverflow) session :=
  pushScalar_of_isFull (h.isFull_iff.2 hfull) value session.journal session.output

theorem Shows.makePair (h : session.state.Shows settings roots cells made) (rest : List Ref)
    (second first : Ref) (hroots : roots = rest ++ [second, first]) :
    Rationed settings.maxObjects (cells.length + 1) (made + 1)
      (Answers fun r after => after.output = session.output ∧
        after.state.Shows settings (rest ++ [r])
          ((r, .pair (some first) (some second)) :: cells) (made + 1))
      (makePair session) := by
  subst hroots
  refine (makePair_serves h.sound h.roots session.journal session.output).rationed h
    fun mid index _ hmid hroots hv hlimit => ⟨rfl, ?_⟩
  exact (paired_adds hmid.sound hmid.roots hv).shows hv (gains_paired hv rest first second)
    (hmid.sound.paired hmid.roots hv hlimit) hmid (roots_withRoots _ _)

/-- A root is dropped, and with it whatever no other root leads to. -/
theorem Shows.popRoot (h : session.state.Shows settings roots cells made) (rest : List Ref)
    (r : Ref) (hroots : roots = rest ++ [r]) :
    Rationed settings.maxObjects 0 0
      (Answers fun _ after => after.output = session.output ∧
        ∃ cells', after.state.Shows settings rest cells' made)
      (popRoot session) := by
  subst hroots
  refine rationed_of_ok (popRoot_eq_ok h.roots session.journal session.output) ⟨rfl, ?_⟩
  exact h.withRoots (List.subset_append_left _ _) (by simp)

/-- A collection counts the live cells and changes nothing that a program knows. -/
theorem Shows.collect (h : session.state.Shows settings roots cells made) :
    Rationed settings.maxObjects 0 0
      (Answers fun stats after => after.output = session.output ∧
        after.state.Shows settings roots cells made ∧ stats.marked = cells.length ∧
        stats.remaining = cells.length ∧ after.state.count = cells.length ∧
        1 ≤ after.state.totals.collections)
      (collect session) := by
  obtain ⟨freed, after, hcollects, hcollect⟩ :=
    collect_eq_ok h.sound session.journal session.output
  refine rationed_of_ok hcollect ⟨rfl, hcollects.shows h, h.ncard_live, h.ncard_live, ?_, ?_⟩
  · rw [hcollects.count, h.ncard_live]
  · rw [hcollects.totals]
    exact Nat.le_add_left 1 _

/-! ### A machine of one's own -/

/-- What is left of a run when its machine is given up. -/
def released {α : Type} : Ending Machine α → Ending Unit α
  | .ok a ⟨machine, journal, output⟩ => .ok a ⟨(), .released machine.count :: journal, output⟩
  | .error failure ⟨machine, journal, output⟩ =>
    .error failure ⟨(), .released machine.count :: journal, output⟩

theorem Answers.released {α : Type} (good : α → String → Prop) {ending : Ending Machine α}
    (h : Answers (fun a after => good a after.output) ending) :
    Answers (fun a after => good a after.output) (released ending) := by
  obtain ⟨a, session, rfl, ha⟩ := h.exists_eq
  exact ha

theorem Breaks.released {α : Type} {cause : Fault} {ending : Ending Machine α}
    (h : Breaks cause ending) : Breaks cause (released ending) := by
  cases ending with
  | ok => exact h
  | error => exact h

theorem within_eq {α : Type} (h : settings.rejected? = none) (act : Action Machine α)
    (session : Session Unit) :
    within settings act session =
      released (act ⟨initial settings, session.journal, session.output⟩) := by
  have hcreate : create settings = .ok (initial settings) := create_eq_ok_iff.2 ⟨h, rfl⟩
  obtain ⟨⟨⟩, journal, output⟩ := session
  simp only [within, hcreate]
  cases act ⟨initial settings, journal, output⟩ <;> rfl

/-- A program ends on a machine of its own as on any machine that was never used. -/
theorem rationed_within {α : Type} {act : Action Machine α} {limit? : Option Nat}
    {most total : Nat} {goal : Ending Machine α → Prop} {goal' : Ending Unit α → Prop}
    {session : Session Unit} (haccepted : settings.rejected? = none)
    (h : ∀ machine : Machine, machine.Shows settings [] [] 0 →
      Rationed limit? most total goal (act ⟨machine, session.journal, session.output⟩))
    (hgoal : ∀ ending, goal ending → goal' (released ending)) :
    Rationed limit? most total goal' (within settings act session) := by
  have hinitial := h (initial settings) (shows_initial haccepted)
  rw [within_eq haccepted]
  generalize act _ = ending at hinitial
  cases hinitial with
  | settled hallows hsettled => exact .settled hallows (hgoal _ hsettled)
  | refused hlimit hlt => exact .refused hlimit hlt
  | unplaced hfull => exact .unplaced hfull

end Machine

end MarkSweep
