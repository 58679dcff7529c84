/-
# The journal tells the heap

Whoever reads the records of a run and nothing else knows which cells there are.  Replayed from
nothing they never contradict each other, and the register they come to is that of the heap, after
every operation (`Trail.chronicled`).

A record says no more than the ones before it bear out (`Record.Faithful`).  That of a collection
ends an unbroken row of cells freed, which are all that was garbage when it began; that of a
refusal gives the number of cells there are.  As many refusals are recorded as were answered.

What carries this is that each record is made with the change of the heap that it speaks of
(`Tells.concat`).  Only a sweep is followed as a whole, from the heap that it finds to the one that
it leaves: its records strike out the cells that are gone by then, and no others
(`Tells.collected`).
-/

import MarkSweep.Proofs.Heap.Seniority
import MarkSweep.Proofs.Machine.Turns

namespace MarkSweep

open Machine

/-- The object limit in a record of a refusal, after the number of cells. -/
def Record.refusal? : Record → Option (Nat × Nat)
  | .limitReached live limit => some (live, limit)
  | _ => none

/-- What the operation was refused with, if it was refused for the object limit. -/
def Turn.refusal? (turn : Turn) : Option (Nat × Nat) :=
  match turn.failure? with
  | some (.heapExhausted live limit) => some (live, limit)
  | _ => none

/-- The records up to the end of a sweep in this turn that leaves so many cells.  Before the turn
the last record was not of a cell freed; since then all are, and they name the garbage that there
was when the turn began, newest first. -/
structure Turn.Concludes (turn : Turn) (freed : List Ref) (remaining : Nat)
    (earlier : List Record) : Prop where
  records : earlier = turn.session.records ++ freed.map fun r => .freed r.index
  apart : ∀ index, turn.session.records.getLast? ≠ some (.freed index)
  newestFirst : freed.Sublist turn.session.state.heap.handles
  garbage : ∀ r, r ∈ freed ↔
    turn.session.state.heap.contains r = true ∧ r ∉ turn.session.state.live
  remaining : ∃ register, Register.replay earlier = some register ∧ register.length = remaining

/-- What a record says is borne out by the turns of the run and the records before it. -/
def Record.Faithful (past : List Turn) (earlier : List Record) : Record → Prop
  | .allocated _ index =>
    ∃ register, Register.replay earlier = some register ∧ index ∉ register.indices
  | .freed index =>
    ∃ register, Register.replay earlier = some register ∧ index ∈ register.indices
  | .collected count remaining =>
    ∃ turn ∈ past, ∃ freed, turn.Concludes freed remaining earlier ∧ freed.length = count
  | .limitReached live _ =>
    ∃ register, Register.replay earlier = some register ∧ register.length = live
  | _ => False

variable {past past' : List Turn} {records : List Record} {register register' : Register}
  {record : Record}

theorem Record.Faithful.mono (h : record.Faithful past records) (hsub : past ⊆ past') :
    record.Faithful past' records := by
  cases record with
  | collected count remaining =>
    obtain ⟨turn, hturn, hrest⟩ := h
    exact ⟨turn, hsub hturn, hrest⟩
  | _ => exact h

/-- The records are faithful, and come to this register. -/
structure Tells (past : List Turn) (records : List Record) (register : Register) : Prop where
  faithful : ∀ earlier record later, records = earlier ++ record :: later →
    record.Faithful past earlier
  replay : Register.replay records = some register

theorem tells_nil (past : List Turn) : Tells past [] [] where
  faithful earlier record later h := by simp at h
  replay := rfl

theorem Tells.mono (h : Tells past records register) (hsub : past ⊆ past') :
    Tells past' records register where
  faithful earlier record later heq := (h.faithful earlier record later heq).mono hsub
  replay := h.replay

/-- One more record. -/
theorem Tells.concat (h : Tells past records register) (hrecord : record.Faithful past records)
    (hnote : register.note record = some register') :
    Tells past (records ++ [record]) register' where
  faithful earlier r later heq := by
    rcases List.eq_nil_or_concat later with rfl | ⟨later, last, rfl⟩
    · obtain ⟨rfl, hr⟩ := List.append_inj' heq rfl
      rwa [← List.singleton_inj.1 hr]
    · have heq' : records ++ [record] = (earlier ++ r :: later) ++ [last] := by
        simpa using heq
      obtain ⟨hrecords, -⟩ := List.append_inj' heq' rfl
      exact h.faithful earlier r later hrecords
  replay := Register.replay_concat h.replay hnote

/-- The cells in some slots are recorded as freed, one after the other. -/
theorem Tells.freed (h : Tells past records register) {slots : List Nat} (hnd : slots.Nodup)
    (hslots : ∀ index ∈ slots, index ∈ register.indices) :
    Tells past (records ++ slots.map Record.freed) (register.strike slots) := by
  induction slots generalizing records register with
  | nil =>
    rw [Register.strike_nil, List.map_nil, List.append_nil]
    exact h
  | cons index slots ih =>
    obtain ⟨hindex, hnd⟩ := List.nodup_cons.1 hnd
    have hmem := hslots index List.mem_cons_self
    have hone : Tells past (records ++ [.freed index]) (register.strike [index]) :=
      h.concat ⟨register, h.replay, hmem⟩ (if_pos hmem)
    have hrest := ih hone hnd fun other hother => by
      rw [Register.mem_indices_strike, List.mem_singleton]
      refine ⟨hslots other (List.mem_cons_of_mem _ hother), ?_⟩
      rintro rfl
      exact hindex hother
    rwa [Register.strike_strike, List.append_assoc] at hrest

variable {turn : Turn} {mid after : Machine} {freed : List Ref} {journal : List Record}
  {refusals : List (Nat × Nat)} {heap : Heap}

/-- A collection that a turn begins with, and its record. -/
theorem Tells.collected (hturn : turn ∈ past)
    (h : Tells past turn.session.records turn.session.state.heap.register)
    (hs : turn.session.state.Sound)
    (hapart : ∀ index, turn.session.records.getLast? ≠ some (.freed index))
    (hcollects : turn.session.state.Collects freed after) {stats : Collection}
    (hcollect : collect turn.session =
      .ok stats ⟨after, collectionRecords freed turn.session.state.live.ncard ++
        turn.session.journal, turn.session.output⟩) :
    Tells past ((turn.session.records ++ freed.map fun r => .freed r.index) ++
      [.collected freed.length turn.session.state.live.ncard]) after.heap.register := by
  obtain ⟨⟨machine, journal, output⟩, op⟩ := turn
  obtain ⟨refs, hrefs⟩ := hs.heap.listed
  obtain ⟨keep, hkept⟩ := collect_listed hs hrefs hcollect
  have hfreed : ∀ r, r ∈ freed ↔ machine.heap.contains r = true ∧
      after.heap.contains r = false := fun r => by
    rw [hcollects.mem_freed, Bool.eq_false_iff, ne_eq, hcollects.contains_iff hs]
  have hkind : ∀ r, after.heap.contains r = true →
      after.heap.kind? r = machine.heap.kind? r := fun r hr => by
    rw [Heap.kind?, Heap.kind?, hcollects.kept r ((hcollects.contains_iff hs).1 hr)]
  have hregister := hrefs.register_filter hkept hkind hfreed
  have hslots : ∀ index ∈ freed.map Ref.index, index ∈ machine.heap.register.indices := by
    intro index hindex
    obtain ⟨r, hr, rfl⟩ := List.mem_map.1 hindex
    rw [hrefs.indices_register]
    exact List.mem_map_of_mem (hrefs.mem_iff.2 ((hfreed r).1 hr).1)
  have hswept := h.freed hcollects.nodup_map_index hslots
  rw [← hregister, List.map_map] at hswept
  have hlength : after.heap.register.length = machine.live.ncard :=
    hkept.length_register.trans hcollects.count
  refine hswept.concat ⟨_, hturn, freed, ⟨rfl, hapart, ?_, hcollects.mem_freed,
    _, hswept.replay, hlength⟩, rfl⟩ rfl
  rw [hrefs.handles_eq]
  exact collect_freed_sublist hs hcollects hcollect hrefs

/-- A journal tells a heap and so many refusals, and does not break off in the middle of a
sweep. -/
structure Told (past : List Turn) (journal : List Record) (heap : Heap)
    (refusals : List (Nat × Nat)) : Prop where
  tells : Tells past journal.reverse heap.register
  apart : ∀ index, journal.reverse.getLast? ≠ some (.freed index)
  refusals : journal.reverse.filterMap Record.refusal? = refusals

/-- One more record, that is not of a cell freed. -/
theorem Told.cons (h : Told past journal heap refusals) {heap' : Heap}
    (hrecord : record.Faithful past journal.reverse)
    (hnote : heap.register.note record = some heap'.register)
    (hapart : ∀ index, record ≠ .freed index) :
    Told past (record :: journal) heap' (refusals ++ record.refusal?.toList) where
  tells := by
    rw [List.reverse_cons]
    exact h.tells.concat hrecord hnote
  apart index hlast := by
    rw [List.reverse_cons, List.getLast?_concat] at hlast
    exact hapart index (Option.some.inj hlast)
  refusals := by
    rw [List.reverse_cons, List.filterMap_append, h.refusals]
    rfl

/-- The first part of a turn. -/
theorem Told.opens (h : Told past turn.session.journal turn.session.state.heap refusals)
    (hturn : turn ∈ past) (hs : turn.session.state.Sound) (hopens : turn.Opens mid journal) :
    Told past journal mid.heap refusals := by
  cases hopens with
  | idle => exact h
  | @collected freed _ _ hcollects hcollect =>
    have hrecords : (collectionRecords freed turn.session.state.live.ncard ++
        turn.session.journal).reverse =
        (turn.session.records ++ freed.map fun r => .freed r.index) ++
          [.collected freed.length turn.session.state.live.ncard] := by
      simp [collectionRecords, Session.records]
    refine ⟨?_, fun index => ?_, ?_⟩
    · rw [hrecords]
      exact Tells.collected hturn h.tells hs h.apart hcollects hcollect
    · rw [hrecords, List.getLast?_concat]
      rintro ⟨⟩
    · rw [hrecords, List.filterMap_append, List.filterMap_append]
      have hnone : (freed.map fun r => Record.freed r.index).filterMap Record.refusal? = [] := by
        simp [Record.refusal?]
      rw [hnone, List.append_nil, Session.records, h.refusals]
      simp [Record.refusal?]

/-- The other part of it. -/
theorem Told.closes (h : Told past journal mid.heap refusals) (hmid : mid.Sound)
    {after : Session Machine} (hcloses : turn.Closes mid journal after) :
    Told past after.journal after.state.heap (refusals ++ turn.refusal?.toList) := by
  obtain ⟨refs, hrefs⟩ := hmid.heap.listed
  cases hcloses with
  | aside _ hunlimited _ hcells hjournal =>
    have hnone : turn.refusal? = none := by
      rw [Turn.refusal?]
      split
      · exact absurd ‹_› (hunlimited _ _)
      · rfl
    rw [hjournal, hnone, Option.toList_none, List.append_nil]
    exact ⟨hcells.register_eq hrefs ▸ h.tells, h.apart, h.refusals⟩
  | @refused limit output hfailure hcount =>
    have hrefusal : turn.refusal? = some (limit, limit) := by rw [Turn.refusal?, hfailure]
    rw [hrefusal]
    exact h.cons ⟨_, h.tells.replay, hrefs.length_register.trans hcount⟩ rfl fun _ => nofun
  | @granted index payload machine output hgranted hv _ _ hgains =>
    have hrefusal : turn.refusal? = none := by rw [Turn.refusal?, hgranted.2]
    have hnew := Heap.contains_handle_of_vacancy hv
    have hfree : index ∉ mid.heap.register.indices := by
      rw [hrefs.indices_register, List.mem_map]
      rintro ⟨r, hr, rfl⟩
      rw [(Heap.contains_iff.1 (hrefs.mem_iff.1 hr)).2.2, hrefs.mem_iff.1 hr] at hnew
      cases hnew
    rw [hrefusal]
    refine h.cons ⟨_, h.tells.replay, hfree⟩ ?_ fun _ => nofun
    rw [hgains.register_eq hrefs hnew]
    exact if_neg hfree

theorem Told.mono (h : Told past journal heap refusals) (hsub : past ⊆ past') :
    Told past' journal heap refusals :=
  ⟨h.tells.mono hsub, h.apart, h.refusals⟩

variable {settings : Settings} {session : Session Machine}

/-- A run is told by its journal. -/
theorem Trail.told (h : Trail settings past session) :
    Told past session.journal session.state.heap (past.reverse.filterMap Turn.refusal?) := by
  induction h with
  | start hcreate =>
    obtain ⟨-, rfl⟩ := create_eq_ok_iff.1 hcreate
    exact ⟨tells_nil _, fun _ => nofun, rfl⟩
  | @step past session op hpast hresolves ih =>
    obtain ⟨hs, -⟩ := hpast.reached.sound
    obtain ⟨mid, journal, hopens, hcloses⟩ := @Turn.course ⟨session, op⟩ hs hresolves
    have hbegun := (ih.mono (List.subset_cons_self ⟨session, op⟩ past)).opens
      List.mem_cons_self hs hopens
    rw [List.reverse_cons, List.filterMap_append]
    exact hbegun.closes (hopens.sound hs) hcloses

end MarkSweep
