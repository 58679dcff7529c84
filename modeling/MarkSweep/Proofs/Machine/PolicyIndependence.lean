/-
# The collection policy is invisible

When a machine collects depends on its threshold, on how the threshold grows, and on the
collections that the program asks for.  None of this shows: two machines with the same
stack capacity and the same object limit run the same program to the same outcomes, and
mirror each other after every instruction (`Instruction.trace_alike`).

The two runs are related step by step.  `Twins` relates their machines, collections of
either side keep it (`Twins.keeps_left`, `Twins.keeps_right`), and one operation on both
sides keeps it and ends the same way (`Twins.sameEnd`).  The one outcome that depends on how
many cells there are is the refusal for the object limit.  It does not depend on garbage,
since a machine refuses only after a collection: what counts is how many cells are live,
and that is the same on both sides.
-/

import MarkSweep.Proofs.Machine.Programs

namespace MarkSweep

open Machine

variable {f : Ref → Ref} {left right left' right' : Machine}

/-- Two sound machines of which a program sees the same, whatever their policies. -/
structure Twins (f : Ref → Ref) (left right : Machine) : Prop where
  sound : left.Sound
  sound' : right.Sound
  mirrors : left.Mirrors f right
  capacity : right.settings.stackCapacity = left.settings.stackCapacity
  limit : right.settings.maxObjects = left.settings.maxObjects
  allocated : right.totals.allocated = left.totals.allocated

namespace Twins

theorem keeps_left (h : Twins f left right) (hk : left.Keeps left') (hs : left'.Sound) :
    Twins f left' right where
  sound := hs
  sound' := h.sound'
  mirrors := h.mirrors.keeps_left hk
  capacity := by rw [hk.settings, h.capacity]
  limit := by rw [hk.settings, h.limit]
  allocated := by rw [hk.allocated, h.allocated]

theorem keeps_right (h : Twins f left right) (hk : right.Keeps right') (hs : right'.Sound) :
    Twins f left right' where
  sound := h.sound
  sound' := hs
  mirrors := h.mirrors.keeps_right hk
  capacity := by rw [hk.settings, h.capacity]
  limit := by rw [hk.settings, h.limit]
  allocated := by rw [hk.allocated, h.allocated]

theorem isFull (h : Twins f left right) : right.roots.isFull = left.roots.isFull := by
  have hdepth : right.roots.depth = left.roots.depth := h.mirrors.depth
  rw [RootStack.isFull, RootStack.isFull, hdepth, h.sound'.capacity, h.sound.capacity, h.capacity]

/-- There is room for one more cell on both sides or on neither. -/
theorem hasRoom_iff (h : Twins f left right) : right.HasRoom ↔ left.HasRoom := by
  rw [HasRoom, HasRoom, h.limit, h.mirrors.ncard_live]

end Twins

/-- Two operations, one on each side, end the same way and leave machines that mirror each
other. -/
structure SameEnd (op op' : Operation) (left right : Session Machine) : Prop where
  failure? : op'.act.failure? right = op.act.failure? left
  mirrors : ∃ f, (op.act.after left).state.Mirrors f (op'.act.after right).state
  allocated : (op'.act.after right).state.totals.allocated =
    (op.act.after left).state.totals.allocated

section SameEnd

variable {op op' : Operation} {session session' next next' : Session Machine}

theorem sameEnd_of_ok (h : op.act session = .ok () next) (h' : op'.act session' = .ok () next')
    (hmirrors : ∃ f, next.state.Mirrors f next'.state)
    (hallocated : next'.state.totals.allocated = next.state.totals.allocated) :
    SameEnd op op' session session' where
  failure? := by rw [Action.failure?_of_ok h, Action.failure?_of_ok h']
  mirrors := by rwa [Action.after_of_ok h, Action.after_of_ok h']
  allocated := by rw [Action.after_of_ok h, Action.after_of_ok h', hallocated]

theorem sameEnd_of_error {failure : Failure} (h : op.act session = .error failure next)
    (h' : op'.act session' = .error failure next')
    (hmirrors : ∃ f, next.state.Mirrors f next'.state)
    (hallocated : next'.state.totals.allocated = next.state.totals.allocated) :
    SameEnd op op' session session' where
  failure? := by rw [Action.failure?_of_error h, Action.failure?_of_error h']
  mirrors := by rwa [Action.after_of_error h, Action.after_of_error h']
  allocated := by rw [Action.after_of_error h, Action.after_of_error h', hallocated]

end SameEnd

namespace Twins

variable {journal journal' : List Record} {output output' : String}

/-- A request that is served on both sides is refused on both or granted on both, unless an
arena is full. -/
theorem sameEnd_of_serves (h : Twins f left right) {op : Operation}
    {request : Action Machine Ref} {kind : Kind} {finish finish' : Machine → Nat → Machine}
    (hact : op.act = (fun _ => ()) <$> request)
    (hleft : Serves request kind finish left journal output)
    (hright : Serves request kind finish' right journal' output')
    (hspace : op.act.failure? ⟨left, journal, output⟩ ≠ some .outOfMemory)
    (hspace' : op.act.failure? ⟨right, journal', output'⟩ ≠ some .outOfMemory)
    (hfinish : ∀ mid mid' index index', Twins f mid mid' → mid.roots = left.roots →
      mid.live = left.live → mid.heap.vacancy = .ok index → mid'.heap.vacancy = .ok index' →
      (∃ g, (finish mid index).Mirrors g (finish' mid' index')) ∧
        (finish mid index).totals.allocated = mid.totals.allocated + 1 ∧
        (finish' mid' index').totals.allocated = mid'.totals.allocated + 1) :
    SameEnd op op ⟨left, journal, output⟩ ⟨right, journal', output'⟩ := by
  have hok : ∀ {session next : Session Machine} {r : Ref},
      request session = .ok r next → op.act session = .ok () next :=
    fun hrequest => hact ▸ Action.map_of_ok hrequest _
  have herror : ∀ {session next : Session Machine} {failure : Failure},
      request session = .error failure next → op.act session = .error failure next :=
    fun hrequest => hact ▸ Action.map_of_error hrequest _
  have hlive := h.mirrors.ncard_live
  have hroom := h.hasRoom_iff
  cases hleft with
  | unplaced _ _ _ hrequest =>
    exact absurd (Action.failure?_of_error (herror hrequest)) hspace
  | @refused _ _ limit hprep _ hmax hfull hrequest =>
    have htwins := h.keeps_left hprep.keeps (hprep.sound h.sound)
    cases hright with
    | unplaced _ _ _ hrequest' =>
      exact absurd (Action.failure?_of_error (herror hrequest')) hspace'
    | granted _ hroom' _ _ =>
      have hlt : left.live.ncard < limit := hroom.1 hroom' limit hmax
      omega
    | @refused _ _ limit' hprep' _ hmax' hfull' hrequest' =>
      have htwins' := htwins.keeps_right hprep'.keeps (hprep'.sound h.sound')
      obtain rfl : limit = limit' := by omega
      exact sameEnd_of_error (herror hrequest) (herror hrequest') ⟨f, htwins'.mirrors⟩
        htwins'.allocated
  | @granted mid _ index hprep hroom' hv hrequest =>
    have htwins := h.keeps_left hprep.keeps (hprep.sound h.sound)
    cases hright with
    | unplaced _ _ _ hrequest' =>
      exact absurd (Action.failure?_of_error (herror hrequest')) hspace'
    | @refused _ _ limit' _ _ hmax' hfull' _ =>
      have hlt : right.live.ncard < limit' := hroom.2 hroom' limit' hmax'
      omega
    | @granted mid' _ index' hprep' _ hv' hrequest' =>
      have htwins' := htwins.keeps_right hprep'.keeps (hprep'.sound h.sound')
      obtain ⟨hmirrors, hcount, hcount'⟩ := hfinish mid mid' index index' htwins'
        hprep.keeps.roots hprep.keeps.live hv hv'
      refine sameEnd_of_ok (hok hrequest) (hok hrequest') hmirrors ?_
      show (finish' mid' index').totals.allocated = (finish mid index).totals.allocated
      rw [hcount, hcount', htwins'.allocated]

theorem sameEnd_pushScalar (h : Twins f left right) (value : Int64)
    (hspace : (Operation.pushScalar value).act.failure? ⟨left, journal, output⟩ ≠
      some .outOfMemory)
    (hspace' : (Operation.pushScalar value).act.failure? ⟨right, journal', output'⟩ ≠
      some .outOfMemory) :
    SameEnd (.pushScalar value) (.pushScalar value) ⟨left, journal, output⟩
      ⟨right, journal', output'⟩ := by
  cases hfull : left.roots.isFull with
  | true =>
    have hfull' : right.roots.isFull = true := h.isFull.trans hfull
    exact sameEnd_of_error
      (Action.map_of_error (pushScalar_of_isFull hfull value journal output) _)
      (Action.map_of_error (pushScalar_of_isFull hfull' value journal' output') _)
      ⟨f, h.mirrors⟩ h.allocated
  | false =>
    have hfull' : right.roots.isFull = false := h.isFull.trans hfull
    refine h.sameEnd_of_serves rfl (pushScalar_serves h.sound hfull value journal output)
      (pushScalar_serves h.sound' hfull' value journal' output') hspace hspace' ?_
    intro mid mid' index index' htwins _ _ hv hv'
    have hroots' : (mid'.pushed value index').roots.toList =
        mid.roots.toList.map f ++ [mid'.heap.handle index'] := by
      rw [pushed, roots_withRoots, htwins.mirrors.roots]
    have hgrow := htwins.mirrors.grow (.scalar value) (htwins.sound.handle_notMem_live hv)
      (htwins.sound'.handle_notMem_live hv') (fun r hr => .root hr)
      (fun r hr => absurd hr List.not_mem_nil) (gains_pushed hv value).payload?
      (gains_pushed hv' value).payload? (roots_withRoots _ _) hroots'
    exact ⟨⟨_, hgrow⟩, rfl, rfl⟩

theorem sameEnd_makePair (h : Twins f left right)
    (hspace : Operation.makePair.act.failure? ⟨left, journal, output⟩ ≠ some .outOfMemory)
    (hspace' : Operation.makePair.act.failure? ⟨right, journal', output'⟩ ≠
      some .outOfMemory) :
    SameEnd .makePair .makePair ⟨left, journal, output⟩ ⟨right, journal', output'⟩ := by
  rcases Nat.lt_or_ge left.depth 2 with hdepth | hdepth
  · have hdepth' : right.depth < 2 := h.mirrors.depth.trans_lt hdepth
    exact sameEnd_of_error
      (Action.map_of_error (makePair_of_depth_lt hdepth journal output) _)
      (Action.map_of_error (makePair_of_depth_lt hdepth' journal' output') _)
      ⟨f, h.mirrors⟩ h.allocated
  · obtain ⟨rest, second, first, hroots⟩ := exists_roots_eq hdepth
    have hroots' : right.roots.toList = rest.map f ++ [f second, f first] := by
      rw [h.mirrors.roots, hroots, List.map_append]
      rfl
    refine h.sameEnd_of_serves rfl (makePair_serves h.sound hroots journal output)
      (makePair_serves h.sound' hroots' journal' output') hspace hspace' ?_
    intro mid mid' index index' htwins _ hlive hv hv'
    have hmem : ∀ r ∈ rest ++ [second, first], r ∈ mid.live := fun r hr => by
      rw [hlive]
      exact .root (hroots ▸ hr)
    have hedges : ∀ r ∈ (Payload.pair (some first) (some second)).edges, r ∈ mid.live := by
      intro r hr
      rcases List.mem_cons.1 hr with rfl | hr
      · exact hmem _ (by simp)
      · rw [List.mem_singleton.1 hr]
        exact hmem _ (by simp)
    have hgrow := htwins.mirrors.grow _ (htwins.sound.handle_notMem_live hv)
      (htwins.sound'.handle_notMem_live hv') (fun r hr => hmem r (List.mem_append_left _ hr))
      hedges (gains_paired hv rest first second).payload?
      (gains_paired hv' (rest.map f) (f first) (f second)).payload? (roots_withRoots _ _)
      (roots_withRoots _ _)
    exact ⟨⟨_, hgrow⟩, rfl, rfl⟩

theorem sameEnd_pushRoot (h : Twins f left right) {r : Ref} (hr : r ∈ left.live) :
    SameEnd (.pushRoot r) (.pushRoot (f r)) ⟨left, journal, output⟩
      ⟨right, journal', output'⟩ := by
  have hc := h.sound.contains_of_live hr
  have hc' := h.sound'.contains_of_live (h.mirrors.live_of_live hr)
  cases hfull : left.roots.isFull with
  | true =>
    have hfull' : right.roots.isFull = true := h.isFull.trans hfull
    exact sameEnd_of_error (pushRoot_of_isFull hc hfull journal output)
      (pushRoot_of_isFull hc' hfull' journal' output') ⟨f, h.mirrors⟩ h.allocated
  | false =>
    have hfull' : right.roots.isFull = false := h.isFull.trans hfull
    have hlive : ∀ s ∈ left.roots.toList ++ [r], s ∈ left.live := by
      intro s hs
      rcases List.mem_append.1 hs with hs | hs
      · exact .root hs
      · rwa [List.mem_singleton.1 hs]
    have hmirrors := h.mirrors.withRoots hlive
    rw [List.map_append, ← h.mirrors.roots, List.map_singleton] at hmirrors
    exact sameEnd_of_ok (pushRoot_eq_ok hc hfull journal output)
      (pushRoot_eq_ok hc' hfull' journal' output') ⟨f, hmirrors⟩ h.allocated

theorem sameEnd_popRoot (h : Twins f left right) :
    SameEnd .popRoot .popRoot ⟨left, journal, output⟩ ⟨right, journal', output'⟩ := by
  have hmap := h.mirrors.roots
  rcases popRoot_cases left journal output with ⟨hnil, hpop⟩ | ⟨rest, r, hroots, hpop⟩
  · rcases popRoot_cases right journal' output' with ⟨-, hpop'⟩ | ⟨rest', r', hroots', -⟩
    · exact sameEnd_of_error (Action.map_of_error hpop _) (Action.map_of_error hpop' _)
        ⟨f, h.mirrors⟩ h.allocated
    · rw [hnil, hroots'] at hmap
      simp at hmap
  · have hroots' : right.roots.toList = rest.map f ++ [f r] := by
      rw [hmap, hroots, List.map_append, List.map_singleton]
    have hmirrors := h.mirrors.withRoots fun s hs =>
      .root (hroots ▸ List.mem_append_left [r] hs)
    exact sameEnd_of_ok (Action.map_of_ok hpop _)
      (Action.map_of_ok (popRoot_eq_ok hroots' journal' output') _) ⟨f, hmirrors⟩ h.allocated

theorem sameEnd_collect (h : Twins f left right) :
    SameEnd .collect .collect ⟨left, journal, output⟩ ⟨right, journal', output'⟩ := by
  obtain ⟨freed, after, hcollects, hcollect⟩ := collect_eq_ok h.sound journal output
  obtain ⟨freed', after', hcollects', hcollect'⟩ := collect_eq_ok h.sound' journal' output'
  have htwins := (h.keeps_left hcollects.keeps (hcollects.sound h.sound)).keeps_right
    hcollects'.keeps (hcollects'.sound h.sound')
  exact sameEnd_of_ok (Action.map_of_ok hcollect _) (Action.map_of_ok hcollect' _)
    ⟨f, htwins.mirrors⟩ htwins.allocated

theorem sameEnd_setPair (h : Twins f left right) {pair first second : Ref}
    (hop : (Operation.setPair pair first second).Named left) :
    SameEnd (.setPair pair first second) (.setPair (f pair) (f first) (f second))
      ⟨left, journal, output⟩ ⟨right, journal', output'⟩ := by
  obtain ⟨⟨hpair, old₁, old₂, hp⟩, hfirst, hsecond⟩ := hop
  have hp' : right.heap.payload? (f pair) = some (.pair (old₁.map f) (old₂.map f)) := by
    rw [h.mirrors.payload pair hpair, hp]
    rfl
  exact sameEnd_of_ok (onHeap_setPair hp first second journal output)
    (onHeap_setPair hp' (f first) (f second) journal' output')
    ⟨f, h.mirrors.withLinks h.sound h.sound' hpair hfirst hsecond⟩ h.allocated

/-- **One operation ends the same way on both sides**, as long as both arenas have space. -/
theorem sameEnd {session session' : Session Machine} (h : Twins f session.state session'.state)
    {op : Operation} (hop : op.Named session.state)
    (hspace : op.act.failure? session ≠ some .outOfMemory)
    (hspace' : (op.rename f).act.failure? session' ≠ some .outOfMemory) :
    SameEnd op (op.rename f) session session' := by
  cases op with
  | pushScalar value => exact h.sameEnd_pushScalar value hspace hspace'
  | makePair => exact h.sameEnd_makePair hspace hspace'
  | pushRoot r => exact h.sameEnd_pushRoot hop
  | popRoot => exact h.sameEnd_popRoot
  | collect => exact h.sameEnd_collect
  | setPair pair first second => exact h.sameEnd_setPair hop

/-- One instruction ends the same way on both sides and leaves twins. -/
theorem perform {session session' : Session Machine} (h : Twins f session.state session'.state)
    (instruction : Instruction)
    (hspace : (instruction.perform session).1 ≠ .ended (some .outOfMemory))
    (hspace' : (instruction.perform session').1 ≠ .ended (some .outOfMemory)) :
    (instruction.perform session').1 = (instruction.perform session).1 ∧
      ∃ g, Twins g (instruction.perform session).2.state
        (instruction.perform session').2.state := by
  have hsame := h.mirrors.operation? instruction
  cases hop : instruction.operation? session.state with
  | none =>
    rw [hop, Option.map_none] at hsame
    simp only [Instruction.perform, hop, hsame]
    exact ⟨trivial, f, h⟩
  | some op =>
    rw [hop, Option.map_some] at hsame
    simp only [Instruction.perform, hop, hsame] at hspace hspace' ⊢
    have hnamed := Instruction.named_of_operation? hop
    have hnamed' := Instruction.named_of_operation? hsame
    have hend := h.sameEnd hnamed (fun hf => hspace (by rw [hf])) fun hf => hspace' (by rw [hf])
    have hwell := Operation.endsWell h.sound (hnamed.legal h.sound)
    have hwell' := Operation.endsWell h.sound' (hnamed'.legal h.sound')
    obtain ⟨g, hmirrors⟩ := hend.mirrors
    refine ⟨by rw [hend.failure?], g, hwell.sound, hwell'.sound, hmirrors, ?_, ?_,
      hend.allocated⟩
    · rw [hwell.settings, hwell'.settings, h.capacity]
    · rw [hwell.settings, hwell'.settings, h.limit]

/-! ### Runs -/

theorem collect_left {session session' : Session Machine}
    (h : Twins f session.state session'.state) :
    Twins f (Instruction.collect.perform session).2.state session'.state := by
  obtain ⟨machine, journal, output⟩ := session
  obtain ⟨freed, after, hcollects, hcollect⟩ := collect_eq_ok h.sound journal output
  have hafter : (Instruction.collect.perform ⟨machine, journal, output⟩).2.state = after :=
    congrArg Session.state (Action.after_of_ok (Action.map_of_ok hcollect _))
  rw [hafter]
  exact h.keeps_left hcollects.keeps (hcollects.sound h.sound)

theorem collect_right {session session' : Session Machine}
    (h : Twins f session.state session'.state) :
    Twins f session.state (Instruction.collect.perform session').2.state := by
  obtain ⟨machine, journal, output⟩ := session'
  obtain ⟨freed, after, hcollects, hcollect⟩ := collect_eq_ok h.sound' journal output
  have hafter : (Instruction.collect.perform ⟨machine, journal, output⟩).2.state = after :=
    congrArg Session.state (Action.after_of_ok (Action.map_of_ok hcollect _))
  rw [hafter]
  exact h.keeps_right hcollects.keeps (hcollects.sound h.sound')

open Instruction

/-- Twins stay twins through a whole program, wherever collections are put into it. -/
theorem trace {program program' : List Instruction} {session session' : Session Machine}
    (h : Twins f session.state session'.state)
    (hprogram : program'.filter (· ≠ .collect) = program.filter (· ≠ .collect))
    (hspace : ∀ entry ∈ trace program session, entry.1 ≠ .ended (some .outOfMemory))
    (hspace' : ∀ entry ∈ trace program' session', entry.1 ≠ .ended (some .outOfMemory)) :
    List.Forall₂ (fun entry entry' => entry'.1 = entry.1 ∧ ∃ g, Twins g entry.2 entry'.2)
        (trace program session) (trace program' session') ∧
      ∃ g, Twins g (final program session).state (final program' session').state := by
  -- on the instructions of the one program, and for each on the collections that the
  -- other puts in front of it
  induction program generalizing f program' session session' with
  | nil =>
    induction program' generalizing session' with
    | nil => exact ⟨.nil, f, h⟩
    | cons instruction' program' ih =>
      by_cases hi' : instruction' = .collect
      · subst hi'
        rw [trace_collect] at hspace' ⊢
        exact ih h.collect_right hprogram hspace'
      · simp [hi'] at hprogram
  | cons instruction program ih =>
    by_cases hi : instruction = .collect
    · subst hi
      rw [trace_collect] at hspace ⊢
      exact ih h.collect_left hprogram hspace hspace'
    · induction program' generalizing session' with
      | nil => simp [hi] at hprogram
      | cons instruction' program' ih' =>
        by_cases hi' : instruction' = .collect
        · subst hi'
          rw [trace_collect] at hspace' ⊢
          exact ih' h.collect_right hprogram hspace'
        · simp only [List.filter_cons, hi, hi', ne_eq, not_false_eq_true, decide_true, if_true,
            List.cons.injEq] at hprogram
          obtain ⟨rfl, hrest⟩ := hprogram
          rw [trace_cons hi] at hspace ⊢
          rw [trace_cons hi] at hspace' ⊢
          obtain ⟨houtcome, g, hg⟩ := h.perform instruction'
            (hspace _ List.mem_cons_self) (hspace' _ List.mem_cons_self)
          obtain ⟨htail, hfinal⟩ := ih hg hrest
            (fun entry hm => hspace entry (List.mem_cons_of_mem _ hm))
            (fun entry hm => hspace' entry (List.mem_cons_of_mem _ hm))
          exact ⟨.cons ⟨houtcome, g, hg⟩ htail, hfinal⟩

end Twins

/-- Two machines between which a program sees no difference. -/
structure Alike (left right : Machine) : Prop where
  depth : right.depth = left.depth
  allocated : right.totals.allocated = left.totals.allocated
  dumpRoots : right.dumpRoots = left.dumpRoots
  /-- The live cells of the two correspond, with roots, payloads and the text of what is
  below them. -/
  renamed : ∃ f, Set.BijOn f left.live right.live ∧
    right.roots.toList = left.roots.toList.map f ∧
    ∀ r ∈ left.live, (∃ payload, left.heap.payload? r = some payload ∧
      right.heap.payload? (f r) = some (payload.rename f)) ∧
      ∀ depth, right.heap.prettyPrint (f r) depth = left.heap.prettyPrint r depth

theorem Twins.alike (h : Twins f left right) : Alike left right where
  depth := h.mirrors.depth
  allocated := h.allocated
  dumpRoots := h.mirrors.dumpRoots h.sound
  renamed := by
    refine ⟨f, h.mirrors.bijOn, h.mirrors.roots, fun r hr => ⟨?_, fun depth => ?_⟩⟩
    · obtain ⟨payload, hp⟩ := Heap.contains_iff_payload?.1 (h.sound.contains_of_live hr)
      refine ⟨payload, hp, ?_⟩
      rw [h.mirrors.payload r hr, hp, Option.map_some]
    · exact h.mirrors.prettyPrint h.sound hr depth

/-- Machines that were never used are twins. -/
theorem twins_initial {settings settings' : Settings} (h : settings.rejected? = none)
    (h' : settings'.rejected? = none) (hcapacity : settings'.stackCapacity = settings.stackCapacity)
    (hlimit : settings'.maxObjects = settings.maxObjects) :
    Twins id (initial settings) (initial settings') where
  sound := sound_initial h
  sound' := sound_initial h'
  mirrors := by
    have hempty : (initial settings).live = ∅ := live_eq_empty rfl
    refine ⟨Set.injOn_id _, rfl, fun r hr => ?_⟩
    rw [hempty] at hr
    exact absurd hr (Set.notMem_empty r)
  capacity := hcapacity
  limit := hlimit
  allocated := rfl

open Instruction in
/-- **The collection policy is invisible to a program.**  On two machines that agree on the
stack capacity and the object limit, the same program, with collections put in wherever one
likes on either side, ends every instruction the same way, and leaves machines after each of
which it sees no difference.  Both arenas are taken to have space for every cell. -/
theorem Instruction.trace_alike {settings settings' : Settings} {machine machine' : Machine}
    {program program' : List Instruction}
    (hcreate : create settings = .ok machine) (hcreate' : create settings' = .ok machine')
    (hcapacity : settings'.stackCapacity = settings.stackCapacity)
    (hlimit : settings'.maxObjects = settings.maxObjects)
    (hprogram : program'.filter (· ≠ .collect) = program.filter (· ≠ .collect))
    (hspace : ∀ entry ∈ trace program ⟨machine, [], ""⟩, entry.1 ≠ .ended (some .outOfMemory))
    (hspace' : ∀ entry ∈ trace program' ⟨machine', [], ""⟩,
      entry.1 ≠ .ended (some .outOfMemory)) :
    List.Forall₂ (fun entry entry' => entry'.1 = entry.1 ∧ Alike entry.2 entry'.2)
        (trace program ⟨machine, [], ""⟩) (trace program' ⟨machine', [], ""⟩) ∧
      Alike (final program ⟨machine, [], ""⟩).state (final program' ⟨machine', [], ""⟩).state := by
  obtain ⟨haccepted, rfl⟩ := create_eq_ok_iff.1 hcreate
  obtain ⟨haccepted', rfl⟩ := create_eq_ok_iff.1 hcreate'
  have htwins : Twins id (Session.state ⟨initial settings, [], ""⟩)
      (Session.state ⟨initial settings', [], ""⟩) :=
    twins_initial haccepted haccepted' hcapacity hlimit
  obtain ⟨htrace, g, hfinal⟩ := htwins.trace hprogram hspace hspace'
  exact ⟨htrace.imp fun _ _ ⟨houtcome, _, hg⟩ => ⟨houtcome, hg.alike⟩, hfinal.alike⟩

/-- A machine that collects rarely and one that collects at every allocation, on its own or
because it is told to: one of them frees garbage that the other keeps, the object limit
stops both at the last scalar, and a program sees no difference. -/
theorem alike_under_limit :
    Alike
      (Instruction.final [.pushScalar 1, .popRoot, .pushScalar 2, .pushScalar 3, .makePair,
          .setPair ⟨0, []⟩ ⟨0, [.first]⟩ ⟨0, []⟩, .pushRoot ⟨0, [.second]⟩, .pushScalar 4,
          .pushScalar 5, .pushScalar 6]
        ⟨initial { maxObjects := some 4 }, [], ""⟩).state
      (Instruction.final [.pushScalar 1, .popRoot, .collect, .pushScalar 2, .pushScalar 3,
          .makePair, .setPair ⟨0, []⟩ ⟨0, [.first]⟩ ⟨0, []⟩, .collect, .pushRoot ⟨0, [.second]⟩,
          .pushScalar 4, .pushScalar 5, .pushScalar 6, .collect]
        ⟨initial { initialThreshold := 1, growthFactor := 1, maxObjects := some 4 }, [],
          ""⟩).state := by
  have hcreate : create { maxObjects := some 4 } = .ok (initial { maxObjects := some 4 }) :=
    create_eq_ok_iff.2 ⟨by decide, rfl⟩
  have hcreate' : create { initialThreshold := 1, growthFactor := 1, maxObjects := some 4 } =
      .ok (initial { initialThreshold := 1, growthFactor := 1, maxObjects := some 4 }) :=
    create_eq_ok_iff.2 ⟨by decide, rfl⟩
  exact (Instruction.trace_alike hcreate hcreate' rfl rfl (by decide) (by decide +kernel)
    (by decide +kernel)).2

end MarkSweep
