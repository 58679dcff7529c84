/-
# What one operation can do

`Operation.Effect` lists everything that an operation can make of a sound machine, whether it
succeeds or fails: nothing, a root more or less, a pair filled, a collection, a search for
room in vain, or one more cell (`Operation.effect`).  What a run preserves can be read off this
list, with nothing unfolded.

`Machine.Adds` says what a new cell does to the size of a machine, in all respects: the cells
and the slots, the live cells, and the books.

A `Trail` is a run that remembers what it went through, for statements that speak of the
whole of a run and not of its end alone.
-/

import MarkSweep.Proofs.Machine.Runs

namespace MarkSweep

namespace Machine

variable {machine mid after : Machine}

/-- What is live after a new cell was put on top of the stack: it, and what was live before,
as long as no root was dropped that it does not link to. -/
theorem live_eq_insert {payload : Payload} {new : Ref} {roots : List Ref}
    (hnew : new ∉ machine.live) (hroots : ∀ r ∈ roots, r ∈ machine.live)
    (hedges : ∀ r ∈ payload.edges, r ∈ machine.live)
    (hcover : ∀ r ∈ machine.roots.toList, r ∈ roots ∨ r ∈ payload.edges)
    (hpayload : ∀ r, after.heap.payload? r =
      if r = new then some payload else machine.heap.payload? r)
    (hroots' : after.roots.toList = roots ++ [new]) :
    after.live = insert new machine.live := by
  have hself : new ∈ after.live := .root (hroots' ▸ List.mem_append_right _ List.mem_cons_self)
  ext r
  constructor
  · intro hr
    refine hr.of_closed (S := fun r => r ∈ insert new machine.live) (fun s hs => ?_)
      fun s p hs hp t ht => Or.inr ?_
    · rw [hroots'] at hs
      rcases List.mem_append.1 hs with hs | hs
      · exact Or.inr (hroots s hs)
      · exact Or.inl (List.mem_singleton.1 hs)
    · rw [hpayload] at hp
      split_ifs at hp with hsn
      · obtain rfl := Option.some.inj hp
        exact hedges t ht
      · exact .edge (hs.resolve_left hsn) hp ht
  · rintro (rfl | hr)
    · exact hself
    · -- what is followed from the old roots never comes to the new cell
      refine (hr.of_closed (S := fun r => r ∈ machine.live ∧ r ∈ after.live) (fun s hs => ?_)
        fun s p hs hp t ht => ?_).2
      · refine ⟨.root hs, ?_⟩
        rcases hcover s hs with hs | hs
        · exact .root (hroots' ▸ List.mem_append_left _ hs)
        · exact .edge hself (by rw [hpayload, if_pos rfl]) hs
      · have hsn : s ≠ new := fun hsn => hnew (hsn ▸ hs.1)
        exact ⟨.edge hs.1 hp ht, .edge hs.2 (by rw [hpayload, if_neg hsn, hp]) ht⟩

/-- The second machine is the first with one more cell, in the slot of the index. -/
structure Adds (before : Machine) (index : Nat) (after : Machine) : Prop where
  settings : after.settings = before.settings
  threshold : after.threshold = before.threshold
  totals : after.totals = { before.totals with allocated := before.totals.allocated + 1 }
  count : after.count = before.count + 1
  slotCount : after.heap.slotCount = max before.heap.slotCount (before.count + 1)
  live : after.live = insert (before.heap.handle index) before.live

/-- One more cell is one more live cell. -/
theorem Adds.ncard_live {index : Nat} (h : machine.Adds index after) (hs : machine.Sound)
    (hv : machine.heap.vacancy = .ok index) : after.live.ncard = machine.live.ncard + 1 := by
  rw [h.live, Set.ncard_insert_of_notMem (hs.handle_notMem_live hv) hs.finite_live]

theorem slotCount_withCell (hs : machine.Sound) {index : Nat}
    (hv : machine.heap.vacancy = .ok index) (payload : Payload) :
    (machine.heap.occupy index payload).slotCount =
      max machine.heap.slotCount (machine.count + 1) := by
  obtain ⟨refs, hrefs⟩ := hs.heap.listed
  exact hrefs.slotCount_occupy hv payload

theorem pushed_adds (hs : machine.Sound) {index : Nat} (hv : machine.heap.vacancy = .ok index)
    (value : Int64) : machine.Adds index (machine.pushed value index) where
  settings := rfl
  threshold := rfl
  totals := rfl
  count := rfl
  slotCount := slotCount_withCell hs hv _
  live := live_eq_insert (hs.handle_notMem_live hv) (fun _ hr => .root hr)
    (fun _ hr => absurd hr List.not_mem_nil) (fun _ hr => Or.inl hr)
    (gains_pushed hv value).payload? (roots_withRoots _ _)

theorem paired_adds (hs : machine.Sound) {rest : List Ref} {first second : Ref} {index : Nat}
    (hroots : machine.roots.toList = rest ++ [second, first])
    (hv : machine.heap.vacancy = .ok index) :
    machine.Adds index (machine.paired rest first second index) where
  settings := rfl
  threshold := rfl
  totals := rfl
  count := rfl
  slotCount := by
    show ((machine.heap.occupy index (.zeroed .pair)).fill _ first second).slotCount = _
    rw [Heap.fill, Heap.slotCount_update]
    exact slotCount_withCell hs hv _
  live := by
    have hold : ∀ r ∈ rest ++ [second, first], r ∈ machine.live := fun r hr =>
      .root (hroots ▸ hr)
    refine live_eq_insert (hs.handle_notMem_live hv)
      (fun r hr => hold r (List.mem_append_left _ hr)) (fun r hr => hold r ?_) (fun r hr => ?_)
      (gains_paired hv rest first second).payload? (roots_withRoots _ _)
    · exact mem_roots_of_mem_edges hr
    · rw [hroots] at hr
      simpa [Payload.edges, Payload.first?, Payload.second?, or_comm] using hr

/-- The requests for a cell whose demand on the root stack is met. -/
inductive Asks (machine : Machine) : Action Machine Ref → Prop where
  | pushScalar (value : Int64) : machine.roots.isFull = false → Asks machine (pushScalar value)
  | makePair : 2 ≤ machine.depth → Asks machine makePair

/-- Such a request is served.  If it is granted it adds a cell, of the payload that it was made
for. -/
theorem Asks.serves_gains {request : Action Machine Ref} (h : machine.Asks request)
    (hs : machine.Sound) (journal : List Record) (output : String) :
    ∃ (payload : Payload) (finish : Machine → Nat → Machine),
      Serves request payload.kind finish machine journal output ∧
      ∀ (mid : Machine) (index : Nat), mid.Sound → mid.roots = machine.roots →
        mid.heap.vacancy = .ok index → mid.Adds index (finish mid index) ∧
          mid.heap.Gains index payload (finish mid index).heap := by
  cases h with
  | pushScalar value hfull =>
    exact ⟨.scalar value, _, pushScalar_serves hs hfull value journal output,
      fun mid index hmid _ hv => ⟨pushed_adds hmid hv value, gains_pushed hv value⟩⟩
  | makePair hdepth =>
    obtain ⟨rest, second, first, hroots⟩ := exists_roots_eq hdepth
    exact ⟨.pair (some first) (some second), _, makePair_serves hs hroots journal output,
      fun mid index hmid hmroots hv => ⟨paired_adds hmid (hmroots ▸ hroots) hv,
        gains_paired hv rest first second⟩⟩

theorem Asks.serves {request : Action Machine Ref} (h : machine.Asks request)
    (hs : machine.Sound) (journal : List Record) (output : String) :
    ∃ (kind : Kind) (finish : Machine → Nat → Machine),
      Serves request kind finish machine journal output ∧
      ∀ (mid : Machine) (index : Nat), mid.Sound → mid.roots = machine.roots →
        mid.heap.vacancy = .ok index → mid.Adds index (finish mid index) := by
  obtain ⟨payload, finish, hserves, hadds⟩ := h.serves_gains hs journal output
  exact ⟨payload.kind, finish, hserves, fun mid index hmid hmroots hv =>
    (hadds mid index hmid hmroots hv).1⟩

end Machine

namespace Operation

open Machine

/-- What an operation can make of a machine. -/
inductive Effect (machine : Machine) : Operation → Machine → Prop where
  | none {op : Operation} : Effect machine op machine
  | rooted {r : Ref} : machine.heap.contains r = true → machine.roots.isFull = false →
      Effect machine (.pushRoot r) (machine.withRoots (machine.roots.toList ++ [r]))
  | unrooted {rest : List Ref} {r : Ref} : machine.roots.toList = rest ++ [r] →
      Effect machine .popRoot (machine.withRoots rest)
  | filled {pair first second : Ref} :
      Effect machine (.setPair pair first second) (machine.withLinks pair first second)
  | collected {freed : List Ref} {after : Machine} :
      machine.Collects freed after → Effect machine .collect after
  /-- There was no room, or no slot. -/
  | denied {op : Operation} {after : Machine} {journal journal' : List Record}
      {output : String} :
      op.Allocates → machine.Prepares journal output after journal' → Effect machine op after
  | granted {op : Operation} {mid after : Machine} {index : Nat}
      {journal journal' : List Record} {output : String} :
      op.Allocates → machine.Prepares journal output mid journal' → machine.HasRoom →
      mid.heap.vacancy = .ok index → mid.Adds index after → Effect machine op after

variable {machine : Machine} {op : Operation} {request : Action Machine Ref}
  {session : Session Machine}

/-- The handles that an operation is to link resolve.  What it is to link them in may be no
pair. -/
def Resolves (machine : Machine) : Operation → Prop
  | .setPair pair first second =>
    machine.heap.contains pair = true ∧ machine.heap.contains first = true ∧
      machine.heap.contains second = true
  | _ => True

theorem Legal.resolves (h : op.Legal machine) : op.Resolves machine := by
  cases op with
  | setPair pair first second =>
    obtain ⟨⟨old₁, old₂, hpair⟩, hfirst, hsecond⟩ := h
    exact ⟨Heap.contains_iff_payload?.2 ⟨_, hpair⟩, hfirst, hsecond⟩
  | _ => trivial

/-- A scalar is not filled, and nothing else happens either. -/
theorem Resolves.legal_or_unchanged (h : op.Resolves session.state) :
    op.Legal session.state ∨ op.act.after session = session := by
  obtain ⟨machine, journal, output⟩ := session
  cases op with
  | setPair pair first second =>
    obtain ⟨hpair, hlinks⟩ := h
    obtain ⟨payload, hp⟩ := Heap.contains_iff_payload?.1 hpair
    cases payload with
    | scalar value =>
      exact Or.inr (Action.after_of_error
        (onHeap_setPair_of_scalar hp first second journal output))
    | pair old₁ old₂ => exact Or.inl ⟨⟨old₁, old₂, hp⟩, hlinks⟩
  | _ => exact Or.inl trivial

theorem effect_of_asks (hs : session.state.Sound) (hasks : session.state.Asks request)
    (hop : op.Allocates) : op.Effect session.state (request.after session).state := by
  obtain ⟨machine, journal, output⟩ := session
  obtain ⟨kind, finish, hserves, hadds⟩ := hasks.serves hs journal output
  cases hserves with
  | refused hprep _ _ _ hrequest =>
    rw [Action.after_of_error hrequest]
    exact .denied hop hprep
  | unplaced hprep _ _ hrequest =>
    rw [Action.after_of_error hrequest]
    exact .denied hop hprep
  | granted hprep hroom hv hrequest =>
    rw [Action.after_of_ok hrequest]
    exact .granted hop hprep hroom hv (hadds _ _ (hprep.sound hs) hprep.keeps.roots hv)

theorem effect_of_legal (hs : session.state.Sound) (h : op.Legal session.state) :
    op.Effect session.state (op.act.after session).state := by
  obtain ⟨machine, journal, output⟩ := session
  cases op with
  | pushScalar value =>
    rw [act, Action.after_map]
    cases hfull : machine.roots.isFull with
    | true =>
      rw [Action.after_of_error (pushScalar_of_isFull hfull value journal output)]
      exact .none
    | false => exact effect_of_asks hs (.pushScalar value hfull) trivial
  | makePair =>
    rw [act, Action.after_map]
    rcases Nat.lt_or_ge machine.depth 2 with hdepth | hdepth
    · rw [Action.after_of_error (makePair_of_depth_lt hdepth journal output)]
      exact .none
    · exact effect_of_asks hs (.makePair hdepth) trivial
  | pushRoot r =>
    rw [act]
    cases hc : machine.heap.contains r with
    | false =>
      rw [Action.after_of_error (pushRoot_of_not_contains hc journal output)]
      exact .none
    | true =>
      cases hfull : machine.roots.isFull with
      | true =>
        rw [Action.after_of_error (pushRoot_of_isFull hc hfull journal output)]
        exact .none
      | false =>
        rw [Action.after_of_ok (pushRoot_eq_ok hc hfull journal output)]
        exact .rooted hc hfull
  | popRoot =>
    rw [act, Action.after_map]
    rcases popRoot_cases machine journal output with ⟨-, hpop⟩ | ⟨rest, r, hroots, hpop⟩
    · rw [Action.after_of_error hpop]
      exact .none
    · rw [Action.after_of_ok hpop]
      exact .unrooted hroots
  | collect =>
    rw [act, Action.after_map]
    obtain ⟨freed, after, hcollects, hcollect⟩ := collect_eq_ok hs journal output
    rw [Action.after_of_ok hcollect]
    exact .collected hcollects
  | setPair pair first second =>
    obtain ⟨⟨old₁, old₂, hpair⟩, -, -⟩ := h
    rw [act, Action.after_of_ok (onHeap_setPair hpair first second journal output)]
    exact .filled

/-- **One of these is what an operation does**, whether it succeeds or fails. -/
theorem effect (hs : session.state.Sound) (h : op.Resolves session.state) :
    op.Effect session.state (op.act.after session).state := by
  rcases h.legal_or_unchanged with hlegal | hsame
  · exact effect_of_legal hs hlegal
  · rw [hsame]
    exact .none

end Operation

/-! ### Runs that remember -/

/-- An operation of a run, with the session that it was made on. -/
structure Turn where
  session : Session Machine
  op : Operation

/-- What the operation left. -/
def Turn.after (turn : Turn) : Session Machine :=
  turn.op.act.after turn.session

/-- A run with all its turns, the latest first, and what it left. -/
inductive Trail (settings : Settings) : List Turn → Session Machine → Prop where
  | start {machine : Machine} :
      Machine.create settings = .ok machine → Trail settings [] ⟨machine, [], ""⟩
  | step {past : List Turn} {session : Session Machine} (op : Operation) :
      Trail settings past session → op.Resolves session.state →
      Trail settings (⟨session, op⟩ :: past) (op.act.after session)

variable {settings : Settings} {past : List Turn} {session : Session Machine}

theorem Trail.reached (h : Trail settings past session) : Reached settings session := by
  induction h with
  | start hcreate => exact ⟨_, hcreate, .refl⟩
  | @step past session op _ hop ih =>
    rcases hop.legal_or_unchanged with hlegal | hsame
    · obtain ⟨machine, hcreate, hsteps⟩ := ih
      exact ⟨machine, hcreate, hsteps.tail (.mk op hlegal)⟩
    · rwa [hsame]

/-- A turn of a run comes after a run of its own. -/
theorem Trail.exists_of_mem (h : Trail settings past session) {turn : Turn}
    (hturn : turn ∈ past) :
    ∃ earlier, Trail settings earlier turn.session ∧ turn.op.Resolves turn.session.state := by
  induction h with
  | start => exact absurd hturn List.not_mem_nil
  | step op htrail hop ih =>
    rcases List.mem_cons.1 hturn with rfl | hturn
    · exact ⟨_, htrail, hop⟩
    · exact ih hturn

/-- Every run has a trail. -/
theorem Reached.exists_trail (h : Reached settings session) :
    ∃ past, Trail settings past session := by
  obtain ⟨machine, hcreate, hsteps⟩ := h
  induction hsteps with
  | refl => exact ⟨[], .start hcreate⟩
  | tail _ hstep ih =>
    obtain ⟨past, htrail⟩ := ih
    obtain ⟨op, hlegal⟩ := hstep
    exact ⟨_, htrail.step op hlegal.resolves⟩

end MarkSweep
