/-
# What the scenarios need

A scenario passes on every stack that holds `Scenario.roots` roots and under every object limit
that allows `Scenario.cells` live cells, and on no others, whenever collections run.  It fails
for a lack of cells or a lack of roots; it never finds another number of cells than it should.

On a short stack both can be in the way, and what comes first decides.  `Scenario.run_rationed`
and `Scenario.run_breaks` say that with the cells that are live when the stack overflows, and
`Scenario.failure?_run` puts the two into one function of the settings.
-/

import MarkSweep.Proofs.Machine.Rationing
import MarkSweep.Scenario

namespace MarkSweep

namespace Machine

variable {settings : Settings} {roots : List Ref} {cells : List (Ref × Payload)}
  {made most total : Nat} {machine : Machine} {session : Session Machine} {α : Type}
  {v w : Int64} {goal : Ending Machine α → Prop}

/-! ### Parts of programs -/

/-- Two scalars, and what is done with them. -/
theorem Shows.twoScalars {next : Ref → Ref → Action Machine α}
    (h : session.state.Shows settings roots cells made)
    (hroom : roots.length + 2 ≤ settings.stackCapacity) (hmost : cells.length + 2 ≤ most)
    (htotal : made + 2 ≤ total)
    (hnext : ∀ second first after, Allows settings.maxObjects (cells.length + 2) →
      after.state.Shows settings (roots ++ [second, first])
        ((first, .scalar w) :: (second, .scalar v) :: cells) (made + 2) →
      Rationed settings.maxObjects most total goal (next second first after)) :
    Rationed settings.maxObjects most total goal
      ((do
        let second ← Machine.pushScalar v
        let first ← Machine.pushScalar w
        next second first) session) := by
  refine (h.pushScalar (by omega) v).bind (by omega) (by omega) fun second one _ ⟨_, hone⟩ => ?_
  have hroom' : (roots ++ [second]).length < settings.stackCapacity := by
    rw [List.length_append, List.length_singleton]
    omega
  refine (hone.pushScalar hroom' w).bind hmost htotal fun first two hallows ⟨_, htwo⟩ => ?_
  rw [List.append_assoc, List.singleton_append] at htwo
  exact hnext second first two hallows htwo

/-- **Two scalars and a pair of them**, and what is done with the pair. -/
theorem Shows.newPair {next : Ref → Action Machine α}
    (h : session.state.Shows settings roots cells made)
    (hroom : roots.length + 2 ≤ settings.stackCapacity) (hmost : cells.length + 3 ≤ most)
    (htotal : made + 3 ≤ total)
    (hnext : ∀ first second pair after, Allows settings.maxObjects (cells.length + 3) →
      after.state.Shows settings (roots ++ [pair])
        ((pair, .pair (some first) (some second)) :: (first, .scalar w) ::
          (second, .scalar v) :: cells) (made + 3) →
      Rationed settings.maxObjects most total goal (next pair after)) :
    Rationed settings.maxObjects most total goal
      ((do
        let _ ← Machine.pushScalar v
        let _ ← Machine.pushScalar w
        let pair ← Machine.makePair
        next pair) session) := by
  refine h.twoScalars hroom (by omega) (by omega) fun second first two _ htwo => ?_
  exact (htwo.makePair roots second first rfl).bind hmost htotal
    fun pair after hallows hafter => hnext first second pair after hallows hafter.2

/-- With one place left on the stack, the second of two scalars is not asked for. -/
theorem Shows.overflows {next : Ref → Action Machine α}
    (h : session.state.Shows settings roots cells made)
    (hroom : roots.length + 1 = settings.stackCapacity) :
    Rationed settings.maxObjects (cells.length + 1) (made + 1) (Breaks .rootOverflow)
      ((do
        let _ ← Machine.pushScalar v
        let r ← Machine.pushScalar w
        next r) session) := by
  refine (h.pushScalar (by omega) v).bind le_rfl le_rfl fun r after hallows ⟨_, hafter⟩ => ?_
  have hfull : settings.stackCapacity ≤ (roots ++ [r]).length := by
    rw [List.length_append, List.length_singleton, hroom]
  refine Rationed.breaks ?_ next
  rw [hafter.pushScalar_full hfull]
  exact .settled hallows rfl

/-- What the roots lead to, given with the reasons. -/
theorem shows_of_closed (hsound : machine.Sound) (hbalanced : machine.Balanced)
    (hsettings : machine.settings = settings) (hroots : machine.roots.toList = roots)
    (hmade : machine.totals.allocated = made) (hnodup : (cells.map Prod.fst).Nodup)
    (hpayload : ∀ cell ∈ cells, machine.heap.payload? cell.1 = some cell.2)
    (hroot : roots ⊆ cells.map Prod.fst)
    (hclosed : ∀ cell ∈ cells, cell.2.edges ⊆ cells.map Prod.fst)
    (hlive : ∀ cell ∈ cells, cell.1 ∈ machine.live) :
    machine.Shows settings roots cells made where
  sound := hsound
  balanced := hbalanced
  settings := hsettings
  roots := hroots
  nodup := hnodup
  live r := by
    constructor
    · intro hr
      refine hr.of_closed (S := fun r => r ∈ cells.map Prod.fst) (fun s hs => ?_)
        fun s p hs hp => ?_
      · exact hroot (hroots ▸ hs)
      · obtain ⟨cell, hm, rfl⟩ := List.mem_map.1 hs
        obtain rfl := Option.some.inj (hp.symm.trans (hpayload cell hm))
        exact fun t ht => hclosed cell hm ht
    · intro hr
      obtain ⟨cell, hm, rfl⟩ := List.mem_map.1 hr
      exact hlive cell hm
  payload := hpayload
  made := hmade

theorem Balanced.withLinks (h : machine.Balanced) (pair first second : Ref) :
    (machine.withLinks pair first second).Balanced where
  allocated := by
    rw [count, heap_withLinks, Heap.fill, Heap.count_update]
    exact h.allocated
  slotCount := by
    rw [heap_withLinks, Heap.fill, Heap.slotCount_update]
    exact h.slotCount

/-- Two pairs linked to each other, which keep their first links `x` and `y`. -/
def tied (machine : Machine) (a x b y : Ref) : Machine :=
  (machine.withLinks a x b).withLinks b y a

theorem payload?_tied {a b : Ref} (ha : machine.heap.contains a = true)
    (hb : machine.heap.contains b = true) (x y r : Ref) :
    (machine.tied a x b y).heap.payload? r =
      if r = b then some (.pair (some y) (some a))
      else if r = a then some (.pair (some x) (some b)) else machine.heap.payload? r := by
  have hb' : (machine.withLinks a x b).heap.contains b = true := by
    rw [heap_withLinks, Heap.contains_fill, hb]
  rw [tied, heap_withLinks, Heap.payload?_fill hb', heap_withLinks, Heap.payload?_fill ha]

theorem Sound.tied (h : machine.Sound) {a x b y : Ref} (ha : machine.heap.contains a = true)
    (hx : machine.heap.contains x = true) (hb : machine.heap.contains b = true)
    (hy : machine.heap.contains y = true) : (machine.tied a x b y).Sound := by
  have hkeeps : ∀ r, (machine.withLinks a x b).heap.contains r = machine.heap.contains r :=
    Heap.contains_fill _ _ _ _
  refine (h.withLinks ha hx hb).withLinks ?_ ?_ ?_
  · rw [hkeeps, hb]
  · rw [hkeeps, hy]
  · rw [hkeeps, ha]

/-- **A cycle lets go of what its links held before.**  Of two pairs of two cells each, four
cells are left. -/
theorem Shows.tied {a b x x' y y' : Ref} {p q : Payload}
    (h : machine.Shows settings [a, b]
      [(b, .pair (some y) (some y')), (y, .scalar w), (y', q), (a, .pair (some x) (some x')),
        (x, .scalar v), (x', p)] made) :
    (machine.tied a x b y).Shows settings [a, b]
      [(a, .pair (some x) (some b)), (b, .pair (some y) (some a)), (x, .scalar v),
        (y, .scalar w)] made := by
  have hnodup := h.nodup
  simp only [List.map_cons, List.map_nil, List.nodup_cons, List.mem_cons, List.not_mem_nil,
    or_false, not_or] at hnodup
  obtain ⟨⟨hby, -, hba, hbx, -⟩, ⟨-, hya, hyx, -⟩, -, ⟨hax, -⟩, -⟩ := hnodup
  have hheld := h.payload
  simp only [List.forall_mem_cons] at hheld
  obtain ⟨hb, hy, -, ha, hx, -, -⟩ := hheld
  have hcontains : ∀ {r payload}, machine.heap.payload? r = some payload →
      machine.heap.contains r = true := fun hr => Heap.contains_iff_payload?.2 ⟨_, hr⟩
  have hpayload := payload?_tied (hcontains ha) (hcontains hb) x y
  have ha' := hpayload a
  rw [if_neg (Ne.symm hba), if_pos rfl] at ha'
  have hb' := hpayload b
  rw [if_pos rfl] at hb'
  have hx' := hpayload x
  rw [if_neg (Ne.symm hbx), if_neg (Ne.symm hax), hx] at hx'
  have hy' := hpayload y
  rw [if_neg (Ne.symm hby), if_neg hya, hy] at hy'
  -- the second links are replaced, so `x'` and `y'` are no longer led to
  have hroots : (machine.tied a x b y).roots.toList = [a, b] := h.roots
  have hliveA : a ∈ (machine.tied a x b y).live := .root (hroots ▸ List.mem_cons_self)
  have hliveB : b ∈ (machine.tied a x b y).live :=
    .root (hroots ▸ List.mem_cons_of_mem a List.mem_cons_self)
  refine shows_of_closed (h.sound.tied (hcontains ha) (hcontains hx) (hcontains hb)
    (hcontains hy)) ((h.balanced.withLinks a x b).withLinks b y a) h.settings hroots h.made
    ?_ ?_ ?_ ?_ ?_
  · simp [Ne.symm hba, hax, Ne.symm hya, hbx, hby, Ne.symm hyx]
  · simp [ha', hb', hx', hy']
  · simp
  · simp [Payload.edges, Payload.first?, Payload.second?]
  · have hliveX : x ∈ (machine.tied a x b y).live := .edge hliveA ha' List.mem_cons_self
    have hliveY : y ∈ (machine.tied a x b y).live := .edge hliveB hb' List.mem_cons_self
    simp [hliveA, hliveB, hliveX, hliveY]

theorem firstOf_eq_ok {pair first : Ref} {second? : Option Ref}
    (h : machine.heap.payload? pair = some (.pair (some first) second?)) (journal : List Record)
    (output : String) :
    firstOf pair ⟨machine, journal, output⟩ = .ok first ⟨machine, journal, output⟩ := by
  obtain ⟨cell, hcell, hpayload⟩ := Option.map_eq_some_iff.1 h
  simp only [firstOf, Action.bind_apply, Action.observe_apply, hcell, Option.bind_some, hpayload,
    Payload.first?, Action.pure_apply]

/-- Two pairs are linked to each other, each by its second link. -/
theorem tie_eq_ok {a b x y : Ref} {x'? y'? : Option Ref} (hab : b ≠ a)
    (ha : machine.heap.payload? a = some (.pair (some x) x'?))
    (hb : machine.heap.payload? b = some (.pair (some y) y'?)) (journal : List Record)
    (output : String) :
    (do
      let firstOfA ← firstOf a
      let firstOfB ← firstOf b
      onHeap (Heap.setPair a firstOfA b)
      onHeap (Heap.setPair b firstOfB a)) ⟨machine, journal, output⟩ =
      .ok () ⟨machine.tied a x b y, journal, output⟩ := by
  have hb' : (machine.withLinks a x b).heap.payload? b = some (.pair (some y) y'?) := by
    rw [heap_withLinks, Heap.payload?_fill (Heap.contains_iff_payload?.2 ⟨_, ha⟩), if_neg hab, hb]
  simp only [Action.bind_apply, firstOf_eq_ok ha, firstOf_eq_ok hb, onHeap_setPair ha,
    onHeap_setPair hb']
  rfl

/-- A cycle of two pairs stands on the stack. -/
theorem Shows.buildCycle (h : session.state.Shows settings [] [] 0)
    (hcapacity : 3 ≤ settings.stackCapacity) :
    Rationed settings.maxObjects 6 6
      (Answers fun _ after =>
        ∃ a b cells, after.state.Shows settings [a, b] cells 6 ∧ cells.length = 4)
      (buildCycle session) := by
  refine h.newPair (Nat.le_of_succ_le hcapacity) (by decide) (by decide) fun x x' a one _ hone => ?_
  refine hone.newPair hcapacity le_rfl le_rfl fun y y' b two hallows htwo => ?_
  obtain ⟨machine, journal, output⟩ := two
  have hnodup := htwo.nodup
  have hheld := htwo.payload
  simp only [List.forall_mem_cons] at hheld
  obtain ⟨hb, -, -, ha, -⟩ := hheld
  have hba : b ≠ a := by
    rintro rfl
    simp at hnodup
  rw [tie_eq_ok hba ha hb]
  exact .settled hallows ⟨a, b, _, htwo.tied, rfl⟩

/-- Two roots are dropped, and nothing is live. -/
theorem Shows.dropBoth {a b : Ref} (h : session.state.Shows settings [a, b] cells made)
    (hallows : Allows settings.maxObjects most) :
    Rationed settings.maxObjects most made
      (Answers fun _ after => after.state.Shows settings [] [] made)
      ((do
        let _ ← Machine.popRoot
        let _ ← Machine.popRoot) session) := by
  refine (h.popRoot [a] b rfl).bind (Nat.zero_le _) (Nat.zero_le _) fun _ one _ ⟨_, _, hone⟩ => ?_
  refine (hone.popRoot [] a rfl).bind (Nat.zero_le _) (Nat.zero_le _)
    fun _ two _ ⟨_, cells', htwo⟩ => ?_
  obtain rfl := htwo.cells_eq_nil
  exact .settled hallows htwo

end Machine

namespace Scenario

open Machine

/-- How many roots a scenario has at once. -/
def roots : Scenario → Nat
  | .rootedScalars | .droppedScalars => 2
  | .nestedPairs | .rootedCycle | .droppedCycle => 3

/-- How many live cells a scenario has at once. -/
def cells : Scenario → Nat
  | .rootedScalars | .droppedScalars => 2
  | .nestedPairs => 7
  | .rootedCycle | .droppedCycle => 6

/-- How many cells are live on a stack that is too short, when it overflows. -/
def cellsAtOverflow (stackCapacity : Nat) : Nat :=
  if stackCapacity = 1 then 1 else 4

variable {settings : Settings} {scenario : Scenario} {session : Session Machine} {dump : Bool}

/-- **A scenario builds what it should**, given the cells. -/
theorem build_rationed (h : session.state.Shows settings [] [] 0)
    (hcapacity : scenario.roots ≤ settings.stackCapacity) :
    Rationed settings.maxObjects scenario.cells scenario.cells
      (Answers fun _ after => ∃ roots cells made,
        after.state.Shows settings roots cells made ∧ cells.length = scenario.expected)
      (scenario.build session) := by
  cases scenario with
  | rootedScalars =>
    refine h.twoScalars hcapacity le_rfl le_rfl fun _ _ two hallows htwo => ?_
    exact .settled hallows ⟨_, _, _, htwo, rfl⟩
  | droppedScalars =>
    refine h.twoScalars hcapacity le_rfl le_rfl fun _ _ two hallows htwo => ?_
    exact (htwo.dropBoth hallows).imp fun h => h.imp fun _ _ hnone => ⟨_, _, _, hnone, rfl⟩
  | nestedPairs =>
    refine h.newPair (Nat.le_of_succ_le hcapacity) (by decide) (by decide)
      fun _ _ first one _ hone => ?_
    refine hone.newPair hcapacity (Nat.le_succ 6) (Nat.le_succ 6) fun _ _ second two _ htwo => ?_
    refine (htwo.makePair [] first second rfl).bind le_rfl le_rfl
      fun _ three hallows ⟨_, hthree⟩ => ?_
    exact .settled hallows ⟨_, _, _, hthree, rfl⟩
  | rootedCycle =>
    refine (h.buildCycle hcapacity).imp fun hcycle => hcycle.imp fun _ after hafter => ?_
    obtain ⟨a, b, cells, hcells, hlength⟩ := hafter
    exact ⟨_, _, _, hcells, hlength⟩
  | droppedCycle =>
    refine (h.buildCycle hcapacity).bind le_rfl le_rfl fun _ one hallows hone => ?_
    obtain ⟨a, b, _, hone, -⟩ := hone
    exact (hone.dropBoth hallows).imp fun h => h.imp fun _ _ hnone => ⟨_, _, _, hnone, rfl⟩

/-- **On a short stack it breaks off**, given the cells up to there. -/
theorem build_breaks (h : session.state.Shows settings [] [] 0)
    (hpos : 0 < settings.stackCapacity) (hcapacity : settings.stackCapacity < scenario.roots) :
    Rationed settings.maxObjects (cellsAtOverflow settings.stackCapacity)
      (cellsAtOverflow settings.stackCapacity) (Breaks .rootOverflow)
      (scenario.build session) := by
  obtain hone | ⟨htwo, hthree⟩ : settings.stackCapacity = 1 ∨
      settings.stackCapacity = 2 ∧ scenario.roots = 3 := by
    have : scenario.roots = 2 ∨ scenario.roots = 3 := by cases scenario <;> decide
    omega
  · rw [hone]
    cases scenario with
    | droppedCycle => exact Rationed.breaks (h.overflows hone.symm) _
    | _ => exact h.overflows hone.symm
  · -- the first pair is made, and the second scalar of the next one finds the stack full
    rw [htwo]
    have hroom : 0 + 2 ≤ settings.stackCapacity := htwo.ge
    cases scenario with
    | rootedScalars => cases hthree
    | droppedScalars => cases hthree
    | droppedCycle =>
      refine Rationed.breaks ?_ _
      exact h.newPair hroom (by decide) (by decide) fun _ _ _ _ _ hone => hone.overflows htwo.symm
    | _ =>
      exact h.newPair hroom (by decide) (by decide) fun _ _ _ _ _ hone => hone.overflows htwo.symm

/-! ### The check -/

/-- What a dump adds to the output. -/
def dumped (dump : Bool) (machine : Machine) : String :=
  if dump then
    s!"--- Roots ({machine.depth}):\n" ++ machine.dumpRoots ++ machine.heap.dump
  else
    ""

/-- What is made of a collection. -/
def judge (scenario : Scenario) (stats : Collection) : Action Machine Collection := do
  if stats.remaining ≠ scenario.expected then
    throw (.mismatch scenario.name scenario.expected stats.remaining)
  Action.record (.scenarioPassed scenario.name stats.collected stats.remaining)
  return stats

/-- After the collection, a dump does no more than print. -/
theorem check_eq (scenario : Scenario) (dump : Bool) :
    scenario.check dump = (do
      scenario.build
      let stats ← collect
      let text ← Action.observe (dumped dump)
      Action.print text
      scenario.judge stats) := by
  unfold check
  refine bind_congr fun _ => bind_congr fun stats => funext fun ⟨machine, journal, output⟩ => ?_
  cases dump with
  | false =>
    show scenario.judge stats ⟨machine, journal, output⟩ =
      scenario.judge stats ⟨machine, journal, output ++ ""⟩
    rw [String.append_empty]
  | true =>
    show scenario.judge stats ⟨machine, journal, output ++ _ ++ _⟩ =
      scenario.judge stats ⟨machine, journal, output ++ (_ ++ _)⟩
    rw [String.append_assoc]

theorem judge_of_expected {stats : Collection} (h : stats.remaining = scenario.expected)
    (machine : Machine) (journal : List Record) (output : String) :
    scenario.judge stats ⟨machine, journal, output⟩ =
      .ok stats ⟨machine, .scenarioPassed scenario.name stats.collected stats.remaining :: journal,
        output⟩ := by
  simp [judge, h]

/-- **A scenario passes**, given the roots and the cells. -/
theorem check_rationed (h : session.state.Shows settings [] [] 0)
    (hcapacity : scenario.roots ≤ settings.stackCapacity) (dump : Bool) :
    Rationed settings.maxObjects scenario.cells scenario.cells
      (Answers fun stats _ =>
        stats.marked = scenario.expected ∧ stats.remaining = scenario.expected)
      (scenario.check dump session) := by
  rw [check_eq]
  refine (build_rationed h hcapacity).bind le_rfl le_rfl fun _ built hallows hbuilt => ?_
  obtain ⟨roots, cells, made, hshows, hlength⟩ := hbuilt
  refine hshows.collect.bind (Nat.zero_le _) (Nat.zero_le _) fun stats swept _ hstats => ?_
  obtain ⟨-, -, hmarked, hremaining, -⟩ := hstats
  obtain ⟨machine, journal, output⟩ := swept
  refine .settled hallows ?_
  simp only [Action.bind_apply, Action.observe_apply, Action.print_apply,
    judge_of_expected (hremaining.trans hlength)]
  exact ⟨hmarked.trans hlength, hremaining.trans hlength⟩

theorem run_rationed (haccepted : settings.rejected? = none)
    (hcapacity : scenario.roots ≤ settings.stackCapacity) (dump : Bool)
    (session : Session Unit) :
    Rationed settings.maxObjects scenario.cells scenario.cells
      (Answers fun stats _ =>
        stats.marked = scenario.expected ∧ stats.remaining = scenario.expected)
      (scenario.run settings dump session) :=
  rationed_within haccepted (fun _ h => check_rationed h hcapacity dump)
    fun _ => Answers.released fun (stats : Collection) _ =>
      stats.marked = scenario.expected ∧ stats.remaining = scenario.expected

theorem run_breaks (haccepted : settings.rejected? = none)
    (hcapacity : settings.stackCapacity < scenario.roots) (dump : Bool)
    (session : Session Unit) :
    Rationed settings.maxObjects (cellsAtOverflow settings.stackCapacity)
      (cellsAtOverflow settings.stackCapacity) (Breaks .rootOverflow)
      (scenario.run settings dump session) := by
  have hpos := Settings.pos_of_value? haccepted .stackCapacity rfl
  refine rationed_within haccepted (fun _ h => ?_) fun _ => Breaks.released
  rw [check_eq]
  exact Rationed.breaks (build_breaks h hpos hcapacity) _

/-- What a scenario fails with under some settings. -/
def verdict? (settings : Settings) (scenario : Scenario) : Option Failure :=
  if scenario.roots ≤ settings.stackCapacity then
    shortage? settings.maxObjects scenario.cells
  else
    some ((shortage? settings.maxObjects (cellsAtOverflow settings.stackCapacity)).getD
      (.fault .rootOverflow))

/-- **The settings decide how a scenario ends**: the stack capacity and the object limit, and
no others. -/
theorem failure?_run (haccepted : settings.rejected? = none) (scenario : Scenario) (dump : Bool)
    (session : Session Unit) :
    (scenario.run settings dump).failure? session = scenario.verdict? settings := by
  unfold verdict?
  split_ifs with hcapacity
  · have hrun := run_rationed haccepted hcapacity dump session
    have hcells : scenario.cells ≤ Heap.maxSlots := by cases scenario <;> decide
    exact hrun.failure?_eq (hrun.has_space (fun _ => not_answers_error) hcells)
  · have hrun := run_breaks haccepted (Nat.lt_of_not_le hcapacity) dump session
    have hcells : cellsAtOverflow settings.stackCapacity ≤ Heap.maxSlots := by
      unfold cellsAtOverflow
      split_ifs <;> decide
    exact hrun.failure?_eq_of_breaks (hrun.has_space (fun _ => not_breaks_outOfMemory) hcells)

theorem verdict?_cases (settings : Settings) (scenario : Scenario) :
    (scenario.roots ≤ settings.stackCapacity ∧ Allows settings.maxObjects scenario.cells ∧
      scenario.verdict? settings = none) ∨
    (∃ limit ∈ settings.maxObjects,
      scenario.verdict? settings = some (.heapExhausted limit limit)) ∨
    settings.stackCapacity < scenario.roots ∧
      scenario.verdict? settings = some (.fault .rootOverflow) := by
  unfold verdict?
  split_ifs with hcapacity
  · rcases shortage?_cases settings.maxObjects scenario.cells with
      ⟨hallows, hnone⟩ | ⟨limit, hlimit, -, hsome⟩
    · exact Or.inl ⟨hcapacity, hallows, hnone⟩
    · exact Or.inr (Or.inl ⟨limit, hlimit, hsome⟩)
  · rcases shortage?_cases settings.maxObjects (cellsAtOverflow settings.stackCapacity) with
      ⟨-, hnone⟩ | ⟨limit, hlimit, -, hsome⟩
    · rw [hnone]
      exact Or.inr (Or.inr ⟨Nat.lt_of_not_le hcapacity, rfl⟩)
    · rw [hsome]
      exact Or.inr (Or.inl ⟨limit, hlimit, rfl⟩)

/-! ### Dumps -/

section Dumps

variable {σ α β : Type}

/-- An ending without what was printed. -/
def muted : Ending σ α → Ending σ α
  | .ok a ⟨state, journal, _⟩ => .ok a ⟨state, journal, ""⟩
  | .error failure ⟨state, journal, _⟩ => .error failure ⟨state, journal, ""⟩

theorem muted_bind {act : Action σ α} {next next' : α → Action σ β} {session : Session σ}
    (h : ∀ a after, muted (next a after) = muted (next' a after)) :
    muted ((act >>= next) session) = muted ((act >>= next') session) := by
  rw [Action.bind_apply, Action.bind_apply]
  cases act session with
  | ok a after => exact h a after
  | error => rfl

theorem muted_released (ending : Ending Machine α) :
    muted (released ending) = released (muted ending) := by
  cases ending <;> rfl

end Dumps

theorem muted_judge (scenario : Scenario) (stats : Collection) (machine : Machine)
    (journal : List Record) (output output' : String) :
    muted (scenario.judge stats ⟨machine, journal, output⟩) =
      muted (scenario.judge stats ⟨machine, journal, output'⟩) := by
  unfold judge
  split_ifs <;> rfl

/-- With a dump and without one, a scenario goes the same way. -/
theorem muted_check (scenario : Scenario) (dump dump' : Bool) (session : Session Machine) :
    muted (scenario.check dump session) = muted (scenario.check dump' session) := by
  rw [check_eq, check_eq]
  exact muted_bind fun _ _ => muted_bind fun stats swept => muted_judge scenario stats ..

theorem muted_run (haccepted : settings.rejected? = none) (scenario : Scenario)
    (dump dump' : Bool) (session : Session Unit) :
    muted (scenario.run settings dump session) = muted (scenario.run settings dump' session) := by
  rw [run, run, within_eq haccepted, within_eq haccepted, muted_released, muted_released,
    muted_check]

/-! ### The scenarios -/

/-- A scenario raises no false alarm under some settings. -/
structure NoFalseAlarm (settings : Settings) (scenario : Scenario)
    (act : Action Unit Collection) (session : Session Unit) : Prop where
  passes_iff : act.failure? session = none ↔
    scenario.roots ≤ settings.stackCapacity ∧ Allows settings.maxObjects scenario.cells
  counts : ∀ stats after, act session = .ok stats after →
    stats.marked = scenario.expected ∧ stats.remaining = scenario.expected
  exhausted : scenario.roots ≤ settings.stackCapacity →
    ∀ limit ∈ settings.maxObjects, limit < scenario.cells →
      act.failure? session = some (.heapExhausted limit limit)
  short : settings.stackCapacity < scenario.roots →
    act.failure? session = some (.fault .rootOverflow) ∨
      ∃ limit ∈ settings.maxObjects, act.failure? session = some (.heapExhausted limit limit)
  no_mismatch : ∀ name expected found,
    act.failure? session ≠ some (.mismatch name expected found)
  faults : ∀ cause, act.failure? session = some (.fault cause) → cause = .rootOverflow

/-- **The scenarios raise no false alarm.**  Whatever the settings are, a scenario passes if the
stack holds its roots and the limit allows its cells, and says what is missing if not; and a
dump does no more than print. -/
theorem no_false_alarm (haccepted : settings.rejected? = none) (scenario : Scenario)
    (session : Session Unit) :
    (∀ dump, NoFalseAlarm settings scenario (scenario.run settings dump) session) ∧
      ∀ dump dump', muted (scenario.run settings dump session) =
        muted (scenario.run settings dump' session) := by
  refine ⟨fun dump => ?_, fun dump dump' => muted_run haccepted scenario dump dump' session⟩
  have hverdict := failure?_run haccepted scenario dump session
  have hcases := verdict?_cases settings scenario
  have hpasses : (scenario.run settings dump).failure? session = none ↔
      scenario.roots ≤ settings.stackCapacity ∧ Allows settings.maxObjects scenario.cells := by
    rw [hverdict, verdict?]
    split_ifs with hcapacity
    · rw [shortage?_eq_none_iff, and_iff_right hcapacity]
    · simp [hcapacity]
  rw [← hverdict] at hcases
  constructor
  · exact hpasses
  · intro stats after hok
    have hcapacity := (hpasses.1 (Action.failure?_of_ok hok)).1
    exact (hok ▸ run_rationed haccepted hcapacity dump session).good_of_ok
  · intro hcapacity limit hlimit hlt
    rw [hverdict, verdict?, if_pos hcapacity, shortage?_of_lt hlimit hlt]
  · intro hshort
    rcases hcases with ⟨hcapacity, -⟩ | hexhausted | ⟨-, hoverflow⟩
    · omega
    · exact Or.inr hexhausted
    · exact Or.inl hoverflow
  · intro name expected found hmismatch
    rcases hcases with ⟨-, -, h⟩ | ⟨limit, -, h⟩ | ⟨-, h⟩ <;> rw [hmismatch] at h <;> cases h
  · intro cause hfault
    rcases hcases with ⟨-, -, h⟩ | ⟨limit, -, h⟩ | ⟨-, h⟩ <;> rw [hfault] at h <;> cases h
    rfl

/-- A machine that collects at every allocation, with just enough places on the stack. -/
def crammed : Settings :=
  { stackCapacity := 3, initialThreshold := 1, growthFactor := 1, maxObjects := some 6 }

/-- It holds six cells.  The nested pairs are stopped before the last of them, and the cycles
are built. -/
theorem crammed_no_false_alarm : crammed.rejected? = none ∧
    (nestedPairs.run crammed true).failure? ⟨(), [], ""⟩ = some (.heapExhausted 6 6) ∧
      (rootedCycle.run crammed true).failure? ⟨(), [], ""⟩ = none := by
  have haccepted : crammed.rejected? = none := by decide
  have hnested := (no_false_alarm haccepted nestedPairs ⟨(), [], ""⟩).1 true
  have hcycle := (no_false_alarm haccepted rootedCycle ⟨(), [], ""⟩).1 true
  exact ⟨haccepted, hnested.exhausted le_rfl 6 rfl (by decide),
    hcycle.passes_iff.2 ⟨le_rfl, allows_some_iff.2 le_rfl⟩⟩

end Scenario

end MarkSweep
