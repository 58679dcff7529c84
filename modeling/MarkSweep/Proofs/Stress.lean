/-
# What the stress run needs

A round of the stress run has up to `2 * batch - 1` live cells, a scalar for each place of the
batch and a pair for each two of them, and leaves none.  So one number decides whether the run
comes to its end, however many rounds there are and whenever collections run
(`Stress.run_rationed`), and at the end all that was allocated has been freed.

The rounds are three loops, one inside the other, and the cells themselves do not matter to
them: `Machine.Holds` keeps of the picture of a machine how many roots and live cells there
are.
-/

import MarkSweep.Proofs.Machine.Rationing
import MarkSweep.Stress

namespace MarkSweep

/-- So many cells were made, and all of them freed again. -/
structure Totals.Even (totals : Totals) (made : Nat) : Prop where
  allocated : totals.allocated = made
  collected : totals.collected = made
  collections : 1 ≤ totals.collections

namespace Machine

variable {settings : Settings} {printed : String} {depth live made : Nat}
  {session : Session Machine}

/-- There are so many roots and live cells, so many cells were made, and this was printed. -/
def Holds (settings : Settings) (printed : String) (depth live made : Nat)
    (session : Session Machine) : Prop :=
  session.output = printed ∧ ∃ roots cells,
    session.state.Shows settings roots cells made ∧ roots.length = depth ∧ cells.length = live

theorem Holds.allows (h : Holds settings printed depth live made session) :
    Allows settings.maxObjects live := by
  obtain ⟨-, roots, cells, hshows, -, rfl⟩ := h
  exact hshows.allows

theorem Holds.depth_eq (h : Holds settings printed depth live made session) :
    session.state.depth = depth := by
  obtain ⟨-, roots, cells, hshows, rfl, -⟩ := h
  rw [Machine.depth_eq, hshows.roots]

theorem Holds.pushScalar (h : Holds settings printed depth live made session)
    (hroom : depth < settings.stackCapacity) (value : Int64) :
    Rationed settings.maxObjects (live + 1) (made + 1)
      (Answers fun _ => Holds settings printed (depth + 1) (live + 1) (made + 1))
      (pushScalar value session) := by
  obtain ⟨rfl, roots, cells, hshows, rfl, rfl⟩ := h
  refine (hshows.pushScalar hroom value).imp fun h => h.imp fun r after hafter => ?_
  exact ⟨hafter.1, _, _, hafter.2, by simp, rfl⟩

theorem Holds.makePair (h : Holds settings printed (depth + 2) live made session) :
    Rationed settings.maxObjects (live + 1) (made + 1)
      (Answers fun _ => Holds settings printed (depth + 1) (live + 1) (made + 1))
      (makePair session) := by
  have hdepth : 2 ≤ session.state.depth := by
    rw [h.depth_eq]
    omega
  obtain ⟨rest, second, first, hroots⟩ := exists_roots_eq hdepth
  obtain ⟨rfl, roots, cells, hshows, hlength, rfl⟩ := h
  rw [hshows.roots] at hroots
  subst hroots
  refine (hshows.makePair rest second first rfl).imp fun h => h.imp fun r after hafter => ?_
  exact ⟨hafter.1, _, _, hafter.2, by simpa using hlength, rfl⟩

/-- With the last root all that it leads to is dropped. -/
theorem Holds.popRoot (h : Holds settings printed 1 live made session) :
    Rationed settings.maxObjects 0 0 (Answers fun _ => Holds settings printed 0 0 made)
      (popRoot session) := by
  obtain ⟨rfl, roots, cells, hshows, hlength, -⟩ := h
  obtain ⟨r, rfl⟩ := List.length_eq_one_iff.1 hlength
  refine (hshows.popRoot [] r rfl).imp fun h => h.imp fun _ after hafter => ?_
  obtain ⟨hprinted, cells', hafter⟩ := hafter
  exact ⟨hprinted, _, _, hafter, rfl, congrArg List.length hafter.cells_eq_nil⟩

end Machine

namespace Stress

open Machine

variable {settings : Settings} {printed : String} {depth live made size : Nat}
  {session : Session Machine}

/-! ### The loops -/

/-- Filling the stack. -/
theorem pushScalars_rationed (n start : Nat)
    (h : Holds settings printed depth live made session)
    (hroom : depth + n ≤ settings.stackCapacity) :
    Rationed settings.maxObjects (live + n) (made + n)
      (Answers fun _ => Holds settings printed (depth + n) (live + n) (made + n))
      (pushScalars start n session) := by
  induction n generalizing start depth live made session with
  | zero => exact .settled h.allows h
  | succ n ih =>
    have hnext : ∀ k, k + (n + 1) = k + 1 + n := fun k => by omega
    rw [hnext] at hroom
    rw [hnext, hnext, hnext]
    exact (h.pushScalar (by omega) _).bind (by omega) (by omega) fun _ after _ hafter =>
      ih (start + 1) hafter hroom

/-- Folding it: a pair takes the place of two roots, and keeps them. -/
theorem makePairs_rationed (n : Nat)
    (h : Holds settings printed (depth + 1 + n) live made session) :
    Rationed settings.maxObjects (live + n) (made + n)
      (Answers fun _ => Holds settings printed (depth + 1) (live + n) (made + n))
      (makePairs n session) := by
  induction n generalizing live made session with
  | zero => exact .settled h.allows h
  | succ n ih =>
    have hnext : ∀ k, k + (n + 1) = k + 1 + n := fun k => by omega
    have hdepth : depth + 1 + (n + 1) = depth + n + 2 := by omega
    have hdepth' : depth + n + 1 = depth + 1 + n := by omega
    rw [hdepth] at h
    rw [hnext, hnext]
    refine h.makePair.bind (by omega) (by omega) fun _ after _ hafter => ih ?_
    rwa [hdepth'] at hafter

/-- **A round** fills the stack, folds it, and drops the pair that is left. -/
theorem round_rationed (index : Nat) (h : Holds settings printed 0 0 made session)
    (hpos : 0 < size) (hroom : size ≤ settings.stackCapacity) :
    Rationed settings.maxObjects (2 * size - 1) (made + (2 * size - 1))
      (Answers fun _ => Holds settings printed 0 0 (made + (2 * size - 1)))
      (round size index session) := by
  obtain ⟨n, rfl⟩ : ∃ n, size = 0 + 1 + n := ⟨size - 1, by omega⟩
  have htwice : 2 * (0 + 1 + n) - 1 = 0 + 1 + n + n := by omega
  rw [htwice, ← Nat.add_assoc made]
  have hfill := pushScalars_rationed (0 + 1 + n) (index * (0 + 1 + n)) h (by omega)
  rw [Nat.zero_add (0 + 1 + n)] at hfill
  refine hfill.bind (by omega) (by omega) fun _ filled _ hfilled => ?_
  rw [Action.bind_apply, Action.observe_apply, hfilled.depth_eq]
  have hpairs : 0 + 1 + n - 1 = n := by omega
  show Rationed _ _ _ _ ((makePairs (0 + 1 + n - 1) >>= _) filled)
  rw [hpairs]
  refine (makePairs_rationed n hfilled).bind le_rfl le_rfl fun _ folded hallows hfolded => ?_
  refine hfolded.popRoot.bind (Nat.zero_le _) (Nat.zero_le _) fun _ dropped _ hdropped => ?_
  exact .settled hallows hdropped

/-- How many live cells a run has at once. -/
def cells (size rounds : Nat) : Nat :=
  if rounds = 0 then 0 else 2 * size - 1

theorem allows_cells_iff {limit? : Option Nat} {n : Nat} :
    Allows limit? (cells size n) ↔ n = 0 ∨ Allows limit? (2 * size - 1) := by
  unfold cells
  split_ifs with hn
  · exact iff_of_true (fun _ _ => Nat.zero_le _) (Or.inl hn)
  · rw [or_iff_right hn]

theorem lt_cells_iff {limit n : Nat} :
    limit < cells size n ↔ n ≠ 0 ∧ limit < 2 * size - 1 := by
  unfold cells
  split_ifs <;> omega

theorem rounds_rationed (n index : Nat) (h : Holds settings printed 0 0 made session)
    (hpos : 0 < size) (hroom : size ≤ settings.stackCapacity) :
    Rationed settings.maxObjects (cells size n) (made + n * (2 * size - 1))
      (Answers fun _ => Holds settings printed 0 0 (made + n * (2 * size - 1)))
      (rounds size index n session) := by
  induction n generalizing index made session with
  | zero =>
    rw [Nat.zero_mul]
    exact .settled h.allows h
  | succ n ih =>
    have hsum : made + (n + 1) * (2 * size - 1) =
        made + (2 * size - 1) + n * (2 * size - 1) := by
      rw [Nat.add_one_mul, Nat.add_comm (n * _), Nat.add_assoc]
    have hcells : cells size n ≤ 2 * size - 1 := by
      unfold cells
      split_ifs <;> omega
    show Rationed _ (2 * size - 1) _ _ _
    rw [hsum]
    refine (round_rationed index h hpos hroom).bind le_rfl (by omega)
      fun _ after hallows hafter => ?_
    -- a round leaves nothing, so the next one starts from no live cells and needs as many again
    exact (ih (index + 1) hafter).mono hcells le_rfl hallows

/-! ### The run -/

/-- The rounds and the last collection leave nothing, and all of it has been counted. -/
theorem drill_rationed {machine : Machine} (n : Nat) (h : machine.Shows settings [] [] 0)
    (hpos : 0 < batch settings) (journal : List Record) (output : String) :
    Rationed settings.maxObjects (cells (batch settings) n) (n * (2 * batch settings - 1))
      (Answers fun totals after => totals.Even (n * (2 * batch settings - 1)) ∧
        after.output = output)
      (drill n ⟨machine, journal, output⟩) := by
  have hholds : Holds settings output 0 0 0 ⟨machine, journal, output⟩ :=
    ⟨rfl, [], [], h, rfl, rfl⟩
  have hrounds := rounds_rationed n 0 hholds hpos (Nat.min_le_left ..)
  rw [Nat.zero_add] at hrounds
  unfold drill
  rw [Action.bind_apply, Action.observe_apply]
  show Rationed _ _ _ _ ((rounds (batch machine.settings) 0 n >>= _) _)
  rw [h.settings]
  refine hrounds.bind le_rfl le_rfl fun _ worked hallows hworked => ?_
  obtain ⟨hprinted, roots, left, hworked, -, hnone⟩ := hworked
  refine hworked.collect.bind (Nat.zero_le _) (Nat.zero_le _) fun stats swept _ hstats => ?_
  obtain ⟨hprinted', hswept, -, -, hcount, hcollections⟩ := hstats
  have hbalance := hswept.balanced.allocated
  rw [hcount, hnone, hswept.made] at hbalance
  exact .settled hallows
    ⟨⟨hswept.made, hbalance.symm, hcollections⟩, hprinted'.trans hprinted⟩

theorem batch_pos (haccepted : settings.rejected? = none) : 0 < batch settings := by
  have hpos : 0 < settings.stackCapacity := Settings.pos_of_value? haccepted .stackCapacity rfl
  unfold batch
  omega

theorem run_rationed (haccepted : settings.rejected? = none) (n : Nat) (session : Session Unit) :
    Rationed settings.maxObjects (cells (batch settings) n) (n * (2 * batch settings - 1))
      (Answers fun totals after => totals.Even (n * (2 * batch settings - 1)) ∧
        after.output = session.output)
      (run settings n session) :=
  rationed_within haccepted (fun _ h => drill_rationed n h (batch_pos haccepted) _ _) fun _ =>
    Answers.released fun (totals : Totals) output =>
      totals.Even (n * (2 * batch settings - 1)) ∧ output = session.output

theorem failure?_run (haccepted : settings.rejected? = none) (n : Nat) (session : Session Unit)
    (hspace : (run settings n).failure? session ≠ some .outOfMemory) :
    (run settings n).failure? session =
      shortage? settings.maxObjects (cells (batch settings) n) :=
  (run_rationed haccepted n session).failure?_eq hspace

/-- A stress run accounts for every cell.  The arena gets full at most if it is asked for more
cells than it has slots, and but for that the object limit alone decides. -/
structure Accounts (settings : Settings) (n : Nat) (act : Action Unit Totals)
    (session : Session Unit) : Prop where
  no_fault : ∀ cause, act.failure? session ≠ some (.fault cause)
  outOfMemory : act.failure? session = some .outOfMemory →
    Heap.maxSlots < n * (2 * batch settings - 1)
  succeeds : act.failure? session ≠ some .outOfMemory →
    n = 0 ∨ Allows settings.maxObjects (2 * batch settings - 1) →
    ∃ totals after, act session = .ok totals after ∧
      totals.allocated = n * (2 * batch settings - 1) ∧
      totals.collected = n * (2 * batch settings - 1)
  exhausted : act.failure? session ≠ some .outOfMemory → n ≠ 0 →
    ∀ limit ∈ settings.maxObjects, limit < 2 * batch settings - 1 →
      act.failure? session = some (.heapExhausted limit limit)

/-- **The stress run accounts for everything**, under all settings. -/
theorem run_accounts (haccepted : settings.rejected? = none) (n : Nat)
    (session : Session Unit) : Accounts settings n (run settings n) session := by
  have hrun := run_rationed haccepted n session
  constructor
  · intro cause hfault
    have hspace : (run settings n).failure? session ≠ some .outOfMemory := by simp [hfault]
    rw [failure?_run haccepted n session hspace] at hfault
    rcases shortage?_cases settings.maxObjects (cells (batch settings) n) with
      ⟨-, h⟩ | ⟨limit, -, -, h⟩ <;> rw [hfault] at h <;> cases h
  · intro hfull
    by_contra hslots
    exact hrun.has_space (fun _ => not_answers_error) (Nat.le_of_not_lt hslots) hfull
  · intro hspace hneeds
    have hnone := failure?_run haccepted n session hspace
    rw [shortage?_eq_none_iff.2 (allows_cells_iff.2 hneeds)] at hnone
    obtain ⟨totals, after, hok, heven, -⟩ := hrun.exists_ok hnone
    exact ⟨totals, after, hok, heven.allocated, heven.collected⟩
  · intro hspace hn limit hlimit hlt
    rw [failure?_run haccepted n session hspace, shortage?_of_lt hlimit (lt_cells_iff.2 ⟨hn, hlt⟩)]

/-- A machine with two places on the stack that collects at every allocation. -/
def cramped : Settings :=
  { stackCapacity := 2, initialThreshold := 1, growthFactor := 1, maxObjects := some 3 }

/-- It has room for three live cells, as many as a round needs, and nine of them come and go in
three rounds. -/
theorem cramped_accounts : cramped.rejected? = none ∧
    (run cramped 3).failure? ⟨(), [], ""⟩ ≠ some .outOfMemory ∧
      ∃ totals after, run cramped 3 ⟨(), [], ""⟩ = .ok totals after ∧
        totals.allocated = 9 ∧ totals.collected = 9 := by
  have haccepted : cramped.rejected? = none := by decide
  have haccounts := run_accounts haccepted 3 ⟨(), [], ""⟩
  have hspace : (run cramped 3).failure? ⟨(), [], ""⟩ ≠ some .outOfMemory := fun hfull =>
    absurd (haccounts.outOfMemory hfull) (by decide)
  exact ⟨haccepted, hspace, haccounts.succeeds hspace (Or.inr (allows_some_iff.2 le_rfl))⟩

end Stress

end MarkSweep
