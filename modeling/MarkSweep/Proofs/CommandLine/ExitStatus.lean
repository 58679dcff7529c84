/-
# How the program exits

What the program prints and how it exits is told by the options alone.  A number that is zero is
refused before anything runs.  The scenarios stop at the first that fails, and
`Scenario.firstFailure?` says which one that is and for what reason; the stress run fails for the
object limit only.
-/

import MarkSweep.CommandLine.Job
import MarkSweep.Proofs.Scenario
import MarkSweep.Proofs.Stress

namespace MarkSweep

namespace Scenario

variable {settings : Settings}

/-- The first scenario that fails, and for what reason. -/
def firstFailure? (settings : Settings) (scenarios : List Scenario) :
    Option (Scenario × Failure) :=
  scenarios.findSome? fun scenario => (scenario.verdict? settings).map (Prod.mk scenario)

/-- With two roots or more, a limit below two stops the first scenario. -/
theorem firstFailure?_of_lt_two {limit : Nat} (hcapacity : 2 ≤ settings.stackCapacity)
    (hlimit : limit ∈ settings.maxObjects) (hlt : limit < 2) :
    firstFailure? settings all = some (.rootedScalars, .heapExhausted limit limit) := by
  simp [firstFailure?, all, verdict?, roots, cells, hcapacity, shortage?_of_lt hlimit hlt]

/-- Otherwise the third scenario is the first that can fail. -/
theorem firstFailure?_of_allows (hcapacity : 2 ≤ settings.stackCapacity)
    (hallows : Allows settings.maxObjects 2) :
    firstFailure? settings all =
      firstFailure? settings [.nestedPairs, .rootedCycle, .droppedCycle] := by
  simp [firstFailure?, all, verdict?, roots, cells, hcapacity, shortage?_eq_none_iff.2 hallows]

/-- **The first failure is told by the stack capacity and the object limit.** -/
theorem firstFailure?_cases (haccepted : settings.rejected? = none) :
    (3 ≤ settings.stackCapacity ∧ Allows settings.maxObjects 7 ∧
      firstFailure? settings all = none) ∨
    ((settings.stackCapacity = 1 ∨ settings.stackCapacity = 2 ∧ Allows settings.maxObjects 4) ∧
      ∃ scenario, firstFailure? settings all = some (scenario, .fault .rootOverflow)) ∨
    ∃ limit ∈ settings.maxObjects,
      (3 ≤ settings.stackCapacity ∧ limit < 7 ∨ settings.stackCapacity = 2 ∧ limit < 4) ∧
      ∃ scenario, firstFailure? settings all = some (scenario, .heapExhausted limit limit) := by
  have hpos : 0 < settings.stackCapacity := Settings.pos_of_value? haccepted .stackCapacity rfl
  obtain hone | hcapacity : settings.stackCapacity = 1 ∨ 2 ≤ settings.stackCapacity := by omega
  · -- the first scenario overflows the stack before a second cell is asked for
    have hallows : Allows settings.maxObjects 1 := fun _ =>
      Settings.pos_of_value? haccepted .maxObjects
    refine Or.inr (Or.inl ⟨Or.inl hone, .rootedScalars, ?_⟩)
    simp [firstFailure?, all, verdict?, roots, hone, cellsAtOverflow,
      shortage?_eq_none_iff.2 hallows]
  rcases shortage?_cases settings.maxObjects 2 with ⟨hallows, -⟩ | ⟨limit, hlimit, hlt, -⟩
  · rw [firstFailure?_of_allows hcapacity hallows]
    obtain htwo | hthree : settings.stackCapacity = 2 ∨ 3 ≤ settings.stackCapacity := by omega
    · rcases shortage?_cases settings.maxObjects 4 with ⟨hfour, h⟩ | ⟨limit, hlimit, hlt, h⟩
      · refine Or.inr (Or.inl ⟨Or.inr ⟨htwo, hfour⟩, .nestedPairs, ?_⟩)
        simp [firstFailure?, verdict?, roots, htwo, cellsAtOverflow, h]
      · refine Or.inr (Or.inr ⟨limit, hlimit, Or.inr ⟨htwo, hlt⟩, .nestedPairs, ?_⟩)
        simp [firstFailure?, verdict?, roots, htwo, cellsAtOverflow, h]
    · rcases shortage?_cases settings.maxObjects 7 with ⟨hseven, h⟩ | ⟨limit, hlimit, hlt, h⟩
      · have hsix : Allows settings.maxObjects 6 := hseven.mono (Nat.le_succ 6)
        refine Or.inl ⟨hthree, hseven, ?_⟩
        simp [firstFailure?, verdict?, roots, cells, hthree, h, shortage?_eq_none_iff.2 hsix]
      · refine Or.inr (Or.inr ⟨limit, hlimit, Or.inl ⟨hthree, hlt⟩, .nestedPairs, ?_⟩)
        simp [firstFailure?, verdict?, roots, cells, hthree, h]
  · exact Or.inr (Or.inr ⟨limit, hlimit, by omega, .rootedScalars,
      firstFailure?_of_lt_two hcapacity hlimit hlt⟩)

end Scenario

namespace CommandLine

variable {settings : Settings}

/-- The scenarios stop at the first that fails. -/
theorem runScenarios_eq (haccepted : settings.rejected? = none) (dump : Bool) (stdout : String)
    (scenarios : List Scenario) :
    ∃ printed, runScenarios settings dump stdout scenarios =
      match Scenario.firstFailure? settings scenarios with
      | none => ⟨.success, printed ++ s!"{Scenario.all.length} scenarios passed\n", ""⟩
      | some (scenario, failure) => failed s!"Scenario '{scenario.name}'" printed failure := by
  induction scenarios generalizing stdout with
  | nil => exact ⟨stdout, rfl⟩
  | cons scenario rest ih =>
    have hverdict := Scenario.failure?_run haccepted scenario dump ⟨(), [], stdout⟩
    unfold runScenarios
    rw [Action.failure?] at hverdict
    unfold Scenario.firstFailure?
    rw [List.findSome?_cons, ← hverdict]
    cases scenario.run settings dump ⟨(), [], stdout⟩ with
    | ok stats session => exact ih session.output
    | error failure session => exact ⟨session.output, rfl⟩

/-- The scenarios pass, or the stack overflows, or the limit is met. -/
theorem runScenarios_cases (haccepted : settings.rejected? = none) (dump : Bool) :
    (3 ≤ settings.stackCapacity ∧ Allows settings.maxObjects 7 ∧ ∃ printed,
      runScenarios settings dump "" Scenario.all =
        ⟨.success, printed ++ "5 scenarios passed\n", ""⟩) ∨
    ((settings.stackCapacity = 1 ∨ settings.stackCapacity = 2 ∧ Allows settings.maxObjects 4) ∧
      ∃ printed, ∃ scenario : Scenario, runScenarios settings dump "" Scenario.all =
        failed s!"Scenario '{scenario.name}'" printed (.fault .rootOverflow)) ∨
    ∃ limit ∈ settings.maxObjects,
      (3 ≤ settings.stackCapacity ∧ limit < 7 ∨ settings.stackCapacity = 2 ∧ limit < 4) ∧
      ∃ printed, ∃ scenario : Scenario, runScenarios settings dump "" Scenario.all =
        failed s!"Scenario '{scenario.name}'" printed (.heapExhausted limit limit) := by
  obtain ⟨printed, hrun⟩ := runScenarios_eq haccepted dump "" Scenario.all
  rcases Scenario.firstFailure?_cases haccepted with ⟨hcapacity, hallows, hfirst⟩ |
    ⟨hneeds, scenario, hfirst⟩ | ⟨limit, hlimit, hshort, scenario, hfirst⟩
  · rw [hfirst] at hrun
    exact Or.inl ⟨hcapacity, hallows, printed, hrun⟩
  · rw [hfirst] at hrun
    exact Or.inr (Or.inl ⟨hneeds, printed, scenario, hrun⟩)
  · rw [hfirst] at hrun
    exact Or.inr (Or.inr ⟨limit, hlimit, hshort, printed, scenario, hrun⟩)

/-- What a stress run prints that made so many cells. -/
def stressLine (made collections : Nat) : String :=
  s!"allocated {made}, collected {made}, " ++ s!"collections {collections}\n"

/-- The stress run prints its books, or the limit is met. -/
theorem runStress_cases (haccepted : settings.rejected? = none) (n : Nat)
    (hspace : (Stress.run settings n).failure? ⟨(), [], ""⟩ ≠ some .outOfMemory) :
    ((n = 0 ∨ Allows settings.maxObjects (2 * Stress.batch settings - 1)) ∧
      ∃ collections, 1 ≤ collections ∧ runStress settings n =
        ⟨.success, stressLine (n * (2 * Stress.batch settings - 1)) collections, ""⟩) ∨
    ∃ limit ∈ settings.maxObjects, n ≠ 0 ∧ limit < 2 * Stress.batch settings - 1 ∧
      ∃ printed, runStress settings n =
        failed "Stress run" printed (.heapExhausted limit limit) := by
  have hfailure := Stress.failure?_run haccepted n ⟨(), [], ""⟩ hspace
  rcases shortage?_cases settings.maxObjects (Stress.cells (Stress.batch settings) n) with
    ⟨hallows, h⟩ | ⟨limit, hlimit, hlt, h⟩
  · rw [h] at hfailure
    obtain ⟨totals, after, hok, heven, houtput⟩ :=
      (Stress.run_rationed haccepted n ⟨(), [], ""⟩).exists_ok hfailure
    refine Or.inl ⟨Stress.allows_cells_iff.1 hallows, totals.collections, heven.collections, ?_⟩
    rw [runStress, hok]
    dsimp only
    rw [houtput, heven.allocated, heven.collected, String.empty_append]
    rfl
  · rw [h] at hfailure
    obtain ⟨hn, hlt⟩ := Stress.lt_cells_iff.1 hlt
    obtain ⟨session, hrun⟩ := Action.failure?_eq_some_iff.1 hfailure
    refine Or.inr ⟨limit, hlimit, hn, hlt, session.output, ?_⟩
    rw [runStress, hrun]

/-! ### The exit status -/

/-- How a run of the scenarios ends under settings that were accepted. -/
structure ScenariosEnd (settings : Settings) (report : Report) : Prop where
  passes_iff : (report.status.code = 0 ∧ ∃ printed, report.stdout = printed ++
    "5 scenarios passed\n") ↔ 3 ≤ settings.stackCapacity ∧ Allows settings.maxObjects 7
  overflows_iff : report.status.code = 101 ↔ settings.stackCapacity = 1 ∨
    settings.stackCapacity = 2 ∧ Allows settings.maxObjects 4
  exhausted : ¬ (3 ≤ settings.stackCapacity ∧ Allows settings.maxObjects 7) →
    ¬ (settings.stackCapacity = 1 ∨
      settings.stackCapacity = 2 ∧ Allows settings.maxObjects 4) →
    report.status.code = 1 ∧ ∃ limit ∈ settings.maxObjects, ∃ printed, ∃ scenario : Scenario,
      report = failed s!"Scenario '{scenario.name}'" printed (.heapExhausted limit limit)

/-- How a stress run ends under settings that were accepted. -/
structure StressEnds (settings : Settings) (n : Nat) (report : Report) : Prop where
  succeeds_iff : (report.status.code = 0 ∧ ∃ collections, 1 ≤ collections ∧
    report.stdout = stressLine (n * (2 * Stress.batch settings - 1)) collections) ↔
      n = 0 ∨ Allows settings.maxObjects (2 * Stress.batch settings - 1)
  exhausted : ¬ (n = 0 ∨ Allows settings.maxObjects (2 * Stress.batch settings - 1)) →
    report.status.code = 1 ∧ ∃ limit ∈ settings.maxObjects, ∃ printed,
      report = failed "Stress run" printed (.heapExhausted limit limit)
  no_fault : report.status.code ≠ 101

/-- One of the numbers is zero that a job gives for the settings. -/
def Job.HasZero (job : Job) : Prop :=
  job.stackCapacity = 0 ∨ job.initialThreshold = 0 ∨ job.growthFactor = 0 ∨
    job.maxObjects = some 0

/-- How a job ends. -/
structure Job.Ends (job : Job) (report : Report) : Prop where
  refused : job.HasZero → report.status.code = 1 ∧ report.stdout = "" ∧
    ∃ setting, job.settings.value? setting = some 0 ∧
      report.stderr = s!"Invalid settings: {setting.complaint}\n"
  /-- Without a command the scenarios are run. -/
  scenarios : ¬ job.HasZero → job.command? = none ∨ job.command? = some .scenarios →
    ScenariosEnd job.settings report
  stress : ¬ job.HasZero → ∀ n, job.command? = some (.stress n) →
    StressEnds job.settings n report

theorem runScenarios_ends (haccepted : settings.rejected? = none) (dump : Bool) :
    ScenariosEnd settings (runScenarios settings dump "" Scenario.all) := by
  rcases runScenarios_cases haccepted dump with ⟨hcapacity, hallows, printed, hrun⟩ |
    ⟨hneeds, printed, scenario, hrun⟩ | ⟨limit, hlimit, hshort, printed, scenario, hrun⟩
  · rw [hrun]
    refine ⟨iff_of_true ⟨rfl, printed, rfl⟩ ⟨hcapacity, hallows⟩, ?_,
      fun hneeds => absurd ⟨hcapacity, hallows⟩ hneeds⟩
    exact iff_of_false (show ExitStatus.success.code ≠ 101 by decide) (by omega)
  · have hcode : (failed s!"Scenario '{scenario.name}'" printed
        (.fault .rootOverflow)).status.code = 101 := rfl
    rw [hrun]
    refine ⟨iff_of_false ?_ (by omega), iff_of_true hcode hneeds,
      fun _ hnone => absurd hneeds hnone⟩
    rw [hcode]
    exact fun h => absurd h.1 (by decide)
  · have hcode : (failed s!"Scenario '{scenario.name}'" printed
        (.heapExhausted limit limit)).status.code = 1 := rfl
    rw [hrun]
    refine ⟨iff_of_false ?_ ?_, iff_of_false ?_ ?_,
      fun _ _ => ⟨hcode, limit, hlimit, printed, scenario, rfl⟩⟩
    · rw [hcode]
      exact fun h => absurd h.1 (by decide)
    · rintro ⟨hcapacity, hallows⟩
      have := hallows limit hlimit
      omega
    · rw [hcode]
      decide
    · rintro (hone | ⟨htwo, hallows⟩)
      · omega
      · have := hallows limit hlimit
        omega

theorem runStress_ends (haccepted : settings.rejected? = none) (n : Nat)
    (hspace : (Stress.run settings n).failure? ⟨(), [], ""⟩ ≠ some .outOfMemory) :
    StressEnds settings n (runStress settings n) := by
  rcases runStress_cases haccepted n hspace with ⟨hneeds, collections, hcollections, hrun⟩ |
    ⟨limit, hlimit, hn, hlt, printed, hrun⟩
  · rw [hrun]
    exact ⟨iff_of_true ⟨rfl, collections, hcollections, rfl⟩ hneeds,
      fun hnone => absurd hneeds hnone, show ExitStatus.success.code ≠ 101 by decide⟩
  · have hcode : (failed "Stress run" printed (.heapExhausted limit limit)).status.code = 1 := rfl
    rw [hrun]
    refine ⟨iff_of_false ?_ ?_, fun _ => ⟨hcode, limit, hlimit, printed, rfl⟩, ?_⟩
    · rw [hcode]
      exact fun h => absurd h.1 (by decide)
    · rintro (hzero | hallows)
      · exact hn hzero
      · exact Nat.not_le.2 hlt (hallows limit hlimit)
    · rw [hcode]
      decide

/-- The settings of a job are accepted unless it gives a zero. -/
theorem Job.rejected?_eq_none_iff (job : Job) : job.settings.rejected? = none ↔ ¬ job.HasZero := by
  rw [Settings.rejected?_eq_none_iff]
  constructor
  · rintro h (hzero | hzero | hzero | hzero)
    · exact h .stackCapacity (congrArg some hzero)
    · exact h .initialThreshold (congrArg some hzero)
    · exact h .growthFactor (congrArg some hzero)
    · exact h .maxObjects hzero
  · intro h setting hzero
    refine h ?_
    cases setting with
    | stackCapacity => exact Or.inl (Option.some.inj hzero)
    | initialThreshold => exact Or.inr (Or.inl (Option.some.inj hzero))
    | growthFactor => exact Or.inr (Or.inr (Or.inl (Option.some.inj hzero)))
    | minThreshold => exact absurd (Option.some.inj hzero) Nat.one_ne_zero
    | maxObjects => exact Or.inr (Or.inr (Or.inr hzero))

/-- **The exit status is a function of the options**, for all that the arena has space for.  A
zero is refused before anything is run, the scenarios are told by the stack capacity and the
object limit, and the stress run by the two and the number of its rounds; the thresholds, the
growth factor and the dumps have no say. -/
theorem report_ends {job : Job} (hspace : ∀ n, job.command? = some (.stress n) →
    (Stress.run job.settings n).failure? ⟨(), [], ""⟩ ≠ some .outOfMemory) :
    job.Ends job.report := by
  cases hrejected : job.settings.rejected? with
  | some setting =>
    have hzero : job.HasZero := by
      by_contra hzero
      rw [job.rejected?_eq_none_iff.2 hzero] at hrejected
      cases hrejected
    have hvalue : job.settings.value? setting = some 0 := by
      simpa using List.find?_some hrejected
    rw [Job.report, hrejected]
    exact ⟨fun _ => ⟨rfl, rfl, setting, hvalue, rfl⟩, fun h => absurd hzero h,
      fun h => absurd hzero h⟩
  | none =>
    have hzero := job.rejected?_eq_none_iff.1 hrejected
    refine ⟨fun h => absurd h hzero, fun _ hcommand => ?_, fun _ n hcommand => ?_⟩
    · have hscenarios : job.command = .scenarios := by
        rcases hcommand with hcommand | hcommand <;> rw [Job.command, hcommand] <;> rfl
      rw [Job.report, hrejected, hscenarios]
      exact runScenarios_ends hrejected job.dump
    · have hstress : job.command = .stress n := by
        rw [Job.command, hcommand]
        rfl
      rw [Job.report, hrejected, hstress]
      exact runStress_ends hrejected n (hspace n hcommand)

/-- Two places on the stack, four live cells, and a collection at every allocation. -/
def shortStack : Job :=
  { stackCapacity := 2, initialThreshold := 1, maxObjects := some 4 }

/-- Of the scenarios the third is the one that stops, and it is the stack that stops it.  A
stress run needs no more than three cells at once. -/
theorem shortStack_ends :
    shortStack.report.status.code = 101 ∧
      ({ shortStack with command? := some (.stress 3) } : Job).report.status.code = 0 := by
  have haccepted : shortStack.settings.rejected? = none := by decide
  have hzero := shortStack.rejected?_eq_none_iff.1 haccepted
  have hfour : Allows shortStack.settings.maxObjects 4 := allows_some_iff.2 le_rfl
  have hspace : (Stress.run shortStack.settings 3).failure? ⟨(), [], ""⟩ ≠ some .outOfMemory :=
    (Stress.run_rationed haccepted 3 _).has_space (fun _ => not_answers_error) (by decide)
  have hends : shortStack.Ends shortStack.report := report_ends fun n hcommand => by cases hcommand
  have hends' := @report_ends { shortStack with command? := some (.stress 3) } fun n hcommand => by
    obtain rfl := Command.stress.inj (Option.some.inj hcommand)
    exact hspace
  refine ⟨(hends.scenarios hzero (Or.inl rfl)).overflows_iff.2 (Or.inr ⟨rfl, hfour⟩), ?_⟩
  exact ((hends'.stress hzero 3 rfl).succeeds_iff.2 (Or.inr (hfour.mono (by decide)))).1

end CommandLine

end MarkSweep
