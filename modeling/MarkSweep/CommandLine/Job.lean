/-
# Jobs

A job is what a run of the program is to do, with the numbers it is to do it with.
`Job.report` takes a job to what the program prints and how it exits, without doing
either.
-/

import MarkSweep.Scenario
import MarkSweep.Stress

namespace MarkSweep

namespace CommandLine

/-- What the program can be told to do. -/
inductive Command where
  /-- Run every scenario. -/
  | scenarios
  /-- Make a stress run. -/
  | stress (iterations : Nat)
  deriving DecidableEq

/-- The options of the program, with the command that follows them if there is one. -/
structure Job where
  stackCapacity : Nat := ({} : Settings).stackCapacity
  initialThreshold : Nat := ({} : Settings).initialThreshold
  growthFactor : Nat := ({} : Settings).growthFactor
  maxObjects : Option Nat := none
  dump : Bool := false
  command? : Option Command := none
  deriving DecidableEq

/-- The settings of the machines that do a job.  No option sets the least threshold. -/
def Job.settings (job : Job) : Settings :=
  { stackCapacity := job.stackCapacity
    initialThreshold := job.initialThreshold
    growthFactor := job.growthFactor
    maxObjects := job.maxObjects }

/-- What a job is about: the scenarios, unless it says otherwise. -/
def Job.command (job : Job) : Command :=
  job.command?.getD .scenarios

/-- How the program exits. -/
inductive ExitStatus where
  | success
  /-- The settings were refused, or a command failed. -/
  | failure
  /-- The arguments were refused. -/
  | usage
  /-- A precondition was broken. -/
  | fault
  deriving DecidableEq

def ExitStatus.code : ExitStatus → UInt8
  | .success => 0
  | .failure => 1
  | .usage => 2
  | .fault => 101

/-- What a run of the program comes to. -/
structure Report where
  status : ExitStatus
  stdout : String := ""
  stderr : String := ""
  deriving DecidableEq

/-- The report on a run that failed after printing `stdout`.  A fault ends the
program with its own message, any other failure with `context` in front. -/
def failed (context stdout : String) : Failure → Report
  | .fault cause => ⟨.fault, stdout, s!"{cause.message}\n"⟩
  | failure => ⟨.failure, stdout, s!"{context} failed: {failure.message}\n"⟩

/-- Runs scenarios until one fails.  `stdout` is what was printed before. -/
def runScenarios (settings : Settings) (dump : Bool) (stdout : String) :
    List Scenario → Report
  | [] => ⟨.success, stdout ++ s!"{Scenario.all.length} scenarios passed\n", ""⟩
  | scenario :: rest =>
    match scenario.run settings dump ⟨(), [], stdout⟩ with
    | .ok _ session => runScenarios settings dump session.output rest
    | .error failure session => failed s!"Scenario '{scenario.name}'" session.output failure

/-- Makes a stress run. -/
def runStress (settings : Settings) (iterations : Nat) : Report :=
  match Stress.run settings iterations ⟨(), [], ""⟩ with
  | .ok totals session =>
    ⟨.success, session.output ++
      s!"allocated {totals.allocated}, collected {totals.collected}, " ++
      s!"collections {totals.collections}\n", ""⟩
  | .error failure session => failed "Stress run" session.output failure

/-- Does a job, unless a setting is zero. -/
def Job.report (job : Job) : Report :=
  match job.settings.rejected? with
  | some setting => ⟨.failure, "", s!"Invalid settings: {setting.complaint}\n"⟩
  | none =>
    match job.command with
    | .scenarios => runScenarios job.settings job.dump "" Scenario.all
    | .stress iterations => runStress job.settings iterations

end CommandLine

end MarkSweep
