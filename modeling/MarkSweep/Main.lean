/-
# The program

Prints what `CommandLine.report` reports, and exits with its status.
-/

import MarkSweep.CommandLine.Report

def main (arguments : List String) : IO UInt32 := do
  let report := MarkSweep.CommandLine.report arguments
  IO.print report.stdout
  IO.eprint report.stderr
  return report.status.code.toUInt32
