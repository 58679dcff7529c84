/-
# Running the program

`CommandLine.report` takes the arguments to what the program prints and how it
exits: what a job comes to, or else the text that was asked for or a complaint
about the arguments.
-/

import MarkSweep.CommandLine.Arguments

namespace MarkSweep

namespace CommandLine

def versionText : String :=
  "pairgc 0.1.0\n"

def helpText : String :=
  "Usage: pairgc [OPTIONS] [COMMAND]\n\n" ++
    "Commands:\n" ++
    "  scenarios  Run the collector checks (default)\n" ++
    "  stress     Allocate and drop nested pairs in a loop [--iterations N]\n" ++
    "  help       Print this text\n\n" ++
    "Options:\n" ++
    "  --stack-capacity N     Number of roots the stack can hold\n" ++
    "  --initial-threshold N  Cell count that triggers the first collection\n" ++
    "  --growth-factor N      Threshold as a multiple of the surviving cells\n" ++
    "  --max-objects N        Hard limit on live cells\n" ++
    "  --dump                 Print roots and cells after each scenario\n" ++
    "  -V, --version          Print the version\n" ++
    "  -h, --help             Print this text\n"

def Request.report : Request → Report
  | .version => ⟨.success, versionText, ""⟩
  | .help => ⟨.success, helpText, ""⟩
  | .job task => task.report

/-- What the program does when it is given these arguments. -/
def report (arguments : List String) : Report :=
  match readArguments arguments with
  | .ok request => request.report
  | .error mistake => ⟨.usage, "", s!"error: {mistake.message}\n"⟩

end CommandLine

end MarkSweep
