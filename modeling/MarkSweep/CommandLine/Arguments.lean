/-
# Command line arguments

What a list of arguments asks for.  Options of the program come before the
command, options of the command after it; the command may be missing.  An option
that takes a number has it as the next argument or behind an equals sign; no
option may be given twice.

Reading goes from left to right and ends with the first mistake, or with the
first option that asks for the version or for help, whatever follows.
-/

import MarkSweep.CommandLine.Job

namespace MarkSweep

namespace CommandLine

/-- What the arguments ask for. -/
inductive Request where
  | version
  | help
  | job (job : Job)
  deriving DecidableEq

/-- Why arguments are refused. -/
inductive UsageError where
  | unknownArgument (text : String)
  | repeatedOption (name : String)
  | missingNumber (name : String)
  | unexpectedValue (name : String)
  | badNumber (name text : String)
  deriving DecidableEq

def UsageError.message : UsageError → String
  | .unknownArgument text => s!"unexpected argument '{text}'"
  | .repeatedOption name => s!"option '--{name}' was given more than once"
  | .missingNumber name => s!"option '--{name}' needs a number"
  | .unexpectedValue name => s!"option '--{name}' takes no value"
  | .badNumber name text => s!"'{text}' is no number for option '--{name}'"

/-- An argument by its form. -/
inductive Word where
  /-- Two dashes alone, after which nothing is an option. -/
  | separator
  /-- Two dashes and a name, with what stands behind an equals sign. -/
  | long (name : String) (value? : Option String)
  /-- A dash and at least one letter. -/
  | short (letter : Char) (rest : List Char)
  /-- Anything else. -/
  | plain (text : String)
  deriving DecidableEq

namespace Word

/-- The form of an argument. -/
def ofText (text : String) : Word :=
  match text.toList with
  | ['-', '-'] => .separator
  | '-' :: '-' :: rest =>
    let name := String.ofList (rest.takeWhile (· != '='))
    match rest.dropWhile (· != '=') with
    | [] => .long name none
    | _ :: value => .long name (some (String.ofList value))
  | '-' :: letter :: rest => .short letter rest
  | _ => .plain text

/-- The argument itself. -/
def text : Word → String
  | .separator => "--"
  | .long name none => "--" ++ name
  | .long name (some value) => "--" ++ name ++ "=" ++ value
  | .short letter rest => String.ofList ('-' :: letter :: rest)
  | .plain text => text

end Word

/-- The number that decimal digits denote. -/
def decimal? (digits : List Char) : Option Nat :=
  if digits ≠ [] ∧ digits.all Char.isDigit then
    some (digits.foldl (fun n digit => 10 * n + (digit.toNat - '0'.toNat)) 0)
  else
    none

/-- Reads a number: decimal digits, with a plus sign in front or without, and no
more than 64 bits hold. -/
def number? (text : String) : Option Nat :=
  let digits :=
    match text.toList with
    | '+' :: digits => digits
    | digits => digits
  (decimal? digits).filter (· < UInt64.size)

/-- Reads the number of an option. -/
def readNumber (name text : String) : Except UsageError Nat :=
  match number? text with
  | some n => .ok n
  | none => .error (.badNumber name text)

/-- The setting that an option stands for. -/
def settingNamed? : String → Option Setting
  | "stack-capacity" => some .stackCapacity
  | "initial-threshold" => some .initialThreshold
  | "growth-factor" => some .growthFactor
  | "max-objects" => some .maxObjects
  | _ => none

/-- The options read so far. -/
structure Options where
  settings : Settings := {}
  /-- The settings that were given. -/
  given : List Setting := []
  dump : Bool := false

namespace Options

/-- Enters the number given for a setting. -/
def give (options : Options) (setting : Setting) (name text : String) :
    Except UsageError Options := do
  if setting ∈ options.given then
    throw (.repeatedOption name)
  let n ← readNumber name text
  return { options with
    settings := options.settings.assign setting n
    given := setting :: options.given }

/-- Asks for dumps. -/
def giveDump (options : Options) : Except UsageError Options :=
  if options.dump then .error (.repeatedOption "dump") else .ok { options with dump := true }

/-- The job with these options. -/
def job (options : Options) (command? : Option Command) : Job :=
  { stackCapacity := options.settings.stackCapacity
    initialThreshold := options.settings.initialThreshold
    growthFactor := options.settings.growthFactor
    maxObjects := options.settings.maxObjects
    dump := options.dump
    command? }

end Options

/-- What is left once no more can be asked for: nothing, but for a separator. -/
def ending (request : Request) : List Word → Except UsageError Request
  | [] | [.separator] => .ok request
  | .separator :: word :: _ | word :: _ => .error (.unknownArgument word.text)

/-- Reads what follows a command that takes no options. -/
def readScenarios (options : Options) : List Word → Except UsageError Request
  | .long "help" none :: _ | .short 'h' _ :: _ => .ok .help
  | words => ending (.job (options.job (some .scenarios))) words

/-- Reads what follows the command for a stress run. -/
def readStress (options : Options) (iterations? : Option Nat) :
    List Word → Except UsageError Request
  | .long "help" none :: _ | .short 'h' _ :: _ => .ok .help
  | .long "iterations" value? :: rest => do
    if iterations?.isSome then
      throw (.repeatedOption "iterations")
    match value?, rest with
    | some text, rest => readStress options (some (← readNumber "iterations" text)) rest
    | none, .plain text :: rest =>
      readStress options (some (← readNumber "iterations" text)) rest
    | none, _ => throw (.missingNumber "iterations")
  | words => ending (.job (options.job (some (.stress (iterations?.getD 1000))))) words

/-- Reads which command is to be explained: none or one. -/
def readHelp : List Word → Except UsageError Request
  | [] | [.plain "scenarios"] | [.plain "stress"] | [.plain "help"] => .ok .help
  | word :: _ => .error (.unknownArgument word.text)

/-- Reads the options of the program and then the command. -/
def readWords (options : Options) : List Word → Except UsageError Request
  | .long "version" none :: _ | .short 'V' _ :: _ => .ok .version
  | .long "help" none :: _ | .short 'h' _ :: _ => .ok .help
  | .long "dump" none :: rest => do readWords (← options.giveDump) rest
  | .long name value? :: rest =>
    match settingNamed? name, value?, rest with
    | some setting, some text, rest => do readWords (← options.give setting name text) rest
    | some setting, none, .plain text :: rest => do
      readWords (← options.give setting name text) rest
    | some _, none, _ => .error (.missingNumber name)
    | none, some _, _ =>
      if name ∈ ["version", "help", "dump"] then
        .error (.unexpectedValue name)
      else
        .error (.unknownArgument (Word.long name value?).text)
    | none, none, _ => .error (.unknownArgument (Word.long name value?).text)
  | .plain "scenarios" :: rest => readScenarios options rest
  | .plain "stress" :: rest => readStress options none rest
  | .plain "help" :: rest => readHelp rest
  | words => ending (.job (options.job none)) words

/-- What a list of arguments asks for. -/
def readArguments (arguments : List String) : Except UsageError Request :=
  readWords {} (arguments.map Word.ofText)

end CommandLine

end MarkSweep
