/-! The options of the command line and their spellings. -/

namespace CondUnfold.CommandLine

/-- The options. -/
inductive Opt where
  | help
  | output
  | inPlace
  | report
  | switchThreshold
  | noSwitch
  | permissiveSwitchCases
  | indent
  | noSemicolons
  | maxPasses
  | check
  | verbose
deriving DecidableEq, Repr

namespace Opt

/-- All options, in the order in which they are listed. -/
def all : List Opt :=
  [.help, .output, .inPlace, .report, .switchThreshold, .noSwitch, .permissiveSwitchCases, .indent,
    .noSemicolons, .maxPasses, .check, .verbose]

/-- How an option is written. -/
def spellings : Opt → List String
  | .help => ["-h", "--help"]
  | .output => ["-o", "--output"]
  | .inPlace => ["--in-place"]
  | .report => ["--report"]
  | .switchThreshold => ["--switch-threshold"]
  | .noSwitch => ["--no-switch"]
  | .permissiveSwitchCases => ["--permissive-switch-cases"]
  | .indent => ["--indent"]
  | .noSemicolons => ["--no-semicolons"]
  | .maxPasses => ["--max-passes"]
  | .check => ["--check"]
  | .verbose => ["-v", "--verbose"]

/-- Does the option need a value? -/
def takesValue : Opt → Bool
  | .output | .report | .switchThreshold | .indent | .maxPasses => true
  | _ => false

/-- The name of an option in messages. -/
def name (o : Opt) : String := "/".intercalate o.spellings

/-- All spellings with their options. -/
def table : List (String × Opt) := all.flatMap fun o => o.spellings.map (·, o)

/-- The option with the given spelling. -/
def find? (s : String) : Option Opt := table.lookup s

end Opt
end CondUnfold.CommandLine
