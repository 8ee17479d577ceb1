import CondUnfold.CommandLine.Opt
import CondUnfold.Text.Quoted

/-! What can be wrong with the arguments of a command. -/

namespace CondUnfold.CommandLine

/-- Why arguments are refused. -/
inductive Misuse where
  /-- The beginning of a long option fits several ones. -/
  | ambiguous (word : String) (candidates : List String)
  /-- An option lacks its value. -/
  | valueMissing (o : Opt)
  /-- An option that takes no value is given one. -/
  | valueIgnored (o : Opt) (value : String)
  /-- The value of an option is not an integer. -/
  | notAnInteger (o : Opt) (value : String)
  /-- The value attached to an option is the end mark of options, so that no value is left. -/
  | endMarkAsValue (o : Opt)
  /-- There are no inputs. -/
  | inputsMissing
  /-- Some arguments mean nothing. -/
  | unrecognized (words : List String)
  /-- One output cannot hold several results. -/
  | outputForMany
  /-- The result has two places to go to. -/
  | outputAndInPlace
  | thresholdNotPositive
  | passesNotPositive
deriving DecidableEq, Repr

/-- The wording of a refusal. -/
def Misuse.message : Misuse → String
  | .ambiguous word candidates =>
    "ambiguous option: " ++ word ++ " could match " ++ ", ".intercalate candidates
  | .valueMissing o => "argument " ++ o.name ++ ": expected one argument"
  | .valueIgnored o v => "argument " ++ o.name ++ ": ignored explicit argument " ++ Text.quoted v
  | .notAnInteger o v => "argument " ++ o.name ++ ": invalid int value: " ++ Text.quoted v
  | .endMarkAsValue _ => "not enough values to unpack (expected 1, got 0)"
  | .inputsMissing => "the following arguments are required: inputs"
  | .unrecognized words => "unrecognized arguments: " ++ " ".intercalate words
  | .outputForMany => "--output requires exactly one input"
  | .outputAndInPlace => "--output and --in-place are mutually exclusive"
  | .thresholdNotPositive => "--switch-threshold must be positive"
  | .passesNotPositive => "--max-passes must be positive"

/-- The name of the command. -/
def programName : String := "unfold-conditionals"

/-- The line that tells the user why arguments are refused. -/
def Misuse.line (m : Misuse) : String := programName ++ ": error: " ++ m.message

end CondUnfold.CommandLine
