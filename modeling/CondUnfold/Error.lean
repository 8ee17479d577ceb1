/-! Why an operation of the library fails, and the wording of each cause. -/

namespace CondUnfold

/-- What is wrong with a source text. -/
inductive Defect where
  /-- A token that the grammar asks for is absent. -/
  | missingToken
  /-- A stretch of the text has no place in the grammar. -/
  | stray
  /-- The text parses, but not as one expression. -/
  | notOneExpression
deriving DecidableEq, Repr

/-- The wording of a defect, without its position. -/
def Defect.message : Defect → String
  | .missingToken => "missing token"
  | .stray => "syntax error"
  | .notOneExpression => "expected a single expression"

/-- The causes of failure. -/
inductive Error where
  /-- A logical expression is written whose operator has no precedence. -/
  | unknownOperator
  /-- A guard or an action is written that holds no expression. -/
  | noExpression
  /-- An expression stands where a statement has to be written; `noun` names its form. -/
  | notAStatement (noun : String)
  /-- The indentation of a writer would become negative. -/
  | indentUnderflow
  /-- Two edits, given by their spans, overlap. -/
  | overlappingEdits (start stop start' stop' : Int)
  /-- The number of guards that make a switch has to be positive. -/
  | thresholdNotPositive
  /-- The number of passes has to be positive. -/
  | passesNotPositive
  /-- The source has a defect; line and column count from one. -/
  | malformed (defect : Defect) (line column : Nat)
  /-- A syntax node lacks a child that its kind asks for. -/
  | missingChild
  /-- A stretch of bytes is not text. -/
  | notUtf8
  /-- A text to be written holds a surrogate. -/
  | notEncodable
deriving DecidableEq, Repr

/-- The wording of a cause. -/
def Error.message : Error → String
  | .unknownOperator => "unknown operator"
  | .noExpression => "no expression"
  | .notAStatement noun => "cannot render " ++ noun ++ " as a statement"
  | .indentUnderflow => "indentation underflow"
  | .overlappingEdits a b c d =>
    "overlapping edits at bytes " ++ toString a ++ ".." ++ toString b ++ " and " ++ toString c ++
      ".." ++ toString d
  | .thresholdNotPositive => "switch threshold must be positive"
  | .passesNotPositive => "max passes must be positive"
  | .malformed d line column =>
    d.message ++ " at line " ++ toString line ++ ", column " ++ toString column
  | .missingChild => "missing child"
  | .notUtf8 => "not UTF-8"
  | .notEncodable => "no encoding"

end CondUnfold
