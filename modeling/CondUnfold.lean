import CondUnfold.Main
import CondUnfold.Proofs.CallLog
import CondUnfold.Proofs.EarlyReturn
import CondUnfold.Proofs.IfChain
import CondUnfold.Proofs.Replacements
import CondUnfold.Report
import CondUnfold.Syntax.Parse
import CondUnfold.Trigger
import CondUnfold.Unfolder
import CondUnfold.Unfolding
import CondUnfold.Proofs.Splice
import CondUnfold.Proofs.Utf8
import CondUnfold.Proofs.Outermost
import CondUnfold.Proofs.FixedPoint
import CondUnfold.Proofs.Progress
import CondUnfold.Proofs.Refusals
import CondUnfold.Proofs.Boundaries
import CondUnfold.Proofs.FileWork
import CondUnfold.Proofs.CheckMode
import CondUnfold.Proofs.Lexing
import CondUnfold.Proofs.ExprTokens
import CondUnfold.Proofs.ExprGrammar
import CondUnfold.Proofs.UniqueReading
import CondUnfold.Proofs.Strictness
import CondUnfold.Proofs.LeafActions
import CondUnfold.Proofs.Bases
import CondUnfold.Proofs.SwitchShape
import CondUnfold.Proofs.Accesses
import CondUnfold.Proofs.LabelEffects
import CondUnfold.Proofs.NumberTokens
import CondUnfold.Proofs.Seams
import CondUnfold.Proofs.Regrouping
import CondUnfold.Proofs.Emission
import CondUnfold.Proofs.FirstDefect
import CondUnfold.Proofs.FlatChains
import CondUnfold.Proofs.Tallies
import CondUnfold.Proofs.LineIndent
import CondUnfold.Proofs.Preorder
import CondUnfold.Proofs.Encodable
