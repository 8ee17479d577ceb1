import CondUnfold.Stmt.Writer
import CondUnfold.Switch

/-! How sources are unfolded. -/

namespace CondUnfold

/-- The options of unfolding. -/
structure Options where
  /-- The number of guards on one base from which on a chain becomes a switch. -/
  switchThreshold : Int := 3
  /-- Are chains refused for which a switch might not do the same? -/
  strictCases : Bool := true
  /-- Are switches made at all? -/
  makeSwitches : Bool := true
  /-- The largest number of passes over a source. -/
  maxPasses : Int := 8
  layout : Layout := {}
  switchThreshold_pos : 1 ≤ switchThreshold := by decide
  maxPasses_pos : 1 ≤ maxPasses := by decide

namespace Options

/-- The options with the given settings, if the two numbers are positive. -/
def make (switchThreshold : Int) (strictCases makeSwitches : Bool) (maxPasses : Int)
    (layout : Layout) : Except Error Options :=
  if ht : 1 ≤ switchThreshold then
    if hp : 1 ≤ maxPasses then
      .ok ⟨switchThreshold, strictCases, makeSwitches, maxPasses, layout, ht, hp⟩
    else .error .passesNotPositive
  else .error .thresholdNotPositive

/-- A fresh maker of switches, if switches are made. -/
def maker (o : Options) : Option SwitchMaker :=
  if o.makeSwitches then some (.ofSettings o.switchThreshold o.strictCases) else none

end Options
end CondUnfold
