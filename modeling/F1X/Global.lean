import F1X.Core
import Mathlib.Algebra.Group.Int.Defs
import Mathlib.Algebra.Group.Nat.Defs

/-!
# Configuration

The fields of `Config` in `repair/Global.h` that search-space generation and
search read.
-/

namespace F1X

/--
The parameter loop counts in `int`, so it ends only for bounds that fit there;
`outputTop` is `signed` itself.  The last three fields say so.
-/
structure Config where
  validatePatches : Bool
  generateAll : Bool
  maxConditionParameter : Nat
  maxExpressionParameter : Nat
  valueTEQ : Bool
  testPrioritization : TestPrioritization
  patchPrioritization : PatchPrioritization
  outputOnePerLocation : Bool
  outputTop : Int
  conditionBound : maxConditionParameter < 2 ^ 31 - 1
  expressionBound : maxExpressionParameter < 2 ^ 31 - 1
  outputTopRange : -2 ^ 31 ≤ outputTop ∧ outputTop < 2 ^ 31

namespace Config

/-- The initial value of `cfg` in `repair/Global.cpp`. -/
def default : Config where
  validatePatches := false
  generateAll := false
  maxConditionParameter := 64
  maxExpressionParameter := 1
  valueTEQ := true
  testPrioritization := .maxFailing
  patchPrioritization := .syntacticDiff
  outputOnePerLocation := false
  outputTop := 0
  conditionBound := by decide
  expressionBound := by decide
  outputTopRange := by decide

def paramBound (cfg : Config) (context : LocationContext) : Nat :=
  match context with
  | .condition => cfg.maxConditionParameter
  | .unknown => cfg.maxExpressionParameter

theorem paramBound_lt (cfg : Config) (context : LocationContext) :
    cfg.paramBound context < 2 ^ 31 - 1 := by
  cases context with
  | condition => exact cfg.conditionBound
  | unknown => exact cfg.expressionBound

end Config

end F1X
