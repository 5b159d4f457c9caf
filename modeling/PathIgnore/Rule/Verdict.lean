import PathIgnore.Rule.Basic

/-!
# Verdicts

A verdict is the answer for one path in a form that can be passed on: whether the path is ignored, why,
and under which rule.
-/

namespace PathIgnore

/-- Why a path is ignored or not. -/
inductive Reason where
  | rule
  | noMatch
  | outsideBoundary
  | inconsistent
  deriving DecidableEq, Repr

/-- The word for a reason. -/
def Reason.word : Reason → Text
  | rule => "rule".toList
  | noMatch => "no_match".toList
  | outsideBoundary => "outside_boundary".toList
  | inconsistent => "inconsistent".toList

/-- The answer for a path. The reason is a word, which may be none of the usual ones. -/
structure Verdict where
  path : Text
  ignored : Bool := false
  reason : Text := Reason.noMatch.word
  boundaryRoot : Option Text := none
  rule : Option Report := none
  deriving DecidableEq, Repr

/-- Whether a rule decided. -/
def Verdict.isByRule (v : Verdict) : Bool := v.reason == Reason.rule.word && v.rule.isSome

end PathIgnore
