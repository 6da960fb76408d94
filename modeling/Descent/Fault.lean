namespace Descent

inductive FaultKind where
  | transform
  | unboundRule
  | depthLimit
  | stepLimit
  deriving DecidableEq

inductive Cause where
  /-- The transform of a rule refused its value. -/
  | transform (error : String)
  | unbound (name : String)
  /-- Rules nest deeper than `max`. -/
  | depthLimit (max : Nat)
  /-- More than `max` rules were applied. -/
  | stepLimit (max : Nat)
  /-- A rule written by hand says so in its own words. -/
  | stated (kind : FaultKind) (message : String)
  deriving DecidableEq

/-- A condition that aborts a parse outright: no operator treats it as a mismatch. -/
@[ext] structure Fault where
  cause : Cause
  /-- Where the faulting rule started, in bytes. -/
  offset : Nat
  deriving DecidableEq

namespace Cause

def kind : Cause → FaultKind
  | .transform _ => .transform
  | .unbound _ => .unboundRule
  | .depthLimit _ => .depthLimit
  | .stepLimit _ => .stepLimit
  | .stated kind _ => kind

def message : Cause → String
  | .transform error => "transform failed: " ++ error
  | .unbound name => "rule `" ++ name ++ "` is not defined"
  | .depthLimit max => s!"nesting depth limit of {max} exceeded"
  | .stepLimit max => s!"step limit of {max} exceeded"
  | .stated _ message => message

def source? : Cause → Option String
  | .transform error => some error
  | _ => none

end Cause

namespace Fault

def kind (f : Fault) : FaultKind := f.cause.kind

def message (f : Fault) : String := f.cause.message

/-- Whether the author of the grammar is to blame, and not a limit. -/
def isGrammarFault (f : Fault) : Bool := f.kind = .transform || f.kind = .unboundRule

def describe (f : Fault) : String := s!"{f.message} at byte {f.offset}"

end Fault

end Descent
