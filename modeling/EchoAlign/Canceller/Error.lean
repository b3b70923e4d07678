/-!
# `EchoAlign.Canceller.Error`: why a canceller cannot be set up
-/

set_option autoImplicit false

namespace EchoAlign

/-- Why a canceller cannot be set up. -/
inductive CancellerError where
  /-- No method has this name. -/
  | unknownMethod (name : String)
  /-- A size is outside its range. -/
  | outOfRange (name : String) (value low high : Nat)
  /-- The argument list makes no sense. -/
  | invalidArgument (reason : String)
  /-- No canceller runs on this many channels. -/
  | unsupportedChannels (count : Nat)
  /-- A block of this duration would hold no frame. -/
  | emptyBlock (frameMs rate : Nat)
  deriving DecidableEq, Repr

namespace CancellerError

/-- The wording of the error. -/
def message : CancellerError → String
  | unknownMethod name => s!"Unknown echo canceller: {name}"
  | outOfRange name value low high =>
      s!"Invalid {name} specification: {value} (allowed {low}-{high})"
  | invalidArgument reason => s!"Invalid canceller argument: {reason}"
  | unsupportedChannels count => s!"Unsupported channel count: {count}"
  | emptyBlock frameMs rate => s!"Frame of {frameMs} ms at {rate} Hz holds no samples"

end CancellerError

end EchoAlign
