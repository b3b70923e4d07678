import EchoAlign.Word
import EchoAlign.Canceller.Error
import EchoAlign.Settings.FlatArgs

/-!
# `EchoAlign.Canceller.Tuning`: methods and sizes

The choice of a canceller (`CancellerMethod`), the two sizes every
canceller is tuned by (`CancellerTuning`), and the number of frames of a
block (`blockFrames`): the largest power of two that is not above the
block duration.
-/

set_option autoImplicit false

namespace EchoAlign

/-- The available cancellers. -/
inductive CancellerMethod where
  /-- An adaptive filter, by normalised least mean squares. -/
  | nlms
  /-- No cancelling: the captured audio as it is. -/
  | null
  deriving DecidableEq, Repr

namespace CancellerMethod

/-- The name of the method. -/
def label : CancellerMethod → String
  | nlms => "nlms"
  | null => "null"

/-- Reads the name of a method, where `none` is another name for `null`. -/
def parse (name : String) : Except CancellerError CancellerMethod :=
  if name = "nlms" then .ok nlms
  else if name ∈ ["null", "none"] then .ok null
  else .error (.unknownMethod name)

end CancellerMethod

/-- The sizes a canceller is tuned by. -/
structure CancellerTuning where
  /-- Block duration in milliseconds. -/
  frameMs : Nat
  /-- Filter duration in milliseconds. -/
  filterMs : Nat
  deriving DecidableEq, Repr

namespace CancellerTuning

/-- Blocks of 20 ms and a filter of 200 ms. -/
def standard : CancellerTuning := ⟨20, 200⟩

/-- The key of the block duration. -/
def frameKey : String := "frame_size_ms"

/-- The key of the filter duration. -/
def filterKey : String := "filter_size_ms"

/-- The largest value either size may be given as. -/
def maxSize : Nat := Word.max32

/-- Refuses a `value` outside the range from `low` to `high`. The error names
what was checked. -/
def checkRange (name : String) (value low high : Nat) : Except CancellerError Unit :=
  if value < low ∨ high < value then .error (.outOfRange name value low high) else .ok ()

/-- Refuses sizes outside their ranges, the block duration first. -/
def validate (t : CancellerTuning) : Except CancellerError Unit := do
  checkRange frameKey t.frameMs 1 200
  checkRange filterKey t.filterMs 1 2000

/-- Sets the size a `key` names. A value that is no number up to `maxSize` is
refused, and so is any other key. -/
def set (t : CancellerTuning) (key value : String) : Except CancellerError CancellerTuning :=
  if key = frameKey then
    match Text.readNat? maxSize value with
    | some n => .ok { t with frameMs := n }
    | none => .error (.invalidArgument s!"{key}={value}")
  else if key = filterKey then
    match Text.readNat? maxSize value with
    | some n => .ok { t with filterMs := n }
    | none => .error (.invalidArgument s!"{key}={value}")
  else .error (.invalidArgument s!"unknown key: {key}")

/-- Reads sizes from a flat argument list, keys in order; what is not
given stays at its standard. -/
def parse (text : String) : Except CancellerError CancellerTuning :=
  match FlatArgs.parse text with
  | .error e => .error (.invalidArgument e.message)
  | .ok args => do
      let t ← args.pairs.foldlM (fun t pair => t.set pair.1 pair.2) standard
      t.validate
      return t

end CancellerTuning

/-- Frames per block: the largest power of two that is at most
`rate * frameMs / 1000`. -/
def blockFrames (rate frameMs : Nat) : Except CancellerError Nat :=
  let frames := rate * frameMs / 1000
  if frames = 0 then .error (.emptyBlock frameMs rate) else .ok (1 <<< frames.log2)

/-- A block (`blockFrames`) is the largest power of two not above its duration:
twice as many frames would be too long. -/
theorem blockFrames_eq_ok {rate frameMs n : Nat} (h : blockFrames rate frameMs = .ok n) :
    n ≤ rate * frameMs / 1000 ∧ rate * frameMs / 1000 < 2 * n := by
  simp only [blockFrames] at h
  split at h
  · contradiction
  · rename_i hpos
    simp only [Except.ok.injEq] at h
    rw [Nat.one_shiftLeft] at h
    subst h
    refine ⟨Nat.log2_self_le hpos, ?_⟩
    have := (Nat.log2_lt hpos).mp (Nat.lt_succ_self _)
    rw [Nat.pow_succ] at this
    omega

end EchoAlign
