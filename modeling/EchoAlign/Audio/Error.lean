/-!
# `EchoAlign.Audio.Error`: what can go wrong with audio

Every failure of the audio part is named by its cause, and `message`
gives its wording. Three small types come first: the failures of the
file system, of a block queue, and of plain arithmetic on a stream
description that was never validated.
-/

set_option autoImplicit false

namespace EchoAlign

/-- Why a file could not be opened, read or created. -/
inductive FileError where
  | notFound
  | notDirectory
  | isDirectory
  /-- A path or one of its components has too many bytes. -/
  | nameTooLong
  /-- No path can hold the character zero. -/
  | nulInName
  | notText
  deriving DecidableEq, Repr

namespace FileError

/-- The operating system's wording, with its error number. -/
def message : FileError → String
  | notFound => "No such file or directory (os error 2)"
  | notDirectory => "Not a directory (os error 20)"
  | isDirectory => "Is a directory (os error 21)"
  | nameTooLong => "File name too long (os error 36)"
  | nulInName => "file name contained an unexpected NUL byte"
  | notText => "stream did not contain valid UTF-8"

end FileError

/-- A division that a stream of zero-sized frames or of rate zero asks
for. -/
inductive ArithmeticFault where
  | divideByZero
  | remainderByZero
  deriving DecidableEq, Repr

namespace ArithmeticFault

/-- The wording of the fault. -/
def message : ArithmeticFault → String
  | divideByZero => "attempt to divide by zero"
  | remainderByZero => "attempt to calculate the remainder with a divisor of zero"

end ArithmeticFault

/-- Why a queue refused a block. -/
inductive QueueError where
  /-- The block would raise the queued length past the limit. -/
  | overflow (requested limit : Nat)
  /-- The block does not hold whole frames. -/
  | unaligned (size base : Nat)
  deriving DecidableEq, Repr

namespace QueueError

/-- The wording of the refusal. -/
def message : QueueError → String
  | overflow requested limit =>
      s!"Queue overflow: {requested} bytes queued, limit {limit}"
  | unaligned size base =>
      s!"Block of {size} bytes is not aligned to {base}-byte frames"

end QueueError

/-- Where audio flows at a device. -/
inductive Direction where
  | input
  | output
  deriving DecidableEq, Repr

namespace Direction

/-- The word for the direction. -/
def label : Direction → String
  | input => "input"
  | output => "output"

end Direction

/-- A failure of the audio part. -/
inductive AudioError where
  /-- A stream needs a sample rate. -/
  | zeroRate
  /-- The channel count is outside the supported range. -/
  | channelCount (count limit : Nat)
  /-- No sample format has this name. -/
  | unknownFormat (name : String)
  /-- Device streams carry 16-bit samples only. -/
  | hostFormat (name : String)
  /-- No device has this name. -/
  | noSuchDevice (name : String)
  /-- The host names no default device. -/
  | noDefaultDevice (direction : Direction)
  /-- The host could not list its devices. -/
  | enumeration (reason : String)
  /-- A file to play could not be opened. -/
  | playOpen (path : String) (reason : FileError)
  /-- A file to play could not be read. -/
  | playRead (reason : FileError)
  /-- A device stream could not be set up. -/
  | stream (reason : String)
  /-- The output file could not be created. -/
  | outputCreate (path : String) (reason : FileError)
  deriving DecidableEq, Repr

namespace AudioError

/-- The wording of the failure. -/
def message : AudioError → String
  | zeroRate => "Unsupported configuration: sample rate must be non-zero"
  | channelCount count limit =>
      s!"Unsupported configuration: unsupported channel count: {count} (1-{limit} allowed)"
  | unknownFormat name => s!"Unsupported configuration: unknown sample format: {name}"
  | hostFormat name => s!"Unsupported configuration: device host streams s16le, got {name}"
  | noSuchDevice name => s!"Device not found: {name}"
  | noDefaultDevice direction => s!"Device not found: No default {direction.label} device"
  | enumeration reason => s!"Failed to open device: {reason}"
  | playOpen path reason => s!"Failed to open device: {path}: {reason.message}"
  | playRead reason => s!"Stream error: Failed to read source file: {reason.message}"
  | stream reason => s!"Stream error: {reason}"
  | outputCreate path reason => s!"Recording error: {path}: {reason.message}"

end AudioError

end EchoAlign
