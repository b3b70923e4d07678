import EchoAlign.Word
import EchoAlign.Audio.Error
import EchoAlign.Audio.Reel

/-!
# `EchoAlign.Audio.Tape`: a byte tape with two heads

A `Tape` holds the audio of one stream on an absolute byte axis. The
audio sits in clips on a `Reel`, and two heads move along the axis on
their own: the read head takes audio off, the write head puts audio on.
Moving a head copies no samples, which makes re-reading (`rewind`) and
replacing (`seek`) cheap.

* The clips are sorted, do not overlap, and end at or before the write
  head. A stretch without a clip is a hole and reads as silence.
* The reel is parted at the read head.
* Audio behind the read head is history. As much of it is kept as
  `history` asks for; `floor` bounds a rewind from below after the
  history was thrown away.
* `peek` and `take` answer with the bytes from the read head on; the
  block is a part of a single clip where one covers the range.
-/

set_option autoImplicit false

namespace EchoAlign

/-- The most bytes any tape may hold unread. -/
def maxTapeLength : Nat := 16 * 1024 * 1024

/-- The audio of one stream, with a read head and a write head. Positions count
bytes from the first one that was ever put on. What lies before the `readHead`
has been read and is kept as far as `history` and `floor` say. -/
structure Tape where
  /-- Bytes per frame; only whole frames are put on the tape. -/
  base : Nat
  /-- The most bytes that may lie unread. -/
  limit : Nat
  /-- How many bytes behind the read head are to be kept. -/
  history : Nat
  reel : Reel
  readHead : Int
  writeHead : Int
  /-- No rewind goes below this position. -/
  floor : Int

namespace Tape

/-- An empty tape for frames of `base` bytes and at most `limit` unread bytes.
No limit goes beyond `maxTapeLength`. -/
def create (base limit : Nat) : Tape :=
  { base := max base 1
    limit := min limit maxTapeLength
    history := 0
    reel := .blank
    readHead := 0
    writeHead := 0
    floor := 0 }

/-- The clips in order. -/
def clips (t : Tape) : List Clip := t.reel.clips

/-- The number of unread bytes, from the `readHead` to the `writeHead`. -/
def length (t : Tape) : Nat := (t.writeHead - t.readHead).toNat

/-- Whether nothing lies unread. -/
def isEmpty (t : Tape) : Bool := t.length == 0

/-- The lowest position whose audio is kept: `history` bytes behind the read
head, but nothing from before the `floor`. -/
def historyFloor (t : Tape) : Int := max t.floor (t.readHead - Word.signed t.history)

/-- Lets go of the clips that end at or before the kept history
(`historyFloor`). -/
def releaseHistory (t : Tape) : Tape := { t with reel := t.reel.release t.historyFloor }

/-- Sets how much history is kept. -/
def setHistory (t : Tape) (history : Nat) : Tape := { t with history }.releaseHistory

/-- Puts a block on the tape at the write head, behind which nothing lies.
Refused are blocks that do not hold whole frames of `base` bytes, and those that
would take the unread length over `limit`. -/
def append (t : Tape) (block : Block) : Except QueueError Tape :=
  if block.size % t.base ≠ 0 then .error (.unaligned block.size t.base)
  else if block.size = 0 then .ok t
  else
    let last := t.writeHead + block.size
    let requested := (last - t.readHead).toNat
    if t.limit < requested then .error (.overflow requested t.limit)
    else .ok { t with reel := t.reel.add t.readHead ⟨t.writeHead, block⟩, writeHead := last }

/-- The next `n` bytes at the read head, which stays where it is. Where the tape
holds nothing there is silence (`Clip.collect`). -/
def peek (t : Tape) (n : Nat) : Block :=
  if n = 0 then Block.silence 0
  else
    let first := t.readHead
    let last := t.readHead + Word.signed n
    match t.reel.ahead.head? with
    | none => Block.silence (last - first).toNat
    | some c =>
        if c.start ≤ first ∧ last ≤ c.stop then
          let offset := (first - c.start).toNat
          c.block.slice offset (offset + n)
        else
          Block.ofBytes (Clip.collect ByteArray.empty first last
            (t.reel.ahead.takeWhile (·.start < last)))

/-- Puts the read head at a position. -/
def moveReadHead (t : Tape) (position : Int) : Tape :=
  { t with
    readHead := position
    reel := if t.readHead ≤ position then t.reel.forward position else t.reel.backward position }

/-- Moves the read head forward by `n` bytes and lets go of history. The write
head never falls behind it here. -/
def advance (t : Tape) (n : Nat) : Tape :=
  let t := t.moveReadHead (t.readHead + Word.signed n)
  { t with writeHead := max t.writeHead t.readHead }.releaseHistory

/-- The next `n` bytes, taken off the tape. -/
def take (t : Tape) (n : Nat) : Block × Tape := (t.peek n, t.advance n)

/-- Moves the read head back by up to `n` bytes of kept history
(`historyFloor`), and says by how many. -/
def rewind (t : Tape) (n : Nat) : Nat × Tape :=
  let amount := min n (t.readHead - t.historyFloor).toNat
  (amount, t.moveReadHead (t.readHead - amount))

/-- Moves the write head. Going back forgets what lies behind it, going
forward leaves a hole; `clamp` keeps it from passing the read head. -/
def seek (t : Tape) (offset : Int) (clamp : Bool) : Tape :=
  let wanted := t.writeHead + offset
  let wanted := if clamp then max wanted t.readHead else wanted
  let target := min wanted (t.readHead + t.limit)
  let reel := if target < t.writeHead then t.reel.eraseFrom t.readHead target else t.reel
  { t with reel, writeHead := target }

/-- Throws the unread audio away, and the history too unless it is to be kept.
Without it the `floor` rises to the read head. -/
def flush (t : Tape) (keepHistory : Bool) : Tape :=
  let t :=
    { t with reel := t.reel.eraseFrom t.readHead t.readHead, writeHead := t.readHead }
  if keepHistory then t else { t with reel := .blank, floor := t.readHead }

end Tape

end EchoAlign
