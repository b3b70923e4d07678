/-!
# `EchoAlign.Endpoint.Buffered`: files written through a buffer

What is written to a `BufferedFile` waits in a buffer, until more waits
than the buffer holds or the place in the file is to change. Only then
does it reach the file. Pieces as large as the buffer are not kept
waiting.

The bytes of a file are written over, and behind its end it grows; it
never becomes shorter. Writing always succeeds here.
-/

set_option autoImplicit false

namespace EchoAlign

/-- A file that is written through a buffer. What is `waiting` has not reached
it, and goes to its `place` when it does. -/
structure BufferedFile where
  /-- What the file holds. -/
  stored : ByteArray
  /-- Where in the file the next bytes go. -/
  place : Nat
  /-- What was written and has not reached the file. -/
  waiting : ByteArray

namespace BufferedFile

/-- How many bytes can wait. -/
def capacity : Nat := 8192

/-- A new, empty file. -/
def empty : BufferedFile := ⟨ByteArray.empty, 0, ByteArray.empty⟩

/-- Puts bytes into the file, over those at its `place`, which moves behind
them. -/
def store (f : BufferedFile) (bytes : ByteArray) : BufferedFile :=
  let stop := f.place + bytes.size
  { f with
    stored := f.stored.extract 0 f.place ++ bytes ++ f.stored.extract stop f.stored.size
    place := stop }

/-- Puts into the file what waits, and leaves nothing `waiting`. -/
def flush (f : BufferedFile) : BufferedFile :=
  { f.store f.waiting with waiting := ByteArray.empty }

/-- Writes bytes. They wait as long as the buffer has room (`capacity`), and as
many as fill a buffer go to the file at once. -/
def write (f : BufferedFile) (bytes : ByteArray) : BufferedFile :=
  let f := if capacity < f.waiting.size + bytes.size then f.flush else f
  if capacity ≤ bytes.size then f.store bytes else { f with waiting := f.waiting ++ bytes }

/-- Goes back by `n` bytes, and says whether there are as many. What waits is
put into the file first, even if there are not. -/
def back (f : BufferedFile) (n : Nat) : Bool × BufferedFile :=
  let f := f.flush
  if n ≤ f.place then (true, { f with place := f.place - n }) else (false, f)

/-- What the file holds when it is closed, which puts into it what still waits. -/
def contents (f : BufferedFile) : ByteArray := f.flush.stored

end BufferedFile

end EchoAlign
