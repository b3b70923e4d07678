import EchoAlign.Files
import EchoAlign.Audio.Block
import EchoAlign.Endpoint.Buffered

/-!
# `EchoAlign.Endpoint.RawSink`: writing the cleaned stream

A `RawSink` writes a stream to a headerless file. A rewind moves the
place where the next block goes; what is written then replaces what was
there. Bytes behind that place stay in the file until they are
replaced.

`SinkCall` names what can be asked of a sink, `perform` does one of these
things, and `run` a sequence of them.
-/

set_option autoImplicit false

namespace EchoAlign

/-- A stream being written to a file. Where the sink can go back to is given by
`bytesWritten`. -/
structure RawSink where
  file : BufferedFile
  /-- How many bytes of the stream have been written. -/
  bytesWritten : Nat

/-- What a sink can be asked for. -/
inductive SinkCall where
  /-- To write a block. -/
  | post (block : Block)
  /-- To go back by so many bytes. -/
  | rewind (bytes : Nat)

namespace RawSink

/-- A new, empty file. -/
def empty : RawSink := ⟨.empty, 0⟩

/-- Writes a block over what the file holds at its place. -/
def post (s : RawSink) (block : Block) : RawSink :=
  { file := s.file.write block.bytes
    bytesWritten := s.bytesWritten + block.size }

/-- Goes back by up to `n` bytes, but not beyond `bytesWritten`. What the file
holds there stays until something is written over it. -/
def rewind (s : RawSink) (n : Nat) : RawSink :=
  let amount := min n s.bytesWritten
  let (moved, file) := s.file.back amount
  if moved then ⟨file, s.bytesWritten - amount⟩ else { s with file }

/-- What the file holds when the sink is let go (`BufferedFile.contents`). -/
def contents (s : RawSink) : ByteArray := s.file.contents

/-- Does what it is asked for. -/
def perform (s : RawSink) : SinkCall → RawSink
  | .post block => s.post block
  | .rewind n => s.rewind n

/-- Does one thing after another (`RawSink.perform`). -/
def run (s : RawSink) (calls : List SinkCall) : RawSink := calls.foldl perform s

/-- Creates the file, or says why it cannot be. -/
def create (tree : FileTree) (path : String) : Except AudioError (RawSink × FileTree) :=
  match tree.create path with
  | .error e => .error (.outputCreate path e)
  | .ok tree => .ok (empty, tree)

end RawSink

end EchoAlign
