import EchoAlign.Files
import EchoAlign.Audio.Block

/-!
# `EchoAlign.Endpoint.Dumps`: recording what the canceller does

For diagnosis, the three streams of a session can be written to raw
files: what was captured, what was played, and what came out. A dump
that cannot be created or written is given up, and neither the other
dumps nor the session notice.
-/

set_option autoImplicit false

namespace EchoAlign

/-- One dump file. Whatever becomes of it, the session goes on as it would
without (`DumpFile.write` never fails). -/
inductive DumpFile where
  /-- The file could not be created. -/
  | missing
  /-- The file holds these blocks, listed newest first, and takes up to
  `room?` bytes more; without a number there is no limit. -/
  | recording (blocks : List Block) (room? : Option Nat)
  /-- A write failed after this many bytes, and nothing more is
  written. -/
  | abandoned (written : Nat)

namespace DumpFile

/-- A new file on a medium without limits. -/
def fresh : DumpFile := recording [] none

/-- Creates one dump file. A dump that cannot be created is done
without. -/
def create (files : FileTree) (path : String) : DumpFile × FileTree :=
  match files.create path with
  | .ok files => (.fresh, files)
  | .error _ => (.missing, files)

/-- The size of blocks altogether. -/
def totalSize (blocks : List Block) : Nat := blocks.foldl (fun size block => size + block.size) 0

/-- Writes a block behind what the file holds. A file whose medium has no room
for the block is given up, and takes no other. -/
def write (f : DumpFile) (block : Block) : DumpFile :=
  match f with
  | recording blocks none => recording (block :: blocks) none
  | recording blocks (some room) =>
      if block.size ≤ room then recording (block :: blocks) (some (room - block.size))
      else abandoned (totalSize blocks)
  | other => other

/-- How many bytes were written, those of a file that was given up among them. -/
def bytesWritten : DumpFile → Nat
  | missing => 0
  | recording blocks _ => totalSize blocks
  | abandoned written => written

/-- What the file holds, unless it was never created or given up. -/
def contents? : DumpFile → Option ByteArray
  | recording blocks _ =>
      some (blocks.reverse.foldl (fun bytes block => bytes ++ block.bytes) ByteArray.empty)
  | _ => none

end DumpFile

/-- The dumps of a session: one file for each of the three streams of the
canceller. -/
structure Dumps where
  captured : DumpFile
  played : DumpFile
  cleaned : DumpFile

namespace Dumps

/-- The name of the file of captured audio. -/
def capturedName : String := "aec_rec.sw"

/-- The name of the file of played audio. -/
def playedName : String := "aec_play.sw"

/-- The name of the file of cleaned audio. -/
def cleanedName : String := "aec_out.sw"

/-- The names of the three files. -/
def fileNames : List String := [capturedName, playedName, cleanedName]

/-- Three new files on media without limits. -/
def fresh : Dumps := ⟨.fresh, .fresh, .fresh⟩

/-- Three files that could not be created. -/
def missing : Dumps := ⟨.missing, .missing, .missing⟩

/-- Creates the three files in a folder. -/
def create (files : FileTree) (folder : String) : Dumps × FileTree :=
  let (captured, files) := DumpFile.create files (FileTree.inFolder folder capturedName)
  let (played, files) := DumpFile.create files (FileTree.inFolder folder playedName)
  let (cleaned, files) := DumpFile.create files (FileTree.inFolder folder cleanedName)
  (⟨captured, played, cleaned⟩, files)

/-- Records one run of the canceller, with each of the three blocks in its own
file. -/
def write (d : Dumps) (captured played cleaned : Block) : Dumps :=
  ⟨d.captured.write captured, d.played.write played, d.cleaned.write cleaned⟩

/-- The three files in the order of their names. -/
def files (d : Dumps) : List DumpFile := [d.captured, d.played, d.cleaned]

end Dumps

end EchoAlign
