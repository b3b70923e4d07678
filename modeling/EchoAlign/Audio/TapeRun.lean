import EchoAlign.Audio.Tape

/-!
# `EchoAlign.Audio.TapeRun`: runs of a tape

`TapeOperation` names everything that can be done to a tape, `perform`
does one thing and says what the tape answers, and `run` does a sequence
of them. A block that a tape refuses leaves the tape as it is.
-/

set_option autoImplicit false

namespace EchoAlign

/-- One thing that can be done to a tape, with its arguments. -/
inductive TapeOperation where
  /-- A block is put on. -/
  | append (block : Block)
  /-- The read head goes forward. -/
  | advance (bytes : Nat)
  /-- The read head goes back. -/
  | rewind (bytes : Nat)
  /-- The write head is moved. -/
  | seek (offset : Int) (clamp : Bool)
  /-- The unread audio is thrown away. -/
  | flush (keepHistory : Bool)
  /-- So much history is kept from now on. -/
  | setHistory (bytes : Nat)

/-- What a tape answers, which is what the functions of `Tape` return beside the
tape. -/
inductive TapeAnswer where
  | done
  /-- The block was not put on. -/
  | refused (error : QueueError)
  /-- The read head went back by this many bytes. -/
  | rewound (bytes : Nat)
  deriving DecidableEq, Repr

namespace Tape

/-- Does one thing. A block that is refused leaves the tape as it is. -/
def perform (t : Tape) : TapeOperation → TapeAnswer × Tape
  | .append block =>
      match t.append block with
      | .ok t => (.done, t)
      | .error error => (.refused error, t)
  | .advance bytes => (.done, t.advance bytes)
  | .rewind bytes => (.rewound (t.rewind bytes).1, (t.rewind bytes).2)
  | .seek offset clamp => (.done, t.seek offset clamp)
  | .flush keepHistory => (.done, t.flush keepHistory)
  | .setHistory bytes => (.done, t.setHistory bytes)

/-- Does things one after another (`Tape.perform`), and lists the answers in
order. -/
def run (t : Tape) : List TapeOperation → List TapeAnswer × Tape
  | [] => ([], t)
  | operation :: rest =>
      let (answer, t) := t.perform operation
      let (later, t) := run t rest
      (answer :: later, t)

end Tape

end EchoAlign
