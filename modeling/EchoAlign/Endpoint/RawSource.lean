import EchoAlign.Files
import EchoAlign.Audio.Spec
import EchoAlign.Endpoint.Producer

/-!
# `EchoAlign.Endpoint.RawSource`: playing recorded bytes

A `RawSource` plays headerless audio, once or in a loop, and silence
when there is no more. Bytes that do not make up a whole frame at the
end of a file are left out.
-/

set_option autoImplicit false

namespace EchoAlign

/-- Recorded audio being played from `position` on, once or in a loop. -/
structure RawSource where
  data : Block
  position : Nat
  looping : Bool

namespace RawSource

/-- Plays a block from its start. -/
def ofBlock (data : Block) (looping : Bool) : RawSource := ⟨data, 0, looping⟩

/-- Where the next byte comes from: the position, or the start when a
loop begins again. -/
def start (data : Block) (looping : Bool) (position : Nat) : Nat :=
  if data.size ≤ position ∧ looping = true then 0 else position

/-- Plays `n` more bytes behind those played so far (`acc`), as long as there is
audio. Answers with the bytes and the new position. It comes to an end since
each turn plays at least one byte. -/
def play (data : Block) (looping : Bool) (acc : ByteArray) (position n : Nat) :
    ByteArray × Nat :=
  let first := start data looping position
  if _h : 0 < n ∧ first < data.size then
    let count := min n (data.size - first)
    play data looping (acc ++ (data.slice first (first + count)).bytes) (first + count) (n - count)
  else (acc, position)
termination_by n

/-- Plays the next `n` bytes, with silence for what is missing. How much is
missing is the `underrun`. -/
def render (s : RawSource) (n : Nat) : Rendered × RawSource :=
  let (bytes, position) := play s.data s.looping ByteArray.empty s.position n
  let underrun := n - bytes.size
  (⟨Block.ofBytes (bytes ++ silentBytes underrun), underrun⟩, { s with position })

/-- Goes back by `n` bytes, or to the start. A loop does not go back over its
own beginning. -/
def rewind (s : RawSource) (n : Nat) : RawSource := { s with position := s.position - n }

/-- Recorded audio is one of the producers. -/
instance : Producer RawSource := ⟨render, rewind⟩

/-- Reads a file that is to be played. -/
def read (tree : FileTree) (path : String) : Except AudioError ByteArray :=
  match tree.find path with
  | .error e => .error (.playOpen path e)
  | .ok node =>
      match FileTree.contents node with
      | .error e => .error (.playRead e)
      | .ok bytes => .ok bytes

/-- Plays the whole frames of a file. -/
def ofFile (bytes : ByteArray) (spec : StreamSpec) (looping : Bool) : RawSource :=
  let whole := bytes.size - bytes.size % spec.frameSize
  ofBlock (Block.ofBytes (bytes.extract 0 whole)) looping

/-- The division by zero that counting whole frames asks for. -/
def fault? (spec : StreamSpec) : Option ArithmeticFault :=
  if spec.frameSize = 0 then some .remainderByZero else none

end RawSource

end EchoAlign
