import EchoAlign.Audio.Shelf

/-!
# `EchoAlign.Audio.ShelfRun`: how blocks come about

A block is made of bytes, of samples or of silence (`Block.Origin`). Others
are derived from it on the same storage, and from those in turn
(`Block.Derivation`). `ShelfOperation` names both for the blocks on a shelf,
and `Shelf.run` does a sequence of them.
-/

set_option autoImplicit false

namespace EchoAlign

namespace Block

/-- What a block is made of, one constructor for each way to make one. -/
inductive Origin where
  | bytes (data : ByteArray)
  | samples (values : List Int16)
  | silence (n : Nat)

/-- The block that is made of it: `ofBytes`, `ofSamples` or `Block.silence`. -/
def Origin.block : Origin → Block
  | .bytes data => ofBytes data
  | .samples values => ofSamples values
  | .silence n => Block.silence n

/-- How a block is derived from another one. -/
inductive Derivation where
  /-- It is the same window once more. -/
  | clone
  /-- It is a part of the window. The ends of the part may lie anywhere. -/
  | slice (start stop : Nat)

/-- The block that is derived from `b`: the same window, or its `slice`. -/
def derived (b : Block) : Derivation → Block
  | .clone => b
  | .slice start stop => b.slice start stop

/-- The last of a chain of blocks, each derived (`Block.derived`) from the one
before it. -/
def Origin.derived (origin : Origin) (chain : List Derivation) : Block :=
  chain.foldl Block.derived origin.block

end Block

/-- One way to put a block on a shelf. -/
inductive ShelfOperation where
  /-- A block is made. -/
  | make (origin : Block.Origin)
  /-- A block is derived from the `i`th one. -/
  | derive (i : Nat) (derivation : Block.Derivation)

namespace Shelf

/-- Puts one block on the shelf, as `Shelf.add`, `Shelf.addClone` or
`Shelf.addSlice` does. -/
def perform (s : Shelf) : ShelfOperation → Shelf
  | .make origin => s.add origin.block
  | .derive i .clone => s.addClone i
  | .derive i (.slice start stop) => s.addSlice i start stop

/-- Puts blocks on the shelf, one after another (`Shelf.perform`). -/
def run (s : Shelf) (operations : List ShelfOperation) : Shelf :=
  operations.foldl perform s

end Shelf

end EchoAlign
