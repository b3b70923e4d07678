import EchoAlign.Audio.Block

/-!
# `EchoAlign.Audio.Shelf`: blocks with known storage

A `Block` does not tell whose storage it is a window into: two storages
with equal bytes are the same value. A `Shelf` keeps blocks in the
order in which they were made, each with the number of the storage it
belongs to, so that sharing can be asked for.
-/

set_option autoImplicit false

namespace EchoAlign

/-- A block together with the number of its storage. Two blocks with one number
share their bytes. -/
structure Shelved where
  storage : Nat
  block : Block

/-- The blocks made so far, oldest first, and the next unused storage
number. -/
structure Shelf where
  items : Array Shelved
  nextStorage : Nat

namespace Shelf

/-- A shelf without blocks. -/
def empty : Shelf := ⟨#[], 0⟩

/-- Puts a block with a storage of its own on the shelf, under the number
`nextStorage`. -/
def add (s : Shelf) (b : Block) : Shelf :=
  ⟨s.items.push ⟨s.nextStorage, b⟩, s.nextStorage + 1⟩

/-- Puts a part of the `i`th block on the shelf. It keeps the storage. -/
def addSlice (s : Shelf) (i start stop : Nat) : Shelf :=
  match s.items[i]? with
  | none => s
  | some item =>
      { s with items := s.items.push ⟨item.storage, item.block.slice start stop⟩ }

/-- Puts the `i`th block on the shelf again. It keeps the storage. -/
def addClone (s : Shelf) (i : Nat) : Shelf :=
  match s.items[i]? with
  | none => s
  | some item => { s with items := s.items.push item }

/-- The `i`th block. -/
def get? (s : Shelf) (i : Nat) : Option Block := s.items[i]?.map (·.block)

/-- Whether two blocks on the shelf are windows into one storage. Numbers of
blocks that are not there share nothing. -/
def shares (s : Shelf) (i j : Nat) : Bool :=
  match s.items[i]?, s.items[j]? with
  | some a, some b => a.storage == b.storage
  | _, _ => false

end Shelf

end EchoAlign
