import EchoAlign.Queue
import EchoAlign.Audio.Block

/-!
# `EchoAlign.Audio.Reel`: clips of audio in order

A `Clip` is a block at a position of the byte axis of a stream. A `Reel`
holds sorted clips, parted at a place of the axis: those that end there
or before lie behind it, the others ahead. Going on from the place, going
back to it and adding at the end touch only the clips at the place, so
that their cost does not grow with the length of the reel.

`Reel.clips` lists all of them in order:

* `clips_parted`, `clips_forward`, `clips_backward`: where a reel is
  parted does not change the list.
* `clips_release`: what is let go is the beginning of the list.
-/

set_option autoImplicit false

namespace EchoAlign

/-- A block at a position of the byte axis, where position zero is the first
byte a `Tape` ever took. -/
structure Clip where
  start : Int
  block : Block

namespace Clip

/-- The position behind the last byte of the clip. -/
def stop (c : Clip) : Int := c.start + c.block.size

/-- Whether the clip ends at or before a position. Along clips in order, those
that do come first. -/
def endsBy (position : Int) (c : Clip) : Bool := c.stop ≤ position

/-- The part of the clip before a position, which is all of it if the clip ends
there. -/
def before (c : Clip) (position : Int) : Clip :=
  ⟨c.start, c.block.slice 0 (position - c.start).toNat⟩

/-- The part of the clip from a position on, for a position inside the clip. -/
def after (c : Clip) (position : Int) : Clip :=
  ⟨position, c.block.slice (position - c.start).toNat c.block.size⟩

/-- What is left of a clip that reaches into the range from `first` up
to `last?`. A missing end is no end. -/
def cut (c : Clip) (first : Int) (last? : Option Int) : List Clip :=
  let head := if c.start < first then [c.before first] else []
  let tail := match last? with
    | some last => if last < c.stop then [c.after last] else []
    | none => []
  head ++ tail

/-- Whether the clip lies behind the end of a range. -/
def isPast (c : Clip) (last? : Option Int) : Bool :=
  match last? with
  | some last => last ≤ c.start
  | none => false

/-- Removes the bytes of the range from `first` up to `last?` from sorted clips.
Clips that end before it stay as they are, and so do those that are `isPast` its
end. -/
def erase (first : Int) (last? : Option Int) : List Clip → List Clip
  | [] => []
  | c :: cs =>
      if c.stop ≤ first then c :: erase first last? cs
      else if c.isPast last? then c :: cs
      else c.cut first last? ++ erase first last? cs

/-- The bytes from `position` up to `last` behind those collected so far
(`acc`): what sorted clips hold there, and silence where they hold nothing. -/
def collect (acc : ByteArray) (position last : Int) : List Clip → ByteArray
  | [] => acc ++ silentBytes (last - position).toNat
  | c :: cs =>
      if last ≤ c.start then acc ++ silentBytes (last - position).toNat
      else if c.stop ≤ position then collect acc position last cs
      else
        let first := max c.start position
        let next := min c.stop last
        let part := c.block.slice (first - c.start).toNat (next - c.start).toNat
        collect (acc ++ silentBytes (first - position).toNat ++ part.bytes) next last cs

end Clip

/-- Sorted clips, parted at a place of the byte axis, so that neither reading on
nor adding at the end looks at all of them. -/
structure Reel where
  /-- The clips that end at the place or before. -/
  behind : Queue Clip
  /-- The clips that reach beyond the place. -/
  ahead : Queue Clip

namespace Reel

/-- A reel without clips. -/
def blank : Reel := ⟨.empty, .empty⟩

/-- All clips in order, which is the view every law of a `Reel` is stated on. -/
def clips (r : Reel) : List Clip := r.behind.toList ++ r.ahead.toList

/-- A reel of these sorted clips, parted at a `place` by `Clip.endsBy`. -/
def parted (place : Int) (clips : List Clip) : Reel :=
  ⟨.ofList (clips.takeWhile (Clip.endsBy place)), .ofList (clips.dropWhile (Clip.endsBy place))⟩

/-- The reel parted at a `place` further on: clips that end by it move over. -/
def forward (r : Reel) (place : Int) : Reel :=
  ⟨(r.ahead.takeWhile (Clip.endsBy place)).foldl Queue.push r.behind,
    r.ahead.dropWhile (Clip.endsBy place)⟩

/-- The reel parted at a `place` further back: clips that no longer end by it
move over. -/
def backward (r : Reel) (place : Int) : Reel :=
  let behind := r.behind.toList
  ⟨.ofList (behind.takeWhile (Clip.endsBy place)),
    r.ahead.prepend (behind.dropWhile (Clip.endsBy place))⟩

/-- Lets go of the clips at the beginning that end by a position. What is ahead
is looked at only where nothing is left behind. -/
def release (r : Reel) (position : Int) : Reel :=
  let behind := r.behind.dropWhile (Clip.endsBy position)
  if behind.isEmpty then ⟨.empty, r.ahead.dropWhile (Clip.endsBy position)⟩
  else ⟨behind, r.ahead⟩

/-- Adds a clip at the end of a reel that is parted at `place`, to the half in
which it belongs. -/
def add (r : Reel) (place : Int) (c : Clip) : Reel :=
  if c.endsBy place then { r with behind := r.behind.push c }
  else { r with ahead := r.ahead.push c }

/-- Erases all from a `position` on, in a reel that is parted at `place`
(`Clip.erase` without an end). -/
def eraseFrom (r : Reel) (place position : Int) : Reel :=
  if place ≤ position then
    forward ⟨r.behind, .ofList (Clip.erase position none r.ahead.toList)⟩ place
  else parted place (Clip.erase position none r.clips)

/-! ### What becomes of the clips -/

/-- A reel that is `blank` has no clips. -/
@[simp] theorem clips_blank : blank.clips = [] := rfl

/-- Where sorted clips are parted makes no difference to the clips there are. -/
@[simp] theorem clips_parted (place : Int) (clips : List Clip) :
    (parted place clips).clips = clips := by
  simp [parted, Reel.clips]

/-- Parting a reel further on changes none of its clips. -/
@[simp] theorem clips_forward (r : Reel) (place : Int) : (r.forward place).clips = r.clips := by
  simp [forward, clips]

/-- Parting a reel further back changes none of its clips. -/
@[simp] theorem clips_backward (r : Reel) (place : Int) : (r.backward place).clips = r.clips := by
  unfold backward clips
  rw [Queue.toList_ofList, Queue.toList_prepend, ← List.append_assoc, List.takeWhile_append_dropWhile]

/-- What `release` lets go of are the first clips that end by the position, and
no others. -/
@[simp] theorem clips_release (r : Reel) (position : Int) :
    (r.release position).clips = r.clips.dropWhile (Clip.endsBy position) := by
  unfold release clips
  rw [List.dropWhile_append]
  simp only [Queue.isEmpty_eq, Queue.toList_dropWhile]
  split <;> simp_all

end Reel

end EchoAlign
