import EchoAlign.Audio.Spec

/-!
# `EchoAlign.Align.Skip`: bytes to be dropped

The two streams are realigned by dropping audio from one of them. A
`Skip` says how many bytes are still to be dropped, and from which side.

* A positive offset means that playback is too far ahead, so captured
  bytes are dropped.
* A negative offset means that playback comes late, so playback bytes
  are dropped, with `safetyFrames` more to absorb jitter.
* An offset shorter than one frame changes nothing
  (`ofOffset?_eq_none_iff`).
-/

set_option autoImplicit false

namespace EchoAlign

/-- Frames dropped beyond the measured offset when playback is late. -/
def safetyFrames : Nat := 10

/-- Bytes still to be dropped. At most one side has any. -/
structure Skip where
  /-- Captured bytes. -/
  source : Nat
  /-- Playback bytes. -/
  sink : Nat
  deriving DecidableEq, Repr

namespace Skip

/-- Nothing to drop, as in a new session and whenever a `Skip` is used up. -/
def idle : Skip := ⟨0, 0⟩

/-- Whether nothing is to be dropped from either side, which is to say that the
skip is `idle`. -/
def isIdle (s : Skip) : Bool := s.source == 0 && s.sink == 0

/-- The skip that makes up for an offset of `usec` microseconds, if the
offset is at least one frame long. The bytes are those of whole frames
(`StreamSpec.bytesOfUsec`), and where playback is late, those of
`safetyFrames` come on top. They are numbers here, and words as long as
they fit one. -/
def ofOffset? (spec : StreamSpec) (usec : Int) : Option Skip :=
  let bytes := spec.bytesOfUsec usec.natAbs
  if bytes = 0 then none
  else if usec < 0 then some ⟨0, bytes + spec.bytesOfFrames safetyFrames⟩
  else some ⟨bytes, 0⟩

/-- Replaces the skip by the one an offset asks for (`ofOffset?`), and says
whether it asks for one. What was left of the old skip is forgotten then. -/
def correct (s : Skip) (spec : StreamSpec) (usec : Int) : Bool × Skip :=
  match ofOffset? spec usec with
  | some skip => (true, skip)
  | none => (false, s)

/-- Uses up to `available` captured bytes of the skip, and says how many were
used. -/
def takeSource (s : Skip) (available : Nat) : Nat × Skip :=
  let n := min s.source available
  (n, { s with source := s.source - n })

/-- Uses up to `available` playback bytes of the skip, and says how many were
used. -/
def takeSink (s : Skip) (available : Nat) : Nat × Skip :=
  let n := min s.sink available
  (n, { s with sink := s.sink - n })

/-- Exactly the offsets that come to no whole frame ask for no skip:
`StreamSpec.bytesOfUsec` of their size is zero. -/
theorem ofOffset?_eq_none_iff (spec : StreamSpec) (usec : Int) :
    ofOffset? spec usec = none ↔ spec.bytesOfUsec usec.natAbs = 0 := by
  unfold ofOffset?
  by_cases h : spec.bytesOfUsec usec.natAbs = 0
  · simp [h]
  · by_cases hneg : usec < 0 <;> simp [h, hneg]

end Skip

end EchoAlign
