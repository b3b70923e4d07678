import EchoAlign.Proofs.Session.Acts
import EchoAlign.Proofs.Session.Paths
import EchoAlign.Proofs.Session.Pending

/-!
# `EchoAlign.Proofs.Session.Suspension`: ticks of a suspended capture side

A capture side whose device is suspended throws playback away. The blocks
that it still gets are passed on as they are.

* `suspended_passes`: a capture tick that finds the side suspended, once
  its messages are handled, runs no canceller. What was captured is dropped
  or passed on, and no playback is left on the tape. This holds as long as
  the consumer takes no bytes back during a suspension.
* `suspended_cancels`: bytes that are taken back during a suspension bring
  playback back on the tape, and the next tick pairs it.

`Muted` is the invariant behind it: no playback lies unread while the side
is suspended. Neither `Muted` nor what is said of the captured audio
(`Recording`) asks for anything of the playback tape but its length.
-/

set_option autoImplicit false

namespace EchoAlign

namespace Event

/-- A block of `size` bytes is passed on without any playback, or captured
audio is dropped. -/
def IsUnpaired (size : Nat) (event : Event) : Prop :=
  (∃ captured, event = skipped captured)
    ∨ ∃ captured dropped, event = passed captured dropped ∧ captured.size = size
      ∧ dropped.size = 0

end Event

/-! ### Pairing without playback -/

namespace Pairing

variable {κ : Type} [Canceller κ] {p next : Pairing κ} {event : Event} {base : Nat}
  {bytes : List UInt8}

/-- Without playback there is none after a step. By `Pairing.step?_cases`: it
takes some off at most. -/
theorem played_step?_of_muted (h : p.played.length = 0) (hstep : p.step? = some (event, next)) :
    next.played.length = 0 := by
  obtain ⟨-, ⟨-, heq⟩ | ⟨-, hcan, heq⟩ | ⟨-, -, heq⟩⟩ := step?_cases hstep
  · cases heq
    exact h
  · -- Only an empty block could be cancelled.
    cases heq
    have hready := ready_of_canCancel hcan
    show (p.played.advance p.blockBytes).length = 0
    rw [show p.blockBytes = 0 by omega]
    exact Tape.length_advance_zero h
  · cases heq
    show (p.played.advance (min p.skip.sink p.played.length)).length = 0
    rw [h, Nat.min_zero]
    exact Tape.length_advance_zero h

/-- Without playback, a block is passed on or dropped: its event `IsUnpaired`. -/
theorem isUnpaired_step? (hpos : 0 < p.blockBytes) (hcaptured : p.captured.Holds base bytes)
    (h : p.played.length = 0) (hstep : p.step? = some (event, next)) :
    event.IsUnpaired p.blockBytes := by
  obtain ⟨hle, ⟨-, heq⟩ | ⟨-, hcan, -⟩ | ⟨-, -, heq⟩⟩ := step?_cases hstep
  · cases heq
    exact Or.inl ⟨_, rfl⟩
  · have hready := ready_of_canCancel hcan
    omega
  · cases heq
    have hlen := hcaptured.length_eq
    refine Or.inr ⟨_, _, rfl, (hcaptured.take (by omega : p.blockBytes ≤ bytes.length)).1, ?_⟩
    show (p.played.peek (min p.skip.sink p.played.length)).size = 0
    rw [h, Nat.min_zero]
    rfl

/-- Without playback, all blocks are passed on or dropped, and no playback turns
up. By induction on the `Path`. -/
theorem Path.muted {events : List Event} {last : Pairing κ} (h : Path p events last)
    (hpos : 0 < p.blockBytes) (hcaptured : p.captured.Holds base bytes)
    (hplayed : p.played.length = 0) :
    (∀ event ∈ events, event.IsUnpaired p.blockBytes) ∧ last.played.length = 0 := by
  induction h generalizing bytes with
  | refl => exact ⟨fun event hevent => absurd hevent List.not_mem_nil, hplayed⟩
  | cons hstep _ ih =>
      obtain ⟨hsize, _, _, -, -, -, -, hrest⟩ := captured_step? hcaptured hstep
      obtain ⟨hunpaired, hlast⟩ :=
        ih (hsize ▸ hpos) hrest (played_step?_of_muted hplayed hstep)
      rw [hsize] at hunpaired
      exact ⟨List.forall_mem_cons.mpr
        ⟨isUnpaired_step? hpos hcaptured hplayed hstep, hunpaired⟩, hlast⟩

end Pairing

/-! ### The capture side -/

namespace Capture

variable {κ : Type} {c : Capture κ} {link : Link}

/-- No playback lies unread while the side is `suspended`. -/
def Muted (c : Capture κ) : Prop := c.suspended = true → c.pairing.played.length = 0

/-- Blocks have `size` bytes, and the tape of captured audio holds some
frames of `base` bytes. -/
structure Records (size base : Nat) (c : Capture κ) : Prop where
  blockBytes_eq : c.pairing.blockBytes = size
  captured : ∃ bytes, c.pairing.captured.Holds base bytes

/-- A correction puts no playback on the tape (`Muted`). -/
theorem muted_correct (h : c.Muted) (usec : Int) : (c.correct link usec).1.Muted := h

/-- A resync puts no playback on the tape (`Muted`), as it only sets the skip. -/
theorem muted_resync (h : c.Muted) (epoch : Nat) (timing : PlaybackTiming) :
    (c.resync link epoch timing).1.Muted := by
  unfold resync
  split
  · exact h
  · exact h

/-- Whatever a suspended side handles, no playback comes to lie unread: rendered
audio is thrown away, and a suspension flushes the tape. By cases on the
message. Audio that is taken back (`takeBack`) flushes a suspended side, too. -/
theorem Muted.handle (h : c.Muted) (link : Link) (message : CaptureMessage) :
    (c.handle link message).1.Muted := by
  cases message with
  | rendered block =>
      intro hsuspended
      have hsuspended : c.suspended = true := hsuspended
      show (c.receive block).pairing.played.length = 0
      simp only [receive, hsuspended, if_true]
      exact Tape.length_flush _
  | rewound bytes =>
      intro hsuspended
      have hsuspended : c.suspended = true := hsuspended
      show (c.takeBack bytes).pairing.played.length = 0
      simp only [takeBack, hsuspended, if_true]
      exact Tape.length_flush _
  | timingRequest ticket => exact h
  | correct usec => exact muted_correct h usec
  -- A resync changes the skip only, and so does a correction.
  | playbackTiming epoch timing => exact muted_resync h epoch timing
  | device state =>
      cases state with
      | suspended => exact fun _ => Tape.length_flush _
      | running =>
          show (c.follow .running).Muted
          simp only [follow]
          split
          · exact h
          · exact h

/-- Captured audio puts no playback on the tape (`Muted`). -/
theorem Muted.accept (h : c.Muted) (block : Block) : (c.accept block).Muted := by
  unfold Capture.accept
  split
  · exact h
  · exact h

variable {size base : Nat}

/-- A resync leaves the captured tape alone (`Records`). -/
theorem records_resync (h : c.Records size base) (epoch : Nat) (timing : PlaybackTiming) :
    (c.resync link epoch timing).1.Records size base := by
  unfold resync
  split
  · exact h
  · exact ⟨h.blockBytes_eq, h.captured⟩

/-- No message touches the captured audio, but that a suspension throws it away.
By cases on the message; `Capture.follow` is where the captured tape is flushed. -/
theorem Records.handle (h : c.Records size base) (link : Link) (message : CaptureMessage) :
    (c.handle link message).1.Records size base := by
  cases message with
  | playbackTiming epoch timing => exact records_resync h epoch timing
  | device state =>
      cases state with
      | suspended =>
          obtain ⟨bytes, hbytes⟩ := h.captured
          exact ⟨h.blockBytes_eq, [], hbytes.flush⟩
      | running =>
          show (c.follow .running).Records size base
          simp only [follow]
          split
          · exact ⟨h.blockBytes_eq, h.captured⟩
          · exact h
  | _ => exact ⟨h.blockBytes_eq, h.captured⟩

/-- Captured audio that arrives keeps the captured tape in order (`Records`),
also where the tape refuses it. -/
theorem Records.accept (h : c.Records size base) (block : Block) :
    (c.accept block).Records size base := by
  obtain ⟨bytes, hbytes⟩ := h.captured
  have happended := hbytes.appendWithin block
  unfold Capture.accept
  split
  · next captured happend =>
      rw [happend] at happended
      exact ⟨h.blockBytes_eq, _, happended⟩
  · exact h

/-- Going back keeps the captured tape in order (`Records`). -/
theorem Records.rewind (h : c.Records size base) (n : Nat) : (c.rewind n).Records size base := by
  obtain ⟨bytes, hbytes⟩ := h.captured
  exact ⟨h.blockBytes_eq, hbytes.seek _⟩

/-- Without bytes that are taken back (`hkept`), a suspended side stays without
playback, whatever happens between two ticks. -/
theorem stable_muted [Canceller κ] {allowed : Operation → Prop}
    (hkept : ∀ n, ¬ allowed (.rewindCapture n)) :
    Stable allowed (Muted : Capture κ → Prop) where
  handle _ link message h := h.handle link message
  resume _ _ _ _ := nofun
  accept _ block _ h := h.accept block
  pair _ _ _ hstep h := fun hsuspended => Pairing.played_step?_of_muted (h hsuspended) hstep
  rewind _ n ha := absurd ha (hkept n)

/-- The captured tape stays in order (`Records`) whatever happens between two
ticks. -/
theorem stable_records [Canceller κ] (allowed : Operation → Prop) (size base : Nat) :
    Stable allowed (Records size base : Capture κ → Prop) where
  handle _ link message h := h.handle link message
  resume _ _ _ h := ⟨h.blockBytes_eq, h.captured⟩
  accept _ block _ h := h.accept block
  pair _ _ _ hstep h := by
    obtain ⟨bytes, hbytes⟩ := h.captured
    obtain ⟨hsize, n, captured, -, -, -, -, hrest⟩ := Pairing.captured_step? hbytes hstep
    exact ⟨hsize.trans h.blockBytes_eq, _, hrest⟩
  rewind _ n _ h := h.rewind n

end Capture

namespace Session

variable {κ υ : Type} [Canceller κ] [Producer υ] {s : Session κ υ}

/-- An operation that takes back nothing that the consumer has got, that is, any
but `.rewindCapture`. -/
def KeepsCapture (operation : Operation) : Prop := ∀ n, operation ≠ .rewindCapture n

/-- Whenever the consumer takes bytes back (`rewindCapture`), the capture side
is at work, in the state that the operation meets. -/
def TakesBackAwake : Session κ υ → List Operation → Prop
  | _, [] => True
  | s, operation :: rest =>
      (∀ n, operation = .rewindCapture n → s.CaptureIs fun c => c.suspended = false)
        ∧ TakesBackAwake (s.perform operation).2 rest

omit [Canceller κ] [Producer υ] in
/-- A side at work stays at work when bytes are taken back, so that `Muted` says
nothing of it. -/
theorem muted_rewindCapture (hawake : s.CaptureIs fun c => c.suspended = false) (n : Nat) :
    (s.rewindCapture n).2.CaptureIs Capture.Muted := by
  have hmuted : s.CaptureIs Capture.Muted := fun c hc hsuspended =>
    absurd (hsuspended.symm.trans (hawake c hc)) nofun
  unfold rewindCapture
  split
  · exact hmuted
  · next c hc =>
      split
      · exact hmuted
      · intro c' hc' hsuspended
        cases hc'
        exact absurd (hsuspended.symm.trans (hawake c hc)) nofun

/-- As long as bytes are taken back from a side at work only (`TakesBackAwake`),
a suspended side has no playback. -/
theorem muted_run (h : s.CaptureIs Capture.Muted) {operations : List Operation}
    (hback : s.TakesBackAwake operations) : (s.run operations).2.CaptureIs Capture.Muted := by
  induction operations generalizing s with
  | nil => exact h
  | cons operation rest ih =>
      refine ih ?_ hback.2
      -- Bytes that are taken back are the only danger.
      by_cases hrewind : ∃ n, operation = .rewindCapture n
      · obtain ⟨n, rfl⟩ := hrewind
        exact muted_rewindCapture (hback.1 n rfl) n
      · have hkeeps : KeepsCapture operation := fun n hn => hrewind ⟨n, hn⟩
        exact h.steps (Capture.stable_muted fun n ha => ha n rfl) (s.steps_perform hkeeps)

omit [Producer υ] in
/-- A new session is not suspended, its blocks have some bytes, and its tapes
are in order (`Muted`, `Records`). -/
theorem IsNew.recording (h : s.IsNew) :
    s.CaptureIs Capture.Muted ∧ 0 < s.blockBytes
      ∧ s.CaptureIs (Capture.Records s.blockBytes s.spec.frameSize) := by
  obtain ⟨spec, capacity, canceller, producer, link, dumps?, rfl, ⟨_, _, _, _, rfl⟩, hspec, hrate,
    -, hframes⟩ := h.opened
  have hpos := StreamSpec.bytesOfFrames_pos hspec hframes
  refine ⟨?_, hpos, ?_⟩
  · intro c hc
    cases hc
    exact nofun
  · intro c hc
    cases hc
    exact ⟨rfl, [], (Capture.holds_create hspec hrate hpos).pairing.captured⟩

omit [Producer υ] in
/-- A capture tick handles messages, takes audio in, and works it off with
`Pairing.drive`. -/
theorem push_eq {c : Capture κ} (hc : s.capture? = some c) (hlinked : s.link.linked = true)
    (block : Block) :
    (s.push block).1 = ((s.drainCapture c).1.accept block).pairing.drive.1
      ∧ (s.push block).2.capture?
        = some { (s.drainCapture c).1.accept block with
            pairing := ((s.drainCapture c).1.accept block).pairing.drive.2 }
      ∧ (s.push block).2.data = (s.data.drain s.drainLimit).2 := by
  simp only [push, hc, hlinked, Bool.not_true, Bool.false_eq_true, if_false]
  exact ⟨rfl, rfl, rfl⟩

omit [Producer υ] in
/-- A capture tick after whose messages the side is suspended, and has no
playback, drops or passes on all whole blocks of captured audio. All of its
events are `IsUnpaired` by `Path.muted`, and less than a block is left by
`path_drive`. -/
theorem push_of_muted {size base : Nat} (hpos : 0 < size) {c : Capture κ}
    (hc : s.capture? = some c) (hlinked : s.link.linked = true)
    (hrecords : (s.drainCapture c).1.Records size base)
    (hplayed : (s.drainCapture c).1.pairing.played.length = 0) (block : Block) :
    ∃ c', (s.push block).2.capture? = some c'
      ∧ c'.suspended = (s.drainCapture c).1.suspended
      ∧ (∀ event ∈ (s.push block).1, event.IsUnpaired size)
      ∧ ((s.drainCapture c).1.accept block).pairing.captured.unread
        = bytesOfBlocks ((s.push block).1.filterMap Event.captured?)
          ++ c'.pairing.captured.unread
      ∧ c'.pairing.captured.unread.length < size
      ∧ c'.pairing.played.length = 0 := by
  obtain ⟨hevents, hcapture, -⟩ := push_eq hc hlinked block
  obtain ⟨hsize, bytes, hbytes⟩ := hrecords.accept block
  -- What is captured does not touch the played side.
  have hsame : ((s.drainCapture c).1.accept block).pairing.played.length = 0 := by
    unfold Capture.accept
    split
    · exact hplayed
    · exact hplayed
  obtain ⟨hpath, hend⟩ := Pairing.path_drive (hsize ▸ hpos) hbytes
  obtain ⟨hunpaired, hmuted⟩ := hpath.muted (hsize ▸ hpos) hbytes hsame
  obtain ⟨hsize', rest, hsplit, hholds⟩ := hpath.captured hbytes
  have hshort := Pairing.length_lt_of_step?_eq_none hend
  rw [hsize', hsize, hholds.length_eq] at hshort
  rw [hsize, ← hevents] at hunpaired
  rw [← hevents] at hsplit
  refine ⟨_, hcapture, ?_, hunpaired, ?_, ?_, hmuted⟩
  · exact Capture.suspended_accept _ block
  · rw [hbytes.unread_eq, hsplit]
    exact congrArg _ hholds.unread_eq.symm
  · exact Nat.lt_of_le_of_lt (Nat.le_of_eq (congrArg List.length hholds.unread_eq)) hshort

/-- In every run of a new session in which the consumer takes bytes back from a
side at work only (`TakesBackAwake`): whenever the capture side is suspended
once the messages of a tick are handled (`drainCapture`), the tick runs no
canceller. All whole blocks of captured audio are passed on as they are or
dropped (`IsUnpaired`), and no playback is left. -/
theorem suspended_passes (hnew : s.IsNew) {operations : List Operation}
    (hback : s.TakesBackAwake operations) {c : Capture κ}
    (hc : (s.run operations).2.capture? = some c)
    (hlinked : (s.run operations).2.link.linked = true)
    (hsuspended : ((s.run operations).2.drainCapture c).1.suspended = true) (block : Block) :
    let tick := (s.run operations).2.push block
    let taken := ((s.run operations).2.drainCapture c).1.accept block
    ∃ c', tick.2.capture? = some c' ∧ c'.suspended = true
      ∧ (∀ event ∈ tick.1, event.IsUnpaired s.blockBytes)
      ∧ taken.pairing.captured.unread
        = bytesOfBlocks (tick.1.filterMap Event.captured?) ++ c'.pairing.captured.unread
      ∧ c'.pairing.captured.unread.length < s.blockBytes
      ∧ c'.pairing.played.length = 0 := by
  intro tick taken
  obtain ⟨hmuted, hpos, hrecords⟩ := hnew.recording
  have hruns : ∀ operation ∈ operations, (fun _ => True) operation := fun _ _ => trivial
  have hdrains : Steps KeepsCapture (s.run operations).2 _ _ :=
    steps_drainCapture hc (show KeepsCapture (.push block) from nofun)
  have hrun := (hrecords.steps (Capture.stable_records _ _ _) (s.steps_run hruns)).steps
    (Capture.stable_records _ _ _) hdrains
  have hquiet := (muted_run hmuted hback).steps
    (Capture.stable_muted fun n ha => ha n rfl) hdrains
  obtain ⟨c', hc', hstill, hunpaired, hsplit, hshort, hplayed⟩ :=
    push_of_muted hpos hc hlinked (hrun _ rfl) (hquiet _ rfl hsuspended) block
  exact ⟨c', hc', hstill.trans hsuspended, hunpaired, hsplit, hshort, hplayed⟩

/-- The hypotheses of `suspended_passes` are met where bytes are taken back
while the side is at work. It is then suspended, and a block comes in, and half
of another. -/
theorem suspended_passes_trial :
    let operations : List Operation :=
      [.render 8, .push (.ofBytes ⟨#[100, 101, 102, 103]⟩), .rewindCapture 4,
        .reportDevice .input true, .reportDevice .input false, .render 4]
    let block := Block.ofBytes ⟨#[104, 105, 106, 107, 108, 109]⟩
    let tick := (trial.run operations).2.push block
    tick.1.map Event.fate? = [some (.passed [104, 105, 106, 107] [])]
      ∧ ∃ c', tick.2.capture? = some c' ∧ c'.suspended = true
        ∧ (∀ event ∈ tick.1, event.IsUnpaired 4)
        ∧ c'.pairing.captured.unread = [108, 109]
        ∧ c'.pairing.played.length = 0 := by
  intro operations block tick
  have hawake : ((trial.run (operations.take 2)).2.capture?.all fun c => !c.suspended) = true := by
    decide +kernel
  have hback : trial.TakesBackAwake operations := by
    refine ⟨nofun, nofun, fun n _ c hc => ?_, nofun, nofun, nofun, trivial⟩
    have hnot := hawake
    rw [show (trial.run (operations.take 2)).2.capture? = some c from hc] at hnot
    simpa using hnot
  have hsome : ((trial.run operations).2.capture?.map fun c =>
      ((trial.run operations).2.drainCapture c).1.suspended) = some true := by decide +kernel
  have hunread : tick.2.capture?.map (·.pairing.captured.unread) = some [108, 109] := by
    decide +kernel
  obtain ⟨c, hc, hsuspended⟩ := Option.map_eq_some_iff.mp hsome
  obtain ⟨c', hc', hstill, hunpaired, -, -, hplayed⟩ :=
    suspended_passes isNew_trial hback hc (by decide +kernel) hsuspended block
  refine ⟨by decide +kernel, c', hc', hstill, hunpaired, ?_, hplayed⟩
  rw [show tick.2.capture? = some c' from hc'] at hunread
  exact Option.some.inj hunread

/-- The side has thrown all audio away. A block of playback is taken up again,
and the next tick runs the canceller on it. So `TakesBackAwake` cannot be left
out. -/
theorem suspended_cancels :
    let operations : List Operation :=
      [.render 8, .push (.ofBytes ⟨#[100, 101, 102, 103]⟩), .reportDevice .input true,
        .reportDevice .input false, .push (.silence 0), .rewindCapture 4]
    let block := Block.ofBytes ⟨#[104, 105, 106, 107]⟩
    let t := (trial.run operations).2
    (t.capture?.map fun c => (c.suspended, c.pairing.played.length)) = some (true, 4)
      ∧ (t.capture?.map fun c => (t.drainCapture c).1.suspended) = some true
      ∧ ((t.push block).1.map fun event => (event.isCall, event.captured?.map Block.toList))
        = [(true, some [104, 105, 106, 107])] := by
  decide +kernel

end Session

end EchoAlign
