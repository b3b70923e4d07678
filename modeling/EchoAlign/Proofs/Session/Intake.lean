import EchoAlign.Proofs.Session.Leading
import EchoAlign.Proofs.Session.Ledger
import EchoAlign.Proofs.Session.Teardown

/-!
# `EchoAlign.Proofs.Session.Intake`: whether captured audio gets through

A capture device delivers a frame at a time. The frames wait on a tape until
a block of them is there, and a tape holds so many bytes and no more.

* `blockBytes_of_build`, `blockBytes_le`: how large the blocks are that
  settings ask for. The tape holds one, at every rate below 10 485 760.
* `Uncrowded`: between operations less than a block waits, in whole frames,
  so that there is room for one more frame if the tape holds a block.
* `length_captured_run`: all that is taken off the tape is dropped to
  realign, or is handed on as blocks.
* `intake_in_frames`: no frame is refused, and every block that is complete
  has been handed on.
* `build_beyond_tape`: settings that are accepted, with blocks that no tape
  holds. Nothing is ever handed on then.
-/

set_option autoImplicit false

namespace EchoAlign

/-! ### Work on a block -/

namespace Pairing

variable {κ : Type} [Canceller κ] {p next last : Pairing κ} {event : Event} {events : List Event}
  {base : Nat} {bytes : List UInt8}

/-- What a step takes off is dropped (`Event.sourceSkipped`), or it is a block
that is handed on. -/
theorem length_captured_step? (hcaptured : p.captured.Holds base bytes)
    (hstep : p.step? = some (event, next)) :
    (bytesOfBlocks event.captured?.toList).length
      = event.sourceSkipped + p.blockBytes * event.forwarded?.toList.length := by
  have hone : ∀ block : Block, (bytesOfBlocks [block]).length = block.size := fun block => by
    rw [bytesOfBlocks, List.flatMap_singleton, Block.length_toList]
  obtain ⟨hle, ⟨-, heq⟩ | ⟨-, -, heq⟩ | ⟨-, -, heq⟩⟩ := step?_cases hstep
  · cases heq
    exact hone _
  · cases heq
    rw [hcaptured.length_eq] at hle
    have hsize := (hcaptured.take hle).1
    exact (hone _).trans (hsize.trans (by simp [Event.forwarded?, Event.sourceSkipped]))
  · cases heq
    rw [hcaptured.length_eq] at hle
    have hsize := (hcaptured.take hle).1
    exact (hone _).trans (hsize.trans (by simp [Event.forwarded?, Event.sourceSkipped]))

/-- Of what is taken off along a `Path`, all that is not dropped is handed on in
blocks. -/
theorem Path.length_captured (h : Path p events last) (hcaptured : p.captured.Holds base bytes) :
    (bytesOfBlocks (events.filterMap Event.captured?)).length
      = sourceSkippedOf events + p.blockBytes * (events.filterMap Event.forwarded?).length := by
  induction h generalizing bytes with
  | refl => rfl
  | @cons p next last event events hstep _ ih =>
      obtain ⟨hsize, _, _, -, -, -, -, hrest⟩ := captured_step? hcaptured hstep
      have hfirst := length_captured_step? hcaptured hstep
      have hlater := ih hrest
      rw [filterMap_cons_toList, filterMap_cons_toList, bytesOfBlocks_append, List.length_append,
        List.length_append, hfirst, hlater, hsize, Nat.mul_add]
      show _ = event.sourceSkipped + sourceSkippedOf events + _
      omega

/-- Nothing is worked off a tape that holds less than a block (`blockBytes`). -/
theorem Path.events_eq_nil (h : Path p events last) (hshort : p.captured.length < p.blockBytes) :
    events = [] := by
  cases h with
  | refl => rfl
  | cons hstep _ =>
      obtain ⟨hle, -⟩ := step?_cases hstep
      omega

end Pairing

/-! ### Whole frames -/

/-- A correction drops whole frames, if what was to be dropped before were whole
frames. What `ofOffset?` gives is a number of frames, turned into bytes. -/
theorem Skip.dvd_source_correct {skip : Skip} {spec : StreamSpec}
    (h : spec.frameSize ∣ skip.source) (usec : Int) :
    spec.frameSize ∣ (skip.correct spec usec).2.source := by
  unfold correct
  cases hskip : ofOffset? spec usec with
  | none => exact h
  | some skip =>
      unfold ofOffset? at hskip
      simp only at hskip
      split at hskip
      · cases hskip
      · split at hskip
        · cases hskip
          exact Nat.dvd_zero _
        · cases hskip
          exact Nat.dvd_mul_left _ _

/-- A block that is put on the tape has whole frames of `base` bytes: others are
refused. -/
theorem Tape.Holds.dvd_of_append_eq_ok {t t' : Tape} {base : Nat} {bytes : List UInt8}
    (h : t.Holds base bytes) {block : Block} (happend : t.append block = .ok t') :
    base ∣ block.size := by
  refine Nat.dvd_of_mod_eq_zero (Decidable.byContradiction fun hframes => ?_)
  have hrefused : ¬(block.size % base = 0 ∧ bytes.length + block.size ≤ maxTapeLength) :=
    fun hboth => hframes hboth.1
  obtain ⟨_, herror⟩ := h.append_eq_error hrefused
  cases happend.symm.trans herror

namespace Capture

variable {κ : Type} {c : Capture κ} {link : Link} {size base : Nat}

/-- Captured audio waits, and is to be dropped, in whole frames of `base`
bytes. -/
structure Framed (size base : Nat) (c : Capture κ) : Prop extends c.Records size base where
  frameSize_eq : c.spec.frameSize = base
  skip : base ∣ c.pairing.skip.source
  waiting : base ∣ c.pairing.captured.unread.length

/-- A correction leaves whole frames to be dropped (`Framed`). -/
theorem Framed.correct (h : c.Framed size base) (link : Link) (usec : Int) :
    (c.correct link usec).1.Framed size base := by
  obtain ⟨hrecords, rfl, hskip, hwaiting⟩ := h
  exact ⟨⟨hrecords.blockBytes_eq, hrecords.captured⟩, rfl, Skip.dvd_source_correct hskip usec,
    hwaiting⟩

/-- A resync leaves whole frames to be dropped (`Framed`), by `Framed.correct`. -/
theorem Framed.resync (h : c.Framed size base) (link : Link) (epoch : Nat)
    (timing : PlaybackTiming) : (c.resync link epoch timing).1.Framed size base := by
  unfold Capture.resync
  split
  · exact h
  · exact h.correct link _

/-- A message leaves whole frames of captured audio, on the tape and in the
skip. Of the messages, a correction and a resync set the skip
(`Skip.dvd_source_correct`), and a suspension flushes the tape; the others touch
neither. -/
theorem Framed.handle (h : c.Framed size base) (link : Link) (message : CaptureMessage) :
    (c.handle link message).1.Framed size base := by
  have hrecords := h.toRecords.handle link message
  cases message with
  | correct usec => exact h.correct link usec
  | playbackTiming epoch timing => exact h.resync link epoch timing
  | device state =>
      cases state with
      | suspended =>
          refine ⟨hrecords, h.frameSize_eq, h.skip, ?_⟩
          show base ∣ (c.pairing.captured.flush true).unread.length
          rw [Tape.length_unread, Tape.length_flush]
          exact Nat.dvd_zero base
      | running =>
          show (c.follow .running).Framed size base
          simp only [follow]
          split
          · exact ⟨⟨h.blockBytes_eq, h.captured⟩, h.frameSize_eq, h.skip, h.waiting⟩
          · exact h
  | _ => exact ⟨hrecords, h.frameSize_eq, h.skip, h.waiting⟩

/-- What is accepted are whole frames, and what is refused changes nothing.
`Tape.append` is where the whole frames are asked for. -/
theorem Framed.accept (h : c.Framed size base) (block : Block) :
    (c.accept block).Framed size base := by
  have hrecords := h.toRecords.accept block
  unfold Capture.accept at hrecords ⊢
  cases happend : c.pairing.captured.append block with
  | error e => exact h
  | ok captured =>
      rw [happend] at hrecords
      obtain ⟨bytes, hbytes⟩ := h.captured
      refine ⟨hrecords, h.frameSize_eq, h.skip, ?_⟩
      show base ∣ captured.unread.length
      have hwaiting := h.waiting
      rw [hbytes.unread_eq] at hwaiting
      rw [(hbytes.of_append_eq_ok happend).unread_eq, List.length_append, Block.length_toList]
      exact Nat.dvd_add hwaiting (hbytes.dvd_of_append_eq_ok happend)

/-- Taking back whole frames of captured audio (`hframes`) leaves whole frames. -/
theorem Framed.rewind (h : c.Framed size base) {n : Nat} (hframes : base ∣ n)
    (hword : n ≤ Word.maxSigned) : (c.rewind n).Framed size base := by
  obtain ⟨bytes, hbytes⟩ := h.captured
  have hwaiting := h.waiting
  rw [hbytes.unread_eq] at hwaiting
  refine ⟨h.toRecords.rewind n, h.frameSize_eq, h.skip, ?_⟩
  show base ∣ (c.pairing.captured.seek (-Word.signed n) true).unread.length
  rw [(hbytes.seekBack hword).unread_eq, List.length_take, Nat.min_eq_left (Nat.sub_le _ _)]
  exact Nat.dvd_sub hwaiting hframes

/-- A step drops frames or takes a block off, which is whole frames too
(`hsize`). -/
theorem Framed.pair [Canceller κ] (h : c.Framed size base) (hsize : base ∣ size) {event : Event}
    {pairing : Pairing κ} (hstep : c.pairing.step? = some (event, pairing)) :
    ({ c with pairing } : Capture κ).Framed size base := by
  obtain ⟨bytes, hbytes⟩ := h.captured
  have hwaiting := h.waiting
  rw [hbytes.unread_eq] at hwaiting
  have hsame := h.blockBytes_eq
  have hafter : ∀ {n : Nat}, base ∣ n → n ≤ bytes.length →
      base ∣ (c.pairing.captured.advance n).unread.length := fun {n} hn hle => by
    rw [(hbytes.advance hle).unread_eq, List.length_drop]
    exact Nat.dvd_sub hwaiting hn
  obtain ⟨hsize', n, _, -, -, -, -, hrest⟩ := Pairing.captured_step? hbytes hstep
  have hrecords : ({ c with pairing } : Capture κ).Records size base :=
    ⟨hsize'.trans hsame, _, hrest⟩
  obtain ⟨hle, ⟨-, heq⟩ | ⟨-, -, heq⟩ | ⟨-, -, heq⟩⟩ := Pairing.step?_cases hstep
  · have hdropped : base ∣ min c.pairing.skip.source c.pairing.blockBytes := by
      rcases Nat.le_total c.pairing.skip.source c.pairing.blockBytes with hmin | hmin
      · exact (Nat.min_eq_left hmin).symm ▸ h.skip
      · exact (Nat.min_eq_right hmin).symm ▸ hsame.symm ▸ hsize
    rw [hbytes.length_eq] at hle
    cases heq
    exact ⟨hrecords, h.frameSize_eq, Nat.dvd_sub h.skip hdropped,
      hafter hdropped (Nat.le_trans (Nat.min_le_right _ _) hle)⟩
  · rw [hbytes.length_eq] at hle
    cases heq
    exact ⟨hrecords, h.frameSize_eq, h.skip, hafter (hsame.symm ▸ hsize) hle⟩
  · rw [hbytes.length_eq] at hle
    cases heq
    exact ⟨hrecords, h.frameSize_eq, h.skip, hafter (hsame.symm ▸ hsize) hle⟩

end Capture

/-- The captured audio that an operation takes back comes in whole frames of
`base` bytes, and its size is a word. -/
def Operation.RewindsFrames (base : Nat) (operation : Operation) : Prop :=
  ∀ n, operation = .rewindCapture n → base ∣ n ∧ n ≤ Word.maxSigned

/-- Captured audio is in whole frames (`Framed`) whatever the side does, as long
as it is taken back in whole frames. -/
theorem Capture.stable_framed {κ : Type} [Canceller κ] {size base : Nat} (hsize : base ∣ size) :
    Stable (Operation.RewindsFrames base) (Framed size base : Capture κ → Prop) where
  handle _ link message h := h.handle link message
  resume _ _ _ h := ⟨⟨h.blockBytes_eq, h.captured⟩, h.frameSize_eq, h.skip, h.waiting⟩
  accept _ block _ h := h.accept block
  pair _ _ _ hstep h := h.pair hsize hstep
  rewind _ n ha h := h.rewind (ha n rfl).1 (ha n rfl).2

namespace Session

variable {κ υ : Type} [Canceller κ] [Producer υ] {s t : Session κ υ}
  {allowed : Operation → Prop} {entries : List Entry} {size base : Nat}

/-! ### Room for a frame -/

/-- Only a block that the capture device delivers is refused as captured audio.
This follows `Capture.mem_appendEntries` and the like through the constructors
of `Step`. -/
theorem Step.of_refused_input (hstep : Step allowed s entries t) {block : Block}
    (hrefused : .refused .input block ∈ entries) : allowed (.push block) := by
  cases hstep with
  | accept block hc ha =>
      cases Capture.mem_appendEntries hrefused
      exact ha
  | read => cases mem_readEntries hrefused
  | handleControl message hc hrest =>
      rcases Capture.mem_handleEntries hrefused with h | h | ⟨_, _, h⟩ | ⟨_, _, _, h⟩ <;> cases h
  | handleData message hc hrest =>
      rcases Capture.mem_handleEntries hrefused with h | h | ⟨_, _, h⟩ | ⟨_, _, _, h⟩ <;> cases h
  | handlePlayback message hp hrest => cases Playback.mem_handleEntries hrefused
  | play n hp hlinked ha =>
      rcases PlaybackScene.mem_playEntries hrefused with h | ⟨_, h | h | h⟩ <;> cases h
  | sendTiming hp =>
      rcases PlaybackScene.mem_sendTimingEntries hrefused with h | ⟨_, _, h | h | h⟩ <;> cases h
  | rewindPlayback n hp ha =>
      rcases PlaybackScene.mem_postEntries hrefused with h | h <;> cases h
  | answer | pair | resume | rewindCapture | idle | request | dropCapture =>
      cases List.mem_singleton.mp hrefused
  | _ => cases hrefused

/-- So it is with a refusal in any number of steps: it is one of a `push` that
is `allowed`. -/
theorem Steps.of_refused_input (hsteps : Steps allowed s entries t) {block : Block}
    (hrefused : .refused .input block ∈ entries) : allowed (.push block) := by
  revert hrefused
  refine hsteps.induct (motive := fun _ entries => .refused .input block ∈ entries →
    allowed (.push block)) (fun h => nomatch h) fun _ _ _ _ hbefore hstep hrefused => ?_
  rcases List.mem_append.mp hrefused with h | h
  · exact hbefore h
  · exact hstep.of_refused_input h

/-- The messages of a capture tick refuse no captured audio (`input`). Only the
block that the tick brings can be refused. -/
theorem not_refused_drainCapture {c : Capture κ} (hc : s.capture? = some c) (block : Block) :
    .refused .input block ∉ s.drainCaptureEntries c := by
  intro hrefused
  -- The messages do not depend on the block that comes behind them.
  have hdrains : Steps (· = .push (.silence (block.size + 1))) s _ _ := steps_drainCapture hc rfl
  have hsame := congrArg Operation.pushed? (hdrains.of_refused_input hrefused)
  have hsize := congrArg Block.size (Option.some.inj hsame)
  rw [Block.size_silence] at hsize
  omega

/-- Less than a block of captured audio waits, in whole frames (`framed`). So
there is room for one more frame in a block. -/
structure Uncrowded (size base : Nat) (s : Session κ υ) : Prop where
  framed : s.CaptureIs (Capture.Framed size base)
  waiting_lt : s.waiting.length < size

omit [Canceller κ] [Producer υ] in
/-- Where less than a block waits, the captured audio is recorded as in
`Capture.Records`. -/
theorem Uncrowded.records (h : s.Uncrowded size base) :
    s.CaptureIs (Capture.Records size base) :=
  fun c hc => (h.framed c hc).toRecords

/-- A capture tick leaves less than a block, since `Pairing.drive` works off all
there are. -/
theorem waiting_push_lt (hpos : 0 < size) (hrecords : s.CaptureIs (Capture.Records size base))
    (hbefore : s.waiting.length < size) (block : Block) :
    (s.push block).2.waiting.length < size := by
  cases hc : s.capture? with
  | none =>
      simp only [push, hc]
      exact hbefore
  | some c =>
      cases hlinked : s.link.linked with
      | false =>
          simp only [push, hc, hlinked, Bool.not_false, if_true]
          exact hbefore
      | true =>
          have hdrains : Steps (· = .push block) s _ _ := steps_drainCapture hc rfl
          have hdrained := hrecords.steps (Capture.stable_records _ _ _) hdrains
          obtain ⟨hsize, bytes, hbytes⟩ := (hdrained (s.drainCapture c).1 rfl).accept block
          obtain ⟨-, hcapture, -⟩ := push_eq hc hlinked block
          obtain ⟨hpath, hend⟩ := Pairing.path_drive (hsize ▸ hpos) hbytes
          obtain ⟨hsize', -⟩ := hpath.captured hbytes
          have hshort := Pairing.length_lt_of_step?_eq_none hend
          rw [hsize', hsize] at hshort
          unfold waiting
          rw [hcapture]
          exact Nat.lt_of_le_of_lt (Nat.le_of_eq (Tape.length_unread _)) hshort

/-- Less than a block waits behind any operation, as long as what is taken back
is counted in a word. A capture tick ends where `Pairing.step?` gives nothing
more, and no other operation adds to what is `waiting`. -/
theorem waiting_perform_lt (hpos : 0 < size) (hrecords : s.CaptureIs (Capture.Records size base))
    (hbefore : s.waiting.length < size) {operation : Operation}
    (hword : ∀ n, operation = .rewindCapture n → n ≤ Word.maxSigned) :
    (s.perform operation).2.waiting.length < size := by
  by_cases hpush : ∃ block, operation = .push block
  · obtain ⟨block, rfl⟩ := hpush
    exact waiting_push_lt hpos hrecords hbefore block
  · -- No other operation brings captured audio.
    obtain ⟨kept, hwaiting, hkept⟩ := balances_perform hpos hrecords hword
    have haccepted : s.acceptedBy operation = [] := by
      cases operation <;> first
        | rfl
        | exact absurd ⟨_, rfl⟩ hpush
    rw [haccepted, List.append_nil] at hkept
    rw [hwaiting, hkept, List.length_append, List.length_append] at hbefore
    omega

/-- Whatever happens, less than a block waits, as long as audio is taken back in
whole frames (`RewindsFrames`). -/
theorem Uncrowded.perform (h : s.Uncrowded size base) (hpos : 0 < size) (hdvd : base ∣ size)
    {operation : Operation} (hback : operation.RewindsFrames base) :
    (s.perform operation).2.Uncrowded size base :=
  ⟨h.framed.steps (Capture.stable_framed hdvd) (s.steps_perform hback),
    waiting_perform_lt hpos h.records h.waiting_lt fun n hn => (hback n hn).2⟩

/-- A capture tick finds room for one more frame: with it, there is at most a
block, and a tape holds as much (`hfits`). -/
theorem Uncrowded.append_eq_ok (h : s.Uncrowded size base) (hdvd : base ∣ size)
    (hfits : size ≤ maxTapeLength) {c : Capture κ} (hc : s.capture? = some c) {block : Block}
    (hblock : block.size = base) :
    ∃ captured, (s.drainCapture c).1.pairing.captured.append block = .ok captured := by
  have hdrains : Steps (Operation.RewindsFrames base) s _ _ :=
    steps_drainCapture hc (show Operation.RewindsFrames base (.push block) from nofun)
  have hframed := h.framed.steps (Capture.stable_framed hdvd) hdrains (s.drainCapture c).1 rfl
  obtain ⟨bytes, hbytes⟩ := hframed.captured
  have hframes : base ∣ bytes.length := hbytes.unread_eq ▸ hframed.waiting
  have hshort : bytes.length < size := by
    have hlt := h.waiting_lt
    have hdrained := s.unread_drainCapture c
    rw [hbytes.unread_eq] at hdrained
    simp only [waiting, hc] at hlt
    rw [hdrained]
    split
    · exact Nat.lt_of_le_of_lt (Nat.zero_le _) hlt
    · exact hlt
  -- Both are whole frames, so that they differ by one at least.
  have hroom := Nat.le_of_dvd (Nat.sub_pos_of_lt hshort) (Nat.dvd_sub hdvd hframes)
  have hwhole : block.size % base = 0 := by rw [hblock, Nat.mod_self]
  obtain ⟨captured, happend, -⟩ := hbytes.append hwhole (by omega)
  exact ⟨captured, happend⟩

/-- No frame is refused by an operation that finds the session `Uncrowded`. -/
theorem Uncrowded.not_refused (h : s.Uncrowded size base) (hdvd : base ∣ size)
    (hfits : size ≤ maxTapeLength) {operation : Operation}
    (hframe : ∀ block, operation = .push block → block.size = base) (block : Block) :
    .refused .input block ∉ s.journal operation := by
  intro hrefused
  have hsteps : Steps (· = operation) s _ _ := s.steps_perform rfl
  obtain rfl : operation = .push block := (hsteps.of_refused_input hrefused).symm
  cases hc : s.capture? with
  | none =>
      simp only [journal, pushEntries, hc] at hrefused
      cases hrefused
  | some c =>
      cases hlinked : s.link.linked with
      | false =>
          simp only [journal, pushEntries, hc, hlinked, Bool.not_false, if_true] at hrefused
          cases hrefused
      | true =>
          obtain ⟨captured, happend⟩ := h.append_eq_ok hdvd hfits hc (hframe block rfl)
          rw [journal_push hc hlinked, Capture.acceptEntries, Capture.appendEntries,
            happend] at hrefused
          rcases List.mem_append.mp hrefused with hrefused | hrefused
          · exact not_refused_drainCapture hc block hrefused
          · obtain ⟨_, -, heq⟩ := List.mem_map.mp hrefused
            cases heq

/-! ### What gets through -/

/-- Of what an operation takes off the tape, all that is not dropped to realign
is handed on in blocks. These are `sourceSkippedOf` the events, and `blockBytes`
for each block that is handed on. -/
theorem length_captured_perform (hpos : 0 < size)
    (hrecords : s.CaptureIs (Capture.Records size base)) (operation : Operation) :
    (bytesOfBlocks ((s.perform operation).1.filterMap Event.captured?)).length
      = sourceSkippedOf (s.perform operation).1
        + size * ((s.perform operation).1.filterMap Event.forwarded?).length := by
  -- Where nothing is worked off, nothing is told of either.
  have hidle : (∀ event ∈ (s.perform operation).1, event.isWorked = false) →
      (bytesOfBlocks ((s.perform operation).1.filterMap Event.captured?)).length
        = sourceSkippedOf (s.perform operation).1
          + size * ((s.perform operation).1.filterMap Event.forwarded?).length := by
    intro hnone
    have hof : ∀ event ∈ (s.perform operation).1, event.captured? = none
        ∧ event.forwarded? = none ∧ event.sourceSkipped = 0 := fun event hevent => by
      obtain ⟨hcaptured, hforwarded, -, -, hskipped, -⟩ :=
        Event.of_not_isWorked (hnone event hevent)
      exact ⟨hcaptured, hforwarded, hskipped⟩
    rw [List.filterMap_eq_nil_iff.mpr fun event hevent => (hof event hevent).1,
      List.filterMap_eq_nil_iff.mpr fun event hevent => (hof event hevent).2.1, sourceSkippedOf,
      Event.total_eq_zero fun event hevent => (hof event hevent).2.2]
    rfl
  by_cases hpush : ∃ block, operation = .push block
  · obtain ⟨block, rfl⟩ := hpush
    cases hc : s.capture? with
    | none =>
        refine hidle fun event hevent => ?_
        simp only [perform, push, hc] at hevent
        cases hevent
    | some c =>
        cases hlinked : s.link.linked with
        | false =>
            refine hidle fun event hevent => ?_
            simp only [perform, push, hc, hlinked, Bool.not_false, if_true] at hevent
            cases hevent
        | true =>
            obtain ⟨taken, c', hsize, htaken, hpath, -⟩ :=
              path_push hpos hc hlinked (hrecords c hc) block
            exact hsize ▸ hpath.length_captured htaken
  · exact hidle fun event => isWorked_of_mem_perform fun block hblock => hpush ⟨block, hblock⟩

/-- In such a run the session goes on (`running`), no captured audio is taken
back or thrown away, and none is dropped to realign (`unskipped`). What is taken
in can then only be handed on or wait. -/
structure Undisturbed (s : Session κ υ) (operations : List Operation) : Prop where
  running : ∀ operation ∈ operations, operation.isEnd = false ∧ operation.isDropCapture = false
  unrewound : ∀ n, .rewindCapture n ∉ operations
  unsuspended : (s.journalOf operations).any Entry.isSuspension = false
  unskipped : sourceSkippedOf (s.run operations).1 = 0

/-- An operation that takes nothing back and throws nothing away leaves on the
tape what it finds and brings, less the blocks that are handed on. `hframes` and
the room on the tape see that nothing is refused. -/
theorem Uncrowded.length_perform (h : s.Uncrowded size base) (hpos : 0 < size)
    (hdvd : base ∣ size) (hfits : size ≤ maxTapeLength) (hlinked : s.link.linked = true)
    (hthere : s.capture?.isSome = true) {operation : Operation}
    (hframe : ∀ block, operation = .push block → block.size = base)
    (hdrop : operation.isDropCapture = false) (hback : ∀ n, operation ≠ .rewindCapture n)
    (hawake : (s.journal operation).any Entry.isSuspension = false) :
    s.waiting.length + (bytesOfBlocks operation.pushed?.toList).length
      = sourceSkippedOf (s.perform operation).1
        + size * ((s.perform operation).1.filterMap Event.forwarded?).length
        + (s.perform operation).2.waiting.length := by
  have hdiscarded : s.discardedBy operation = [] := by
    cases operation with
    | rewindCapture n => exact absurd rfl (hback n)
    | dropCapture => cases hdrop
    | _ => simp only [discardedBy, hawake, Bool.false_eq_true, if_false]
  have haccepted : s.acceptedBy operation = bytesOfBlocks operation.pushed?.toList := by
    cases operation with
    | push block =>
        obtain ⟨c, hc⟩ := Option.isSome_iff_exists.mp hthere
        obtain ⟨captured, happend⟩ := h.append_eq_ok hdvd hfits hc (hframe block rfl)
        simp only [acceptedBy, hc, hlinked, Bool.not_true, Bool.false_eq_true, if_false, happend]
        exact (List.append_nil _).symm
    | _ => rfl
  obtain ⟨kept, hwaiting, hkept⟩ :=
    balances_perform hpos h.records fun n hn => absurd hn (hback n)
  rw [hdiscarded, List.append_nil] at hwaiting
  rw [haccepted, ← hwaiting] at hkept
  rw [← length_captured_perform hpos h.records, ← List.length_append, ← List.length_append, hkept]

/-- A run that nothing disturbs keeps on the tape what it brings, less the
blocks that are handed on. The induction is on the operations with
`length_perform`, and goes from the front so that each finds the tape as
`Uncrowded` wants it. -/
theorem Uncrowded.length_run (h : s.Uncrowded size base) (hpos : 0 < size) (hdvd : base ∣ size)
    (hfits : size ≤ maxTapeLength) (hlinked : s.link.linked = true)
    (hthere : s.capture?.isSome = true) {operations : List Operation}
    (hframe : ∀ block, .push block ∈ operations → block.size = base)
    (hcalm : s.Undisturbed operations) :
    s.waiting.length + (pushedIn operations).length
        = size * ((s.run operations).1.filterMap Event.forwarded?).length
          + (s.run operations).2.waiting.length
      ∧ (s.run operations).2.waiting.length < size := by
  induction operations generalizing s with
  | nil => exact ⟨(Nat.zero_add _).symm, h.waiting_lt⟩
  | cons operation rest ih =>
      obtain ⟨hrunning, hback, hawake, hskipped⟩ := hcalm
      obtain ⟨⟨hend, hdrop⟩, hrunning⟩ := List.forall_mem_cons.mp hrunning
      rw [journalOf, List.any_append, Bool.or_eq_false_iff] at hawake
      rw [run, sourceSkippedOf, Event.total_append] at hskipped
      have hfirst := h.length_perform hpos hdvd hfits hlinked hthere
        (fun block hblock => hframe block (hblock ▸ List.mem_cons_self)) hdrop
        (fun n hn => hback n (hn ▸ List.mem_cons_self)) hawake.1
      have hframes : operation.RewindsFrames base :=
        fun n hn => absurd (hn ▸ List.mem_cons_self) (hback n)
      have hnext := h.perform hpos hdvd hframes
      have hthere' : (s.perform operation).2.capture?.isSome = true := by
        have hsides := s.isSome_capture?_run [operation]
        rw [hthere, List.any_cons, hdrop] at hsides
        exact hsides
      have hlater := ih hnext ((linked_perform hend).1.trans hlinked) hthere'
        (fun block hblock => hframe block (List.mem_cons_of_mem _ hblock))
        ⟨hrunning, fun n hn => hback n (List.mem_cons_of_mem _ hn), hawake.2, by
          unfold sourceSkippedOf; omega⟩
      refine ⟨?_, hlater.2⟩
      have hpushed : pushedIn (operation :: rest)
          = bytesOfBlocks operation.pushed?.toList ++ pushedIn rest := by
        unfold pushedIn
        rw [← bytesOfBlocks_append]
        cases operation <;> rfl
      -- Where nothing is skipped in all, nothing is skipped first.
      have hnone : sourceSkippedOf (s.perform operation).1 = 0 := by
        unfold sourceSkippedOf
        omega
      show _ = size * (((s.perform operation).1 ++ ((s.perform operation).2.run rest).1).filterMap
        Event.forwarded?).length + ((s.perform operation).2.run rest).2.waiting.length
      rw [hpushed, List.length_append, List.filterMap_append, List.length_append, Nat.mul_add]
      rw [hnone] at hfirst
      have hrest := hlater.1
      omega

/-- Blocks that no tape holds (`maxTapeLength`) are never complete. -/
theorem forwarded_perform_of_beyond (hpos : 0 < size) (hbeyond : maxTapeLength < size)
    (hrecords : s.CaptureIs (Capture.Records size base)) (operation : Operation) :
    (s.perform operation).1.filterMap Event.forwarded? = [] := by
  refine List.filterMap_eq_nil_iff.mpr fun event hevent => ?_
  by_cases hpush : ∃ block, operation = .push block
  · obtain ⟨block, rfl⟩ := hpush
    have hevent : event ∈ (s.push block).1 := hevent
    cases hc : s.capture? with
    | none =>
        simp only [push, hc] at hevent
        cases hevent
    | some c =>
        cases hlinked : s.link.linked with
        | false =>
            simp only [push, hc, hlinked, Bool.not_false, if_true] at hevent
            cases hevent
        | true =>
            obtain ⟨taken, c', hsize, htaken, hpath, -⟩ :=
              path_push hpos hc hlinked (hrecords c hc) block
            have hfits := htaken.fits
            rw [hpath.events_eq_nil (by rw [htaken.length_eq]; omega)] at hevent
            cases hevent
  · obtain ⟨-, hnone, -⟩ := Event.of_not_isWorked
      (isWorked_of_mem_perform (fun block hblock => hpush ⟨block, hblock⟩) hevent)
    exact hnone

/-- So it is in every run: nothing is ever handed on (`Event.forwarded?`), by
induction on the operations. -/
theorem forwarded_run_of_beyond (hpos : 0 < size) (hbeyond : maxTapeLength < size)
    (hrecords : s.CaptureIs (Capture.Records size base)) (operations : List Operation) :
    (s.run operations).1.filterMap Event.forwarded? = [] := by
  induction operations generalizing s with
  | nil => rfl
  | cons operation rest ih =>
      have hsteps : Steps (fun _ => True) s (s.journal operation) (s.perform operation).2 :=
        s.steps_perform trivial
      rw [run, List.filterMap_append, forwarded_perform_of_beyond hpos hbeyond hrecords,
        ih (hrecords.steps (Capture.stable_records _ _ _) hsteps)]
      rfl

/-! ### The blocks that settings ask for -/

omit [Canceller κ] [Producer υ] in
/-- A block has as many frames as a power of two that its duration holds, and
two bytes to a sample. The power of two comes from `blockFrames`, and the two
bytes from the format of samples that every canceller works with. -/
theorem blockBytes_of_build {settings : Settings} {producer : υ} {link : Link} {dumps : Dumps}
    {s : Session ConfiguredCanceller υ} (h : build settings producer link dumps = .ok s) :
    settings.channels ≤ maxChannels ∧ settings.tuning.frameMs ≤ 200
      ∧ s.blockBytes
        = (1 <<< (settings.rate * settings.tuning.frameMs / 1000).log2) * (2 * settings.channels) := by
  obtain ⟨_, hvalid, h⟩ := bind_eq_ok h
  obtain ⟨setup, hinit, h⟩ := bind_eq_ok h
  obtain ⟨hspec, -⟩ := of_validate (mapError_eq_ok hvalid)
  have hinit := mapError_eq_ok hinit
  have hsource := source_init hinit
  -- The canceller has blocks of the size that was settled on.
  have hsetup : settings.tuning.validate = .ok () ∧ Canceller.blockFrames setup.canceller
      = 1 <<< (settings.rate * settings.tuning.frameMs / 1000).log2 := by
    unfold CancellerSetup.init at hinit
    split at hinit
    · cases hinit
    · obtain ⟨_, htuning, hinit⟩ := bind_eq_ok hinit
      obtain ⟨frames, hframes, hinit⟩ := bind_eq_ok hinit
      refine ⟨htuning, ?_⟩
      have hsame : Canceller.blockFrames setup.canceller = frames := by
        cases hinit
        cases settings.method <;> rfl
      unfold blockFrames at hframes
      simp only at hframes
      split at hframes
      · cases hframes
      · cases hframes
        exact hsame
  obtain ⟨htuning, hframes⟩ := hsetup
  refine ⟨(StreamSpec.pos_of_validate hspec).2.2, (sizes_of_validate htuning).1, ?_⟩
  unfold assemble at h
  split at h
  · cases h
  · cases h
    show Canceller.blockFrames setup.canceller * setup.source.frameSize = _
    rw [hframes, hsource]
    rfl

omit [Canceller κ] [Producer υ] in
/-- At a rate below 10 485 760 a tape holds a block, however long it is to be,
and whatever the channels. With eight channels and 200 milliseconds as the most
there can be, a block is then below `maxTapeLength`. -/
theorem blockBytes_le {settings : Settings} {producer : υ} {link : Link} {dumps : Dumps}
    {s : Session ConfiguredCanceller υ} (h : build settings producer link dumps = .ok s)
    (hrate : settings.rate < 10485760) : s.blockBytes ≤ maxTapeLength := by
  obtain ⟨hchannels, htuning, hblock⟩ := blockBytes_of_build h
  obtain ⟨frames, hframes⟩ : ∃ n, n = settings.rate * settings.tuning.frameMs / 1000 := ⟨_, rfl⟩
  have hfew : frames < 2 ^ 21 := by
    have hproduct : settings.rate * settings.tuning.frameMs ≤ 10485759 * 200 :=
      Nat.mul_le_mul (by omega) htuning
    omega
  have hlog : frames.log2 ≤ 20 := by
    by_cases hzero : frames = 0
    · rw [hzero]
      decide
    · exact Nat.le_of_lt_succ ((Nat.log2_lt hzero).mpr hfew)
  rw [hblock, ← hframes, Nat.one_shiftLeft]
  calc 2 ^ frames.log2 * (2 * settings.channels)
      ≤ 2 ^ 20 * (2 * maxChannels) :=
        Nat.mul_le_mul (Nat.pow_le_pow_right (by decide) hlog) (Nat.mul_le_mul_left 2 hchannels)
    _ = maxTapeLength := by decide

omit [Producer υ] in
/-- In a new session nothing waits. It is `Uncrowded`, its frames divide its
blocks, and both sides are there and linked. -/
theorem IsNew.uncrowded (h : s.IsNew) :
    s.Uncrowded s.blockBytes s.spec.frameSize ∧ s.spec.frameSize ∣ s.blockBytes
      ∧ s.link.linked = true ∧ s.capture?.isSome = true := by
  obtain ⟨-, hpos, hrecords⟩ := h.recording
  obtain ⟨-, hwaiting⟩ := h.untouched
  obtain ⟨spec, capacity, canceller, producer, link, dumps?, rfl, ⟨_, _, _, _, rfl⟩, -⟩ := h.opened
  refine ⟨⟨fun c hc => ?_, hwaiting ▸ hpos⟩, Nat.dvd_mul_left _ _, rfl, rfl⟩
  refine ⟨hrecords c hc, ?_, ?_, ?_⟩
  · cases hc
    rfl
  · cases hc
    exact Nat.dvd_zero _
  · cases hc
    exact Nat.dvd_zero _

/-- No frame is refused in any run, by induction on the operations: each finds
the session `Uncrowded`. -/
theorem Uncrowded.not_refused_run (h : s.Uncrowded size base) (hpos : 0 < size)
    (hdvd : base ∣ size) (hfits : size ≤ maxTapeLength) {operations : List Operation}
    (hframe : ∀ block, .push block ∈ operations → block.size = base)
    (hback : ∀ operation ∈ operations, operation.RewindsFrames base) (block : Block) :
    .refused .input block ∉ s.journalOf operations := by
  induction operations generalizing s with
  | nil => exact List.not_mem_nil
  | cons operation rest ih =>
      obtain ⟨hfirst, hrest⟩ := List.forall_mem_cons.mp hback
      rw [journalOf, List.mem_append, not_or]
      refine ⟨h.not_refused hdvd hfits (fun block hblock => ?_) block,
        ih (h.perform hpos hdvd hfirst) (fun block hblock => ?_) hrest⟩
      · exact hframe block (hblock ▸ List.mem_cons_self)
      · exact hframe block (List.mem_cons_of_mem _ hblock)

/-- Let a session be set up (`build`), and let its capture device deliver a
frame at a time. If a tape holds a block, which it does at every rate below 10
485 760, then no frame is refused in any run in which whole frames are taken
back; and as long as nothing is taken back, thrown away or dropped to realign
(`Undisturbed`), every block that is complete has been handed on. If no tape
holds a block, then nothing is handed on in any run. -/
theorem intake_in_frames {settings : Settings} {producer : υ} {link : Link} {dumps : Dumps}
    {s : Session ConfiguredCanceller υ} (hrate : settings.rate ≤ Settings.maxRate)
    (hlink : link.IsNew) (hbuild : build settings producer link dumps = .ok s) :
    (settings.rate < 10485760 → s.blockBytes ≤ maxTapeLength)
      ∧ (s.blockBytes ≤ maxTapeLength → ∀ operations,
          (∀ block, .push block ∈ operations → block.size = s.spec.frameSize) →
            ((∀ operation ∈ operations, operation.RewindsFrames s.spec.frameSize) →
                ∀ block, .refused .input block ∉ s.journalOf operations)
              ∧ (s.Undisturbed operations →
                ((s.run operations).1.filterMap Event.forwarded?).length
                  = (pushedIn operations).length / s.blockBytes))
      ∧ (maxTapeLength < s.blockBytes → ∀ operations,
          (s.run operations).1.filterMap Event.forwarded? = []) := by
  have hnew := isNew_of_build hrate hlink hbuild
  obtain ⟨-, hpos, hrecords⟩ := hnew.recording
  obtain ⟨hroom, hdvd, hlinked, hthere⟩ := hnew.uncrowded
  refine ⟨blockBytes_le hbuild, fun hfits operations hframe => ⟨?_, fun hcalm => ?_⟩, ?_⟩
  · exact hroom.not_refused_run hpos hdvd hfits hframe
  · obtain ⟨hlength, hshort⟩ := hroom.length_run hpos hdvd hfits hlinked hthere hframe hcalm
    rw [hnew.untouched.2] at hlength
    rw [show (pushedIn operations).length = _ from (Nat.zero_add _).symm.trans hlength,
      Nat.mul_add_div hpos, Nat.div_eq_of_lt hshort, Nat.add_zero]
  · exact fun hbeyond => forwarded_run_of_beyond hpos hbeyond hrecords

/-- The hypotheses of `intake_in_frames` are met by blocks of eight frames, and
a correction that drops no captured audio. Two blocks are complete, and one
frame waits. -/
theorem intake_in_frames_trial :
    let settings : Settings :=
      { Settings.standard with rate := 8000, method := .null, tuning := ⟨1, 1⟩ }
    let producer := RawSource.ofBlock (.ofBytes ⟨#[1, 2, 3, 4, 5, 6, 7, 8]⟩) true
    let link := Link.create (.showing 0) ⟨0, 0⟩ ⟨0, 0⟩
    let s := create settings.spec.asS16 256 (.null ⟨8⟩) producer link none
    let operations := [.render 8, .correct (-125)] ++ List.replicate 17 (.push (.silence 2))
    build settings producer link .fresh = .ok s
      ∧ s.blockBytes = 16 ∧ (pushedIn operations).length = 34
      ∧ (∀ block, .refused .input block ∉ s.journalOf operations)
      ∧ ((s.run operations).1.filterMap Event.forwarded?).length = 2 := by
  intro settings producer link s operations
  have hbuild : build settings producer link .fresh = .ok s := by
    dsimp only [settings, producer, link, s]
    rfl
  have hsize : s.blockBytes = 16 := by decide +kernel
  have hlength : (pushedIn operations).length = 34 := by decide +kernel
  have hpushed : ∀ block, .push block ∈ operations → block.size = s.spec.frameSize := by
    intro block hblock
    simp only [operations, List.mem_append, List.mem_cons, reduceCtorEq, List.not_mem_nil, or_false,
      false_or, List.mem_replicate, Operation.push.injEq] at hblock
    rw [hblock.2]
    rfl
  have hback : ∀ n, .rewindCapture n ∉ operations := by
    intro n hn
    simp [operations] at hn
  have hrunning : (operations.all fun operation => !operation.isEnd && !operation.isDropCapture)
      = true := by decide +kernel
  have hcalm : s.Undisturbed operations :=
    ⟨fun operation hoperation => by simpa using List.all_eq_true.mp hrunning operation hoperation,
      hback, by decide +kernel, by decide +kernel⟩
  obtain ⟨hfits, htaken, -⟩ :=
    intake_in_frames (by decide) ⟨_, _, _, _, rfl⟩ hbuild
  obtain ⟨hnone, hcount⟩ := htaken (hfits (by decide)) operations hpushed
  refine ⟨hbuild, hsize, hlength, hnone fun operation hoperation n hn => ?_, ?_⟩
  · exact absurd (hn ▸ hoperation) (hback n)
  · rw [hcount hcalm, hlength, hsize]

/-- A canceller of 200 milliseconds, at a rate of 10 485 760 and with eight
channels, asks for blocks of twice what a tape holds (`maxTapeLength`). The
session is set up, and hands nothing on. -/
theorem build_beyond_tape :
    let settings : Settings :=
      { Settings.standard with
        rate := 10485760, channels := 8, method := .null, tuning := ⟨200, 200⟩ }
    let producer := RawSource.ofBlock (.silence 8) true
    let link := Link.create (.showing 0) ⟨0, 0⟩ ⟨0, 0⟩
    let s := create settings.spec.asS16 256 (.null ⟨2097152⟩) producer link none
    build settings producer link .fresh = .ok s ∧ s.blockBytes = 2 * maxTapeLength
      ∧ ∀ operations, (s.run operations).1.filterMap Event.forwarded? = [] := by
  intro settings producer link s
  have hbuild : build settings producer link .fresh = .ok s := by
    dsimp only [settings, producer, link, s]
    rfl
  have hsize : s.blockBytes = 2 * maxTapeLength := by decide +kernel
  have hnew : s.IsNew := isNew_of_build (by decide) ⟨_, _, _, _, rfl⟩ hbuild
  obtain ⟨-, hpos, hrecords⟩ := hnew.recording
  exact ⟨hbuild, hsize, forwarded_run_of_beyond hpos (hsize ▸ by decide) hrecords⟩

end Session

end EchoAlign
