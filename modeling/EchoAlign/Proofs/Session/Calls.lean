import EchoAlign.Proofs.Audio.Readable
import EchoAlign.Proofs.Session.Alike
import EchoAlign.Proofs.Session.Leading
import EchoAlign.Proofs.Session.Suspension

/-!
# `EchoAlign.Proofs.Session.Calls`: every run of the canceller

`Calls` says of a trace that it tells of runs of the canceller that follow one
another. It holds of every run of a session, whatever is taken back and
whatever byte counts are asked for (`calls_run`). All blocks in it have
the same size (`Calls.size_dumped`).

A block is only as long as it is to be if the tape can be read. The captured
audio can (`Capture.Records`), and so can the playback (`Capture.stable_plays`).
-/

set_option autoImplicit false

namespace EchoAlign

/-- Events without a run of the canceller (`Event.isCall`) leave it as it is. -/
theorem calls_of_not_isCall {κ : Type} [Canceller κ] {size : Nat} {k : κ} {events : List Event}
    (h : ∀ event ∈ events, event.isCall = false) : Calls size k events k := by
  induction events with
  | nil => rfl
  | cons event rest ih =>
      obtain ⟨hfirst, hrest⟩ := List.forall_mem_cons.mp h
      cases event with
      | cancelled captured played cleaned => cases hfirst
      | _ => exact ih hrest

namespace Pairing

variable {κ : Type} [Canceller κ] {p next : Pairing κ} {event : Event} {base : Nat}
  {bytes : List UInt8}

/-- A step of the pairing takes playback from the front, so that the rest can
still be read (`Readable`). -/
theorem readable_step? (h : p.played.Readable) (hstep : p.step? = some (event, next)) :
    next.played.Readable := by
  obtain ⟨-, ⟨-, heq⟩ | ⟨-, -, heq⟩ | ⟨-, -, heq⟩⟩ := step?_cases hstep
  · cases heq
    exact h
  · cases heq
    exact h.advance _
  · cases heq
    exact h.advance _

/-- A step (`Pairing.step?`) runs the canceller on two blocks of `blockBytes`,
or leaves it alone. -/
theorem calls_step? (hcaptured : p.captured.Holds base bytes) (hplayed : p.played.Readable)
    (hstep : p.step? = some (event, next)) :
    Calls p.blockBytes p.canceller [event] next.canceller := by
  obtain ⟨hle, ⟨-, heq⟩ | ⟨-, -, heq⟩ | ⟨-, -, heq⟩⟩ := step?_cases hstep
  · cases heq
    rfl
  · cases heq
    rw [hcaptured.length_eq] at hle
    have hword : p.blockBytes ≤ Word.maxSigned := Nat.le_trans hle hcaptured.length_le
    have hblock : (p.captured.peek p.blockBytes).size = p.blockBytes := (hcaptured.take hle).1
    have hreference : (p.played.peek p.blockBytes).size = p.blockBytes := hplayed.size_peek hword
    have hrun : cancelBlock p.canceller (p.captured.peek p.blockBytes) (p.played.peek p.blockBytes)
        = (Block.ofBytes (Canceller.run p.canceller (p.captured.peek p.blockBytes).bytes
            (p.played.peek p.blockBytes).bytes).1,
          (Canceller.run p.canceller (p.captured.peek p.blockBytes).bytes
            (p.played.peek p.blockBytes).bytes).2) :=
      if_pos (hblock.trans hreference.symm)
    refine ⟨hblock, hreference, ?_, ?_⟩
    · show (cancelBlock p.canceller (p.captured.peek p.blockBytes)
        (p.played.peek p.blockBytes)).1.bytes = _
      rw [hrun]
      exact Block.bytes_ofBytes _
    · show (cancelBlock p.canceller (p.captured.peek p.blockBytes)
        (p.played.peek p.blockBytes)).2 = _
      rw [hrun]
  · cases heq
    rfl

end Pairing

namespace Capture

variable {κ : Type} {c : Capture κ}

/-- The tape of playback can be read (`Tape.Readable`): what it tells to be
unread is there. -/
def Plays (c : Capture κ) : Prop := c.pairing.played.Readable

/-- A rendered block that is received leaves a tape that can be read (`Plays`). -/
theorem Plays.receive (h : c.Plays) (block : Block) : (c.receive block).Plays := by
  unfold Plays Capture.receive
  dsimp only
  split
  · exact Tape.Readable.flush h
  · split
    · next played happend => exact Tape.Readable.append h happend
    · exact h

/-- Audio that is taken back leaves a tape that can be read (`Plays`). -/
theorem Plays.takeBack (h : c.Plays) (n : Nat) : (c.takeBack n).Plays := by
  show (if c.suspended then c.pairing.played.flush true
    else c.pairing.played.seek (-Word.signed n) true).Readable
  split
  · exact Tape.Readable.flush h
  · exact Tape.Readable.seek h _ _

/-- A `resync` and a correction change the skip only, and neither the tape of
playback nor the canceller. -/
theorem resync_pairing (c : Capture κ) (link : Link) (epoch : Nat) (timing : PlaybackTiming) :
    (c.resync link epoch timing).1.pairing.played = c.pairing.played
      ∧ (c.resync link epoch timing).1.pairing.canceller = c.pairing.canceller := by
  unfold resync
  split
  · exact ⟨rfl, rfl⟩
  · exact ⟨rfl, rfl⟩

/-- A message that is handled leaves a tape that can be read. Rendered audio, a
rewind and a change of the device touch the tape, with a lemma for each; a
resync leaves it to `Plays` as it is. -/
theorem Plays.handle (h : c.Plays) (link : Link) (message : CaptureMessage) :
    (c.handle link message).1.Plays := by
  cases message with
  | rendered block => exact h.receive block
  | rewound n => exact h.takeBack n
  | timingRequest ticket => exact h
  | correct usec => exact h
  | playbackTiming epoch timing =>
      show (c.resync link epoch timing).1.pairing.played.Readable
      rw [(c.resync_pairing link epoch timing).1]
      exact h
  | device state =>
      cases state with
      | suspended => exact Tape.Readable.flush h
      | running =>
          show (c.follow .running).pairing.played.Readable
          rw [pairing_follow_running]
          exact h

/-- The tape of playback can be read whatever the side does: `Plays` is
`Stable`. -/
theorem stable_plays [Canceller κ] (allowed : Operation → Prop) :
    Stable allowed (Plays : Capture κ → Prop) where
  handle _ link message h := h.handle link message
  resume _ _ _ h := h
  accept c block _ h := by
    show (c.accept block).pairing.played.Readable
    rw [played_accept]
    exact h
  pair _ _ _ hstep h := Pairing.readable_step? h hstep
  rewind _ n _ h := Tape.Readable.rewind h n

/-- No `CaptureMessage` runs the canceller. -/
theorem canceller_handle (c : Capture κ) (link : Link) (message : CaptureMessage) :
    (c.handle link message).1.pairing.canceller = c.pairing.canceller := by
  cases message with
  | playbackTiming epoch timing => exact (c.resync_pairing link epoch timing).2
  | device state =>
      cases state with
      | suspended => rfl
      | running => exact congrArg Pairing.canceller c.pairing_follow_running
  | _ => rfl

/-- Captured audio is taken in by `accept` without a run of the canceller. -/
theorem canceller_accept (c : Capture κ) (block : Block) :
    (c.accept block).pairing.canceller = c.pairing.canceller := by
  unfold accept
  split
  · rfl
  · rfl

end Capture

namespace Session

variable {κ υ : Type} [Canceller κ] [Producer υ] {s t : Session κ υ}

/-- What has been done is runs of the canceller (`Calls`) that follow one
another from the state `start` on, the last of which has left it as the capture
side has it. -/
def Follows (size : Nat) (start : κ) (s : Session κ υ) (events : List Event) : Prop :=
  ∃ last, Calls size start events last ∧ s.CaptureIs fun c => c.pairing.canceller = last

variable {allowed : Operation → Prop} {size base : Nat} {start : κ} {events : List Event}
  {entries : List Entry}

omit [Canceller κ] [Producer υ] in
/-- The capture side of `t`, if there is one, has the canceller that `s` has. -/
def SameCanceller (s t : Session κ υ) : Prop :=
  ∀ c', t.capture? = some c' →
    ∃ c, s.capture? = some c ∧ c'.pairing.canceller = c.pairing.canceller

omit [Canceller κ] [Producer υ] in
/-- Where the capture side stays as it is, so does its canceller
(`SameCanceller`). -/
theorem sameCanceller_of_eq (h : t.capture? = s.capture?) : s.SameCanceller t :=
  fun c hc => ⟨c, h ▸ hc, rfl⟩

omit [Canceller κ] [Producer υ] in
/-- It is enough for `SameCanceller` that the canceller stays as it is. -/
theorem sameCanceller_of_some {c c' : Capture κ} (hc : s.capture? = some c)
    (hc' : t.capture? = some c') (h : c'.pairing.canceller = c.pairing.canceller) :
    s.SameCanceller t := by
  intro other hother
  cases hother.symm.trans hc'
  exact ⟨c, hc, h⟩

omit [Producer υ] in
/-- Most of what happens has nothing to do with the canceller (`hmore`), and the
runs follow one another as before. -/
theorem Follows.idle (h : s.Follows size start events) (hsame : s.SameCanceller t)
    {more : List Event} (hmore : ∀ event ∈ more, event.isCall = false) :
    t.Follows size start (events ++ more) := by
  obtain ⟨last, hcalls, hlast⟩ := h
  refine ⟨last, hcalls.append (calls_of_not_isCall hmore), fun c' hc' => ?_⟩
  obtain ⟨c, hc, hcanceller⟩ := hsame c' hc'
  exact hcanceller.trans (hlast c hc)

/-- A step adds at most one run to those that follow one another, on blocks that
both tapes really hold. Only `Step.pair` adds one. All other steps leave the
canceller as it is. -/
theorem Follows.step (h : s.Follows size start events)
    (hrecords : s.CaptureIs (Capture.Records size base)) (hplays : s.CaptureIs Capture.Plays)
    (hstep : Step allowed s entries t) :
    t.Follows size start (events ++ entries.filterMap Entry.event?) := by
  have hnothing : entries.filterMap Entry.event? = [] →
      ∀ event ∈ entries.filterMap Entry.event?, event.isCall = false :=
    fun hnil event hevent => absurd (hnil ▸ hevent) List.not_mem_nil
  cases hstep.act with
  | quiet hevents hcapture hdata =>
      refine h.idle (sameCanceller_of_eq hcapture) fun event hevent => ?_
      have hanswer := hevents event hevent
      cases event <;> first | rfl | cases hanswer
  | control hc hmessage hentries hnext hdata =>
      subst hentries
      exact h.idle (sameCanceller_of_some hc hnext (Capture.canceller_handle ..))
        (hnothing (Capture.events_handleEntries ..))
  | data hc hentries hnext hdata =>
      subst hentries
      exact h.idle (sameCanceller_of_some hc hnext (Capture.canceller_handle ..))
        (hnothing (Capture.events_handleEntries ..))
  | resume hc ha hentries hnext hdata =>
      subst hentries
      exact h.idle (sameCanceller_of_some hc hnext rfl) (hnothing rfl)
  | accept hc ha hentries hnext hdata =>
      subst hentries
      exact h.idle (sameCanceller_of_some hc hnext (Capture.canceller_accept ..))
        (hnothing (Capture.events_appendEntries ..))
  | @pair c event pairing hc hpair hentries hnext hdata =>
      subst hentries
      -- Here the canceller may run. Its blocks are of the right size, as both tapes can be read.
      obtain ⟨last, hcalls, hlast⟩ := h
      obtain ⟨hsize, bytes, hbytes⟩ := hrecords c hc
      have hcall := Pairing.calls_step? hbytes (hplays c hc) hpair
      rw [hsize, hlast c hc] at hcall
      refine ⟨_, hcalls.append hcall, fun c' hc' => ?_⟩
      cases hc'.symm.trans hnext
      rfl
  | rewind hc ha hentries hnext hdata =>
      subst hentries
      exact h.idle (sameCanceller_of_some hc hnext rfl)
        fun event hevent => List.mem_singleton.mp hevent ▸ rfl
  | correct hc ha hentries hnext hdata =>
      subst hentries
      exact h.idle (sameCanceller_of_some hc hnext rfl) (hnothing rfl)
  | @post message hevents hword hcapture hdata =>
      refine h.idle (sameCanceller_of_eq hcapture) fun event hevent => ?_
      rw [hevents] at hevent
      obtain ⟨block, -, rfl⟩ := List.mem_map.mp hevent
      rfl
  | idle hentries hcapture hdata =>
      subst hentries
      exact h.idle (sameCanceller_of_eq hcapture)
        fun event hevent => List.mem_singleton.mp hevent ▸ rfl
  | drop hentries hnext hdata =>
      subst hentries
      refine h.idle (fun c hc => ?_) fun event hevent => List.mem_singleton.mp hevent ▸ rfl
      cases hc.symm.trans hnext

/-- In every run of a new session, the trace tells of all that the canceller was
asked for: it `Follows` from its first state. -/
theorem IsNew.follows (hnew : s.IsNew) {c : Capture κ} (hc : s.capture? = some c)
    (operations : List Operation) :
    (s.run operations).2.Follows s.blockBytes c.pairing.canceller (s.run operations).1 := by
  have hsteps := s.steps_any operations
  obtain ⟨-, -, hrecords⟩ := hnew.recording
  have hplays : s.CaptureIs Capture.Plays := by
    obtain ⟨spec, _, _, _, _, _, rfl, -, hspec, hrate, -⟩ := hnew.opened
    intro c' hc'
    cases hc'
    exact (Tape.sound_create _ _ (spec.bytesPerSecond_le hspec hrate)).readable
  rw [← events_journalOf]
  refine (hsteps.induct (motive := fun t entries =>
    t.CaptureIs (Capture.Records s.blockBytes s.spec.frameSize) ∧ t.CaptureIs Capture.Plays
      ∧ t.Follows s.blockBytes c.pairing.canceller (entries.filterMap Entry.event?)) ?_ ?_).2.2
  · refine ⟨hrecords, hplays, c.pairing.canceller, rfl, fun c' hc' => ?_⟩
    cases hc.symm.trans hc'
    rfl
  · intro t u before entries ⟨hrecords, hplays, hfollows⟩ hstep
    rw [List.filterMap_append]
    exact ⟨hrecords.step (Capture.stable_records _ _ _) hstep,
      hplays.step (Capture.stable_plays _) hstep, hfollows.step hrecords hplays hstep⟩

end Session

end EchoAlign
