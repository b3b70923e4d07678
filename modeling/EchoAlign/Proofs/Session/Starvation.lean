import EchoAlign.Proofs.Session.Resync
import EchoAlign.Proofs.Session.Wiring

/-!
# `EchoAlign.Proofs.Session.Starvation`: room for one message is not enough

The playback side offers the timing for a resync right behind the audio that
it has made, to the same mailbox. When that has room for one message only, it
is either full already, or the audio has filled it.

* `never_resynced`: with room for one message, no resync is ever carried out.
  One that is asked for stays pending, whatever is done about it.

The journal shows that no timing is sent: `sentTimings_journal` goes through
the operations, of which only one tries.
-/

set_option autoImplicit false

namespace EchoAlign

/-- A mailbox with room for one message (`h`) has none behind a post, whether
the post was taken or not. -/
theorem Mailbox.hasRoom_post_of_narrow {α : Type} {m : Mailbox α} (h : m.Within 1) (message : α) :
    (m.post message).2.hasRoom = false := by
  refine Bool.eq_false_iff.mpr fun hroom => ?_
  obtain ⟨-, hlength⟩ := hasRoom_iff.mp hroom
  rw [(h.post message).capacity_eq, items_post] at hlength
  cases hbefore : m.hasRoom with
  | true =>
      rw [hbefore, if_pos rfl, List.length_append] at hlength
      simp at hlength
  | false =>
      rw [post, hbefore, if_neg Bool.false_ne_true] at hroom
      exact Bool.false_ne_true (hbefore.symm.trans hroom)

/-! ### Who sends timing -/

/-- Events of the trace send no timing, so that `sentTimings` finds none. -/
theorem sentTimings_map_event (events : List Event) : sentTimings (events.map .event) = [] :=
  sentTimings_eq_nil fun epoch timing hm => by
    obtain ⟨event, -, heq⟩ := List.mem_map.mp hm
    cases heq

namespace Capture

variable {κ : Type} (c : Capture κ) (link : Link)

/-- The capture side sends nothing while it handles messages
(`handleAllEntries`). -/
theorem sentTimings_handleAllEntries (messages : List CaptureMessage) :
    sentTimings (c.handleAllEntries link messages) = [] := by
  induction messages generalizing c link with
  | nil => rfl
  | cons message messages ih =>
      -- It tells of timing that it has got, never of timing that it sends.
      have hfirst : sentTimings (c.handleEntries link message) = [] := by
        refine sentTimings_eq_nil fun epoch timing hm => ?_
        rcases mem_handleEntries hm with h | h | ⟨_, -, h⟩ | ⟨_, _, -, h⟩ <;> cases h
      show sentTimings (c.handleEntries link message ++ _) = []
      rw [sentTimings_append, hfirst, ih]
      rfl

end Capture

/-- The playback side sends nothing while it handles messages
(`handleAllEntries`); it sends timing behind its audio. -/
theorem Playback.sentTimings_handleAllEntries {υ : Type} (p : Playback υ) (link : Link)
    (messages : List PlaybackMessage) : sentTimings (p.handleAllEntries link messages) = [] := by
  induction messages generalizing p link with
  | nil => rfl
  | cons message messages ih =>
      have hfirst : sentTimings (handleEntries link message) = [] :=
        sentTimings_eq_nil fun epoch timing hm => by cases mem_handleEntries hm
      show sentTimings (handleEntries link message ++ _) = []
      rw [sentTimings_append, hfirst, ih]
      rfl

namespace Session

variable {κ υ : Type} [Canceller κ] [Producer υ] {s : Session κ υ}

omit [Producer υ] in
/-- A capture tick sends no timing. What it does tell of are messages that are
handled, refusals and the request of a resumption, and none of these is
`sentTiming?`. -/
theorem sentTimings_pushEntries (s : Session κ υ) (block : Block) :
    sentTimings (s.pushEntries block) = [] := by
  unfold pushEntries
  split
  · rfl
  · next c hc =>
      have hresume : sentTimings ((s.attend c).1.resumeEntries) = [] := by
        unfold Capture.resumeEntries
        split <;> rfl
      have haccept : sentTimings ((s.drainCapture c).1.acceptEntries block) = [] :=
        sentTimings_eq_nil fun epoch timing hm => by cases Capture.mem_appendEntries hm
      split
      · rfl
      · show sentTimings (_ ++ _ ++ (s.attend c).1.resumeEntries ++ _ ++ _) = []
        rw [sentTimings_append, sentTimings_append, sentTimings_append, sentTimings_append,
          Capture.sentTimings_handleAllEntries, Capture.sentTimings_handleAllEntries, hresume,
          haccept, sentTimings_map_event]
        rfl

omit [Canceller κ] [Producer υ] in
/-- An inspection sends no timing. Each side that is asked brings the entries of
`Link.readEntries` at most. -/
theorem sentTimings_inspectEntries (s : Session κ υ) (asked : Sides) :
    sentTimings (s.inspectEntries asked) = [] := by
  have hplayback : ∀ s : Session κ υ, sentTimings s.playbackTimingEntries = [] := by
    intro s
    unfold playbackTimingEntries
    split
    · exact s.link.sentTimings_readEntries
    · rfl
  have hcapture : ∀ s : Session κ υ, sentTimings s.captureTimingEntries = [] := by
    intro s
    unfold captureTimingEntries
    split
    · exact s.link.sentTimings_readEntries
    · rfl
  unfold inspectEntries
  simp only
  rw [sentTimings_append]
  refine List.append_eq_nil_iff.mpr ⟨?_, ?_⟩
  · split
    · exact hplayback s
    · rfl
  · split
    · exact hcapture _
    · rfl

omit [Canceller κ] in
/-- A playback tick sends no timing, as the audio takes the only place there is.
`Session.Wired` with the limit 1 says so, and `hasRoom_post_of_narrow` takes it
from there. -/
theorem sentTimings_renderEntries (hwired : s.Wired 1) (n : Nat) :
    sentTimings (s.renderEntries n) = [] := by
  unfold renderEntries
  split
  · rfl
  · next p hp =>
      split
      · rfl
      · have hplay : sentTimings ((s.scene p).playEntries n) = [] := by
          refine sentTimings_eq_nil fun epoch timing hm => ?_
          rcases PlaybackScene.mem_playEntries hm with h | ⟨_, h | h | h⟩ <;> cases h
        have hfull : ((s.scene p).play n).2.data.hasRoom = false := by
          rw [PlaybackScene.data_play]
          exact Mailbox.hasRoom_post_of_narrow hwired.data _
        have htiming : sentTimings ((s.scene p).play n).2.sendTimingEntries = [] := by
          cases howes : ((s.scene p).play n).2.owesTiming with
          | false =>
              rw [(((s.scene p).play n).2.sendTiming_of_not_owesTiming howes).2]
              rfl
          | true =>
              rw [((s.scene p).play n).2.sentTimings_sendTimingEntries howes, hfull]
              rfl
        show sentTimings (((s.scene p).playEntries n ++ ((s.scene p).play n).2.sendTimingEntries)
          ++ Playback.handleAllEntries _ _ _) = []
        rw [sentTimings_append, sentTimings_append, hplay, htiming,
          Playback.sentTimings_handleAllEntries]
        rfl

/-- No operation sends timing. Most have nothing to do with it, and a playback
tick finds no room. By cases on the operation, with `sentTimings_renderEntries`
for the one that could. -/
theorem sentTimings_journal (hwired : s.Wired 1) (operation : Operation) :
    sentTimings (s.journal operation) = [] := by
  -- Timing goes out behind a rendered block only, which takes the one place there
  -- is.
  cases operation with
  | push block => exact s.sentTimings_pushEntries block
  | render n => exact sentTimings_renderEntries hwired n
  | rewindPlayback n =>
      refine sentTimings_eq_nil fun epoch timing hm => ?_
      have hm : _ ∈ s.rewindPlaybackEntries n := hm
      unfold rewindPlaybackEntries at hm
      split at hm
      · cases hm
      · split at hm
        · cases hm
        · rcases PlaybackScene.mem_postEntries hm with h | h <;> cases h
  | reportDevice direction running =>
      show sentTimings (s.reportDeviceEntries direction running) = []
      unfold reportDeviceEntries
      split
      · rfl
      · cases direction with
        | input =>
            simp only
            split <;> rfl
        | output =>
            simp only
            split <;> rfl
  | requestResync =>
      show sentTimings s.requestResyncEntries = []
      unfold requestResyncEntries
      split <;> rfl
  | inspect asked =>
      show sentTimings (s.inspectEntries asked ++ _) = []
      rw [sentTimings_append, sentTimings_inspectEntries, sentTimings_map_event]
      rfl
  | _ => exact sentTimings_map_event _

/-- No run sends timing, by induction on the operations and
`sentTimings_journal` for each. -/
theorem sentTimings_journalOf (hwired : s.Wired 1) (operations : List Operation) :
    sentTimings (s.journalOf operations) = [] := by
  induction operations generalizing s with
  | nil => rfl
  | cons operation rest ih =>
      have hsteps : Steps (fun _ => True) s (s.journal operation) (s.perform operation).2 :=
        s.steps_perform trivial
      show sentTimings (s.journal operation ++ _) = []
      rw [sentTimings_append, sentTimings_journal hwired, ih (hwired.steps hsteps)]
      rfl

/-- With room for one message (`hcapacity`), no resync is ever begun, and one
that is asked for stays pending, whatever operations come. -/
theorem never_resynced (hnew : s.IsNew) (hcapacity : s.data.capacity = 1)
    (operations : List Operation) :
    (∀ epoch timing, .resynced epoch timing ∉ s.journalOf operations)
      ∧ ∀ rest, (s.run operations).2.link.resyncPending = true →
        ((s.run operations).2.run rest).2.link.resyncPending = true := by
  have hnever : ∀ operations epoch timing, .resynced epoch timing ∉ s.journalOf operations := by
    intro operations epoch timing hm
    obtain ⟨before, after, hsplit⟩ := List.append_of_mem hm
    have hresyncing := hnew.resyncing_steps (s.steps_any operations)
    -- It would have been begun against timing that was sent.
    obtain ⟨-, hsent, -⟩ := hresyncing.fresh before epoch timing after hsplit
    have hnone := sentTimings_journalOf (hcapacity ▸ hnew.wired) operations
    rw [hsplit, sentTimings_append] at hnone
    rw [(List.append_eq_nil_iff.mp hnone).1] at hsent
    cases hsent
  refine ⟨hnever operations, fun rest hpending => ?_⟩
  have hfollows := ((s.run operations).2.steps_any rest).follows
  rw [hfollows.pending_eq, hpending]
  refine foldl_pendingAfter_true fun epoch timing hm => hnever (operations ++ rest) epoch timing ?_
  rw [journalOf_append]
  exact List.mem_append_right _ hm

end Session

end EchoAlign
