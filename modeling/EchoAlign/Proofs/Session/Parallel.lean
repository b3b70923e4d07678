import EchoAlign.Proofs.Session.Alike

/-!
# `EchoAlign.Proofs.Session.Parallel`: two sessions side by side

Two sessions are `Parallel` when they differ in nothing but the clips of their
playback, the state of a producer that goes on to make the same audio, and the
messages that wait between the sides, of which some relation is asked for.

* `Parallel.perform`: whatever happens to both, except for a capture tick, they
  stay parallel and leave the same trace.
* `Parallel.push`: so it is in a capture tick in which the messages come to the
  same.

The relation of the mailboxes must be kept when messages are posted
(`Mailbox.KeptBy`). Where it holds of different mailboxes, no message may be
lost. Nothing is said of the dumps, which record the audio as it is worked off.
-/

set_option autoImplicit false

namespace EchoAlign

/-- Two optional values that are `Related` are both missing or both there. This
opens `Option.Rel` by cases. -/
theorem rel_cases {α β : Type} {Related : α → β → Prop} {a? : Option α} {b? : Option β}
    (h : Option.Rel Related a? b?) :
    (a? = none ∧ b? = none) ∨ ∃ a b, a? = some a ∧ b? = some b ∧ Related a b := by
  cases h with
  | none => exact Or.inl ⟨rfl, rfl⟩
  | some h => exact Or.inr ⟨_, _, rfl, rfl, h⟩

/-! ### Producers -/

/-- Two producers make the same audio, whatever they are asked for from now on:
some relation holds of them that `render` and `rewind` keep, and related
producers render the same. -/
def Producer.Alike {υ : Type} [Producer υ] (a b : υ) : Prop :=
  ∃ Related : υ → υ → Prop, Related a b ∧ ∀ a b, Related a b → ∀ n,
    (Producer.render b n).1 = (Producer.render a n).1
      ∧ Related (Producer.render a n).2 (Producer.render b n).2
      ∧ Related (Producer.rewind a n) (Producer.rewind b n)

namespace Producer

variable {υ : Type} [Producer υ] {a b : υ}

/-- A producer is `Alike` to itself. -/
theorem alike_refl (a : υ) : Producer.Alike a a := by
  refine ⟨Eq, rfl, fun a b h n => ?_⟩
  rw [h]
  exact ⟨rfl, rfl, rfl⟩

/-- Producers that are `Alike` render the same, and are alike afterwards. -/
theorem Alike.render (h : Producer.Alike a b) (n : Nat) :
    (Producer.render b n).1 = (Producer.render a n).1
      ∧ Producer.Alike (Producer.render a n).2 (Producer.render b n).2 := by
  obtain ⟨Related, hab, hstep⟩ := h
  obtain ⟨hrendered, hnext, -⟩ := hstep a b hab n
  exact ⟨hrendered, Related, hnext, hstep⟩

/-- Producers that are `Alike` stay so through a `rewind`. -/
theorem Alike.rewind (h : Producer.Alike a b) (n : Nat) :
    Producer.Alike (Producer.rewind a n) (Producer.rewind b n) := by
  obtain ⟨Related, hab, hstep⟩ := h
  exact ⟨Related, (hstep a b hab n).2.2, hstep⟩

end Producer

/-! ### The playback side -/

namespace Playback

variable {υ : Type} [Producer υ] {p p' : Playback υ}

/-- Two playback sides are alike if their producers are `Producer.Alike` and all
else is equal. -/
def Alike (p p' : Playback υ) : Prop :=
  ∃ producer, p' = { p with producer } ∧ Producer.Alike p.producer producer

/-- An underrun (`noteUnderrun`) keeps two playback sides `Alike`, and comes to
the same on the link. Its request goes to the link, which is one and the same
for both. -/
theorem Alike.noteUnderrun (h : p.Alike p') (link : Link) (underrun : Nat) :
    (p.noteUnderrun link underrun).1.Alike (p'.noteUnderrun link underrun).1
      ∧ (p'.noteUnderrun link underrun).2 = (p.noteUnderrun link underrun).2 := by
  obtain ⟨producer, rfl, hproducer⟩ := h
  constructor
  · rw [fst_noteUnderrun, fst_noteUnderrun]
    exact ⟨producer, rfl, hproducer⟩
  · unfold Playback.noteUnderrun
    split
    · split
      · rfl
      · rfl
    · split
      · rfl
      · rfl

/-- A message keeps two playback sides `Alike`, and comes to the same on the
link. No message of `PlaybackMessage` looks at the producer. -/
theorem Alike.handle (h : p.Alike p') (link : Link) (message : PlaybackMessage) :
    (p.handle link message).1.Alike (p'.handle link message).1
      ∧ (p'.handle link message).2 = (p.handle link message).2 := by
  obtain ⟨producer, rfl, hproducer⟩ := h
  cases message with
  | timingRequest ticket => exact ⟨⟨producer, rfl, hproducer⟩, rfl⟩
  | device state =>
      cases state with
      | running => exact ⟨⟨producer, rfl, hproducer⟩, rfl⟩
      | suspended => exact ⟨⟨producer, rfl, hproducer⟩, rfl⟩

/-- Any number of messages keeps two playback sides alike, with the same answers
and the same link. By induction on the messages with `Alike.handle`. -/
theorem Alike.handleAll (h : p.Alike p') (link : Link) (messages : List PlaybackMessage) :
    (p.handleAll link messages).1.Alike (p'.handleAll link messages).1
      ∧ (p'.handleAll link messages).2 = (p.handleAll link messages).2
      ∧ p'.replies link messages = p.replies link messages := by
  induction messages generalizing p p' link with
  | nil => exact ⟨h, rfl, rfl⟩
  | cons message messages ih =>
      obtain ⟨hfirst, hlink⟩ := h.handle link message
      obtain ⟨hrest, hlink', hreplies⟩ := ih hfirst (p.handle link message).2
      have hreply : p'.reply? link message = p.reply? link message := by
        obtain ⟨producer, rfl, -⟩ := h
        cases message <;> rfl
      have hsplit : ∀ q : Playback υ, q.handleAll link (message :: messages)
          = (q.handle link message).1.handleAll (q.handle link message).2 messages :=
        fun _ => rfl
      rw [hsplit p, hsplit p', hlink]
      simp only [replies, hlink, hreplies, hreply]
      exact ⟨hrest, hlink', trivial⟩

end Playback

/-! ### Messages between the sides -/

/-- A relation of mailboxes is kept when messages are posted to both, unless
the message is lost and none `mayLose`. -/
structure Mailbox.KeptBy {α : Type} (Related : Mailbox α → Mailbox α → Prop) (mayLose : Prop) :
    Prop where
  post : ∀ {m m' : Mailbox α} (message : α), Related m m' → mayLose ∨ m'.hasRoom = true →
    m'.hasRoom = m.hasRoom ∧ Related (m.post message).2 (m'.post message).2
  close : ∀ {m m' : Mailbox α}, Related m m' → Related m.close m'.close

/-- Mailboxes that are equal (`Eq`) are kept so by every operation, and may lose
messages. -/
theorem Mailbox.keptBy_eq {α : Type} : Mailbox.KeptBy (Eq : Mailbox α → Mailbox α → Prop) True where
  post message h _ := by
    rw [h]
    exact ⟨rfl, rfl⟩
  close h := congrArg Mailbox.close h

/-- Whether a message was lost: the entry is a `lost` one. -/
def Entry.isLost : Entry → Bool
  | lost _ => true
  | _ => false

/-- No message is lost among these entries: none of them `isLost`. -/
def Lossless (entries : List Entry) : Prop := ∀ entry ∈ entries, entry.isLost = false

/-- It can be decided whether entries are `Lossless`, by looking at each. -/
instance (entries : List Entry) : Decidable (Lossless entries) :=
  inferInstanceAs (Decidable (∀ entry ∈ entries, entry.isLost = false))

/-- Entries in two parts are `Lossless` if both parts are. -/
theorem lossless_append {first rest : List Entry} :
    Lossless (first ++ rest) ↔ Lossless first ∧ Lossless rest := List.forall_mem_append

namespace PlaybackScene

variable {υ : Type} [Producer υ] {Related : Mailbox CaptureMessage → Mailbox CaptureMessage → Prop}
  {mayLose : Prop} {x y : PlaybackScene υ}

omit [Producer υ] in
/-- A post that is `Lossless` finds room: without room, `postEntries` would have
a `lost` entry. -/
theorem hasRoom_of_lossless {message : CaptureMessage}
    (h : Lossless (x.postEntries message)) : x.data.hasRoom = true := by
  unfold postEntries at h
  cases hfull : x.data.hasRoom with
  | true => rfl
  | false =>
      rw [hfull] at h
      cases h _ List.mem_cons_self

/-- Two playback sides are alike, and so are the links they act on; their data
mailboxes are `Related`. -/
structure Parallel (Related : Mailbox CaptureMessage → Mailbox CaptureMessage → Prop)
    (x y : PlaybackScene υ) : Prop where
  playback : x.playback.Alike y.playback
  link_eq : y.link = x.link
  data : Related x.data y.data

variable (hkept : Mailbox.KeptBy Related mayLose)

include hkept

/-- A post comes to the same on two sides that are `Parallel`, if messages may
be lost in the relation (`mayLose`) or none is. -/
theorem Parallel.post (h : x.Parallel Related y) (message : CaptureMessage)
    (hlossless : mayLose ∨ Lossless (y.postEntries message)) :
    (y.post message).1 = (x.post message).1
      ∧ (x.post message).2.Parallel Related (y.post message).2 := by
  obtain ⟨hroom, hdata⟩ := hkept.post message h.data (hlossless.imp_right hasRoom_of_lossless)
  unfold PlaybackScene.post
  simp only [Mailbox.post_fst, hroom, h.link_eq]
  exact ⟨trivial, h.playback, rfl, hdata⟩

/-- Sending a block keeps two sides `Parallel`. `hlossless` is that of
`Parallel.post`. -/
theorem Parallel.send (h : x.Parallel Related y) (block : Block)
    (hlossless : mayLose ∨ Lossless (y.postEntries (.rendered block))) :
    (x.send block).Parallel Related (y.send block) := by
  obtain ⟨hsame, hposted⟩ := h.post hkept (.rendered block) hlossless
  obtain ⟨producer, hplayback, hproducer⟩ := hposted.playback
  unfold PlaybackScene.send
  simp only [hsame]
  split
  · refine ⟨?_, hposted.link_eq, hposted.data⟩
    rw [hplayback]
    exact ⟨producer, rfl, hproducer⟩
  · exact hposted

/-- Two sides that are parallel make the same block, and stay parallel. What
they make is the same by `Producer.Alike`, and its post is `Parallel.post`. -/
theorem Parallel.play (h : x.Parallel Related y) (n : Nat)
    (hlossless : mayLose ∨ Lossless (y.playEntries n)) :
    (y.play n).1 = (x.play n).1 ∧ (x.play n).2.Parallel Related (y.play n).2 := by
  obtain ⟨producer, hplayback, hproducer⟩ := h.playback
  obtain ⟨hrendered, hnext⟩ := hproducer.render n
  have hmade : Playback.Alike
      { x.playback with producer := (Producer.render x.playback.producer n).2 }
      { y.playback with producer := (Producer.render y.playback.producer n).2 } := by
    rw [hplayback]
    exact ⟨_, rfl, hnext⟩
  -- As much of the audio is missing, so an underrun begins or ends in both.
  obtain ⟨hnoted, hlink⟩ := hmade.noteUnderrun x.link
    (Producer.render x.playback.producer n).1.underrun
  have hsame : (Producer.render y.playback.producer n).1
      = (Producer.render x.playback.producer n).1 := by
    rw [hplayback]
    exact hrendered
  have hscene : Parallel Related ⟨_, _, x.data⟩ ⟨_, _, y.data⟩ := ⟨hnoted, hlink, h.data⟩
  -- The audio is posted to the mailbox as it was.
  have hposts : mayLose ∨ Lossless (y.postEntries
      (.rendered (Producer.render x.playback.producer n).1.block)) := by
    refine hlossless.imp_right fun hall entry hmem => hall entry ?_
    rw [playEntries, hsame]
    exact List.mem_append_right _ (List.mem_cons_of_mem _ hmem)
  simp only [PlaybackScene.play, hsame, h.link_eq]
  exact ⟨trivial, hscene.send hkept _ hposts⟩

/-- Sending timing keeps two sides parallel. Both owe timing or neither does, as
`timingEpoch?` and the link are the same. -/
theorem Parallel.sendTiming (h : x.Parallel Related y)
    (hlossless : mayLose ∨ Lossless y.sendTimingEntries) :
    x.sendTiming.Parallel Related y.sendTiming := by
  obtain ⟨producer, hplayback, hproducer⟩ := h.playback
  have hepoch : y.playback.timingEpoch? = x.playback.timingEpoch? := by rw [hplayback]
  have htiming : y.playback.timing x.link = x.playback.timing x.link := by
    rw [hplayback]
    rfl
  unfold PlaybackScene.sendTiming
  unfold sendTimingEntries at hlossless
  -- Both sides owe timing, or neither does. It is the same timing.
  simp only [h.link_eq, hepoch, htiming] at hlossless ⊢
  split
  · exact h
  · next howes =>
      simp only [if_neg howes] at hlossless
      have hread : Parallel Related { x with link := (x.playback.timing x.link).2 }
          { y with link := (x.playback.timing x.link).2 } := ⟨h.playback, rfl, h.data⟩
      obtain ⟨hsame, hposted⟩ := hread.post hkept (.playbackTiming x.link.epoch _)
        (hlossless.imp_right fun hall entry hmem =>
          hall entry (List.mem_cons_of_mem _ (List.mem_append_right _ hmem)))
      obtain ⟨producer', hplayback', hproducer'⟩ := hposted.playback
      rw [hsame]
      split
      · refine ⟨?_, hposted.link_eq, hposted.data⟩
        rw [hplayback']
        exact ⟨producer', rfl, hproducer'⟩
      · exact hposted

/-- Two sides that are `Parallel` render the same block, and stay parallel.
`hlossless` is about the block and the timing behind it. -/
theorem Parallel.render (h : x.Parallel Related y) (n : Nat)
    (hlossless : mayLose ∨ Lossless (y.renderEntries n)) :
    (y.render n).1 = (x.render n).1 ∧ (x.render n).2.Parallel Related (y.render n).2 := by
  obtain ⟨hblock, hplayed⟩ := h.play hkept n
    (hlossless.imp_right fun hall => (lossless_append.mp hall).1)
  exact ⟨hblock, hplayed.sendTiming hkept
    (hlossless.imp_right fun hall => (lossless_append.mp hall).2)⟩

/-- A rewind keeps two sides parallel. What it gives back to the producer keeps
these alike by `Producer.Alike.rewind`. -/
theorem Parallel.rewind (h : x.Parallel Related y) (n : Nat)
    (hlossless : mayLose ∨ Lossless (y.postEntries (.rewound n))) :
    (x.rewind n).Parallel Related (y.rewind n) := by
  obtain ⟨producer, hplayback, hproducer⟩ := h.playback
  have hback : Parallel Related
      { x with playback.producer := Producer.rewind x.playback.producer n }
      { y with playback.producer := Producer.rewind y.playback.producer n } := by
    refine ⟨?_, h.link_eq, h.data⟩
    rw [hplayback]
    exact ⟨_, rfl, hproducer.rewind n⟩
  obtain ⟨hsame, hposted⟩ := hback.post hkept (.rewound n) hlossless
  obtain ⟨producer', hplayback', hproducer'⟩ := hposted.playback
  unfold PlaybackScene.rewind
  simp only [hsame]
  split
  · refine ⟨?_, hposted.link_eq, hposted.data⟩
    rw [hplayback']
    exact ⟨producer', rfl, hproducer'⟩
  · exact hposted

end PlaybackScene

/-! ### Sessions -/

namespace Session

variable {κ υ : Type} [Canceller κ] [Producer υ]
  {Related : Mailbox CaptureMessage → Mailbox CaptureMessage → Prop} {mayLose : Prop}
  {horizon : Int} {s t : Session κ υ}

/-- Two sessions are alike, but for the messages between their sides
(`Related`), for the clips of playback before the `horizon` and for producers
that make the same audio (`Playback.Alike`). -/
def Parallel (Related : Mailbox CaptureMessage → Mailbox CaptureMessage → Prop) (horizon : Int)
    (s t : Session κ υ) : Prop :=
  ∃ data capture? playback? dumps?, t = { s with data, capture?, playback?, dumps? }
    ∧ Related s.data data ∧ Option.Rel (Capture.Alike horizon) s.capture? capture?
    ∧ Option.Rel Playback.Alike s.playback? playback?

omit [Canceller κ] in
/-- Where two sessions are `Parallel`, both capture sides have gone away, or
both are there and `Alike`. -/
theorem Parallel.capture_cases (h : s.Parallel Related horizon t) :
    (s.capture? = none ∧ t.capture? = none)
      ∨ ∃ c c', s.capture? = some c ∧ t.capture? = some c' ∧ c.Alike horizon c' := by
  obtain ⟨data, capture?, playback?, dumps?, rfl, -, hcapture, -⟩ := h
  exact rel_cases hcapture

/-- A change that neither looks at the sides of a session, at the messages
between them and at the dumps, nor changes them. Such a change keeps two
sessions parallel, by `LeavesSides.parallel`. -/
def LeavesSides (change : Session κ υ → Session κ υ) : Prop :=
  ∀ s data capture? playback? dumps?,
    change { s with data, capture?, playback?, dumps? }
      = { change s with data, capture?, playback?, dumps? }

omit [Canceller κ] in
/-- A change that leaves the sides alone keeps two sessions parallel. Nothing of
what the change does depends on the `Related` mailboxes, the sides or the dumps. -/
theorem LeavesSides.parallel {change : Session κ υ → Session κ υ} (hchange : LeavesSides change)
    (h : s.Parallel Related horizon t) : (change s).Parallel Related horizon (change t) := by
  obtain ⟨data, capture?, playback?, dumps?, rfl, hdata, hcapture, hplayback⟩ := h
  -- A change of `s` itself is one that puts back what `s` has.
  have hsame : change s = { change s with
      data := s.data, capture? := s.capture?, playback? := s.playback?, dumps? := s.dumps? } :=
    hchange s s.data s.capture? s.playback? s.dumps?
  refine ⟨data, capture?, playback?, dumps?, hchange .., ?_, ?_, ?_⟩
  · rw [hsame]
    exact hdata
  · rw [hsame]
    exact hcapture
  · rw [hsame]
    exact hplayback

/-! ### The control side and the world -/

omit [Canceller κ] [Producer υ] in
/-- A request for a resync leaves the sides alone: `LeavesSides` holds of
`requestResync`. -/
theorem leavesSides_requestResync : LeavesSides (requestResync : Session κ υ → Session κ υ) := by
  intro s data capture? playback? dumps?
  unfold requestResync
  split
  · rfl
  · rfl

omit [Canceller κ] [Producer υ] in
/-- A post to the capture side leaves the sides alone: the message waits in
`captureControl`. -/
theorem leavesSides_postCapture (message : CaptureMessage) :
    LeavesSides fun s : Session κ υ => (s.postCapture message).2 := by
  intro s data capture? playback? dumps?
  simp only [postCapture_eq]

omit [Canceller κ] [Producer υ] in
/-- A report on a device leaves the sides alone, as the capture side hears of it
through its control mailbox. Its cases are those of `Session.reportDevice`: no
control side, no news, and a message with or without a request. -/
theorem leavesSides_reportDevice (direction : Direction) (running : Bool) :
    LeavesSides fun s : Session κ υ => s.reportDevice direction running := by
  intro s data capture? playback? dumps?
  dsimp only [reportDevice]
  split
  · rfl
  · cases direction with
    | input =>
        simp only [postCapture_eq]
        split
        · rfl
        · split
          · rfl
          · rfl
    | output =>
        simp only [postPlayback_eq]
        split
        · rfl
        · split
          · rfl
          · rfl

omit [Canceller κ] [Producer υ] in
/-- A correction that is posted (`postCorrection`) leaves the sides alone until
it is handled. -/
theorem leavesSides_postCorrection (usec : Int) :
    LeavesSides fun s : Session κ υ => (s.postCorrection usec).2 := by
  intro s data capture? playback? dumps?
  dsimp only [postCorrection]
  split
  · rfl
  · exact leavesSides_postCapture (.correct usec) s data capture? playback? dumps?

omit [Canceller κ] [Producer υ] in
/-- The start of a drift check leaves the sides alone: `startCheck` posts a
question and changes the controller. -/
theorem leavesSides_startCheck : LeavesSides fun s : Session κ υ => s.startCheck.2 := by
  intro s data capture? playback? dumps?
  dsimp only [startCheck]
  split
  · rfl
  · split
    · rfl
    · rfl

omit [Canceller κ] [Producer υ] in
/-- Going on with a drift check leaves the sides alone: `continueCheck` takes an
answer, and posts a question or a correction. -/
theorem leavesSides_continueCheck : LeavesSides fun s : Session κ υ => s.continueCheck.2 := by
  intro s data capture? playback? dumps?
  dsimp only [continueCheck]
  split
  · rfl
  · rfl

omit [Canceller κ] [Producer υ] in
/-- The end of the link (`shutdown`) leaves the sides alone. -/
theorem leavesSides_shutdown : LeavesSides (shutdown : Session κ υ → Session κ υ) := by
  intro s data capture? playback? dumps?
  unfold shutdown
  split
  · rfl
  · rfl

omit [Canceller κ] [Producer υ] in
/-- The end of the control side (`dropControl`) leaves the sides alone. -/
theorem leavesSides_dropControl : LeavesSides (dropControl : Session κ υ → Session κ υ) := by
  intro s data capture? playback? dumps?
  unfold dropControl
  rw [leavesSides_shutdown s data capture? playback? dumps?]

omit [Canceller κ] [Producer υ] in
/-- Scheduling requests leaves the sides alone: `scheduleRequests` is about the
clock. -/
theorem leavesSides_scheduleRequests (readings : List Nat) :
    LeavesSides fun s : Session κ υ => s.scheduleRequests readings := by
  intro s data capture? playback? dumps?
  dsimp only [scheduleRequests]
  split
  · rfl
  · rfl

omit [Canceller κ] [Producer υ] in
/-- Setting a latency leaves the sides alone: `setLatency` is about a device. -/
theorem leavesSides_setLatency (direction : Direction) (latency : DeviceLatency) :
    LeavesSides fun s : Session κ υ => s.setLatency direction latency := by
  intro s data capture? playback? dumps?
  cases direction with
  | input => rfl
  | output => rfl

omit [Canceller κ] in
/-- A correction comes to the same when it is posted in two sessions that are
`Parallel`, since only the control mailbox decides. -/
theorem Parallel.offered_eq (h : s.Parallel Related horizon t) (usec : Int) :
    (t.postCorrection usec).1 = (s.postCorrection usec).1 := by
  obtain ⟨data, capture?, playback?, dumps?, rfl, -⟩ := h
  unfold postCorrection
  split
  · rfl
  · rfl

omit [Canceller κ] in
/-- A drift check comes to the same in two sessions that are `Parallel`, in
`startCheck` and in `continueCheck`. -/
theorem Parallel.checked_eq (h : s.Parallel Related horizon t) :
    t.startCheck.1 = s.startCheck.1 ∧ t.continueCheck.1 = s.continueCheck.1 := by
  obtain ⟨data, capture?, playback?, dumps?, rfl, -⟩ := h
  unfold startCheck continueCheck
  refine ⟨?_, ?_⟩
  · split
    · rfl
    · split
      · rfl
      · rfl
  · split
    · rfl
    · rfl

/-! ### The capture side -/

omit [Canceller κ] in
/-- The capture sides of two sessions that are `Parallel` take the same timing,
by `Alike.timing_eq`. -/
theorem Parallel.captureTiming (h : s.Parallel Related horizon t) :
    t.captureTiming.1 = s.captureTiming.1
      ∧ s.captureTiming.2.Parallel Related horizon t.captureTiming.2 := by
  obtain ⟨data, capture?, playback?, dumps?, rfl, hdata, hcapture, hplayback⟩ := h
  unfold Session.captureTiming
  obtain ⟨hnone, rfl⟩ | ⟨c, c', hsome, rfl, halike⟩ := rel_cases hcapture
  · simp only [hnone]
    exact ⟨trivial, _, _, _, _, rfl, hdata, hnone ▸ hcapture, hplayback⟩
  · simp only [hsome, halike.timing_eq]
    exact ⟨trivial, _, _, _, _, rfl, hdata, hsome ▸ hcapture, hplayback⟩

omit [Canceller κ] in
/-- A realignment at once (`correct`) keeps two sessions `Parallel`. -/
theorem Parallel.correct (h : s.Parallel Related horizon t) (usec : Int) :
    (s.correct usec).Parallel Related horizon (t.correct usec) := by
  obtain ⟨data, capture?, playback?, dumps?, rfl, hdata, hcapture, hplayback⟩ := h
  unfold Session.correct
  obtain ⟨hnone, rfl⟩ | ⟨c, c', hsome, rfl, halike⟩ := rel_cases hcapture
  · simp only [hnone]
    exact ⟨_, _, _, _, rfl, hdata, hnone ▸ hcapture, hplayback⟩
  · obtain ⟨hcorrected, hlink⟩ := halike.correct s.link usec
    simp only [hsome, hlink]
    exact ⟨_, _, _, _, rfl, hdata, .some hcorrected, hplayback⟩

omit [Canceller κ] in
/-- Bytes that the consumer takes back come to the same in two sessions that are
`Parallel`: their captured tapes are equal. -/
theorem Parallel.rewindCapture (h : s.Parallel Related horizon t) (n : Nat) :
    (t.rewindCapture n).1 = (s.rewindCapture n).1
      ∧ (s.rewindCapture n).2.Parallel Related horizon (t.rewindCapture n).2 := by
  obtain ⟨data, capture?, playback?, dumps?, rfl, hdata, hcapture, hplayback⟩ := h
  unfold Session.rewindCapture
  obtain ⟨hnone, rfl⟩ | ⟨c, c', hsome, rfl, halike⟩ := rel_cases hcapture
  · simp only [hnone]
    exact ⟨trivial, _, _, _, _, rfl, hdata, hnone ▸ hcapture, hplayback⟩
  · simp only [hsome]
    split
    · exact ⟨rfl, _, _, _, _, rfl, hdata, hsome ▸ hcapture, hplayback⟩
    · exact ⟨rfl, _, _, _, _, rfl, hdata, .some (halike.rewind n), hplayback⟩

/-- The capture sides of two sessions that are `Parallel` go away in the same
way. `hkept` is about the data mailbox, which is closed. -/
theorem Parallel.dropCapture (hkept : Mailbox.KeptBy Related mayLose)
    (h : s.Parallel Related horizon t) :
    t.dropCapture.1 = s.dropCapture.1
      ∧ s.dropCapture.2.Parallel Related horizon t.dropCapture.2 := by
  obtain ⟨data, capture?, playback?, dumps?, rfl, hdata, hcapture, hplayback⟩ := h
  unfold Session.dropCapture
  obtain ⟨hnone, rfl⟩ | ⟨c, c', hsome, rfl, halike⟩ := rel_cases hcapture
  · simp only [hnone]
    exact ⟨trivial, _, _, _, _, rfl, hdata, hnone ▸ hcapture, hplayback⟩
  · -- Both sides leave the same canceller.
    obtain ⟨pairing, rfl, played, rfl, -⟩ := halike
    simp only [hsome]
    exact ⟨trivial, _, _, _, _, rfl, hkept.close hdata, .none, hplayback⟩

/-! ### The playback side -/

omit [Canceller κ] in
/-- The playback sides of two sessions that are `Parallel` take the same timing,
which the producer has no part in. -/
theorem Parallel.playbackTiming (h : s.Parallel Related horizon t) :
    t.playbackTiming.1 = s.playbackTiming.1
      ∧ s.playbackTiming.2.Parallel Related horizon t.playbackTiming.2 := by
  obtain ⟨data, capture?, playback?, dumps?, rfl, hdata, hcapture, hplayback⟩ := h
  unfold Session.playbackTiming
  obtain ⟨hnone, rfl⟩ | ⟨p, p', hsome, rfl, producer, rfl, -⟩ := rel_cases hplayback
  · simp only [hnone]
    exact ⟨trivial, _, _, _, _, rfl, hdata, hcapture, hnone ▸ hplayback⟩
  · simp only [hsome]
    exact ⟨rfl, _, _, _, _, rfl, hdata, hcapture, hsome ▸ hplayback⟩

omit [Canceller κ] in
/-- The playback sides of two sessions that are `Parallel` go away in the same
way, by `dropPlayback`. -/
theorem Parallel.dropPlayback (h : s.Parallel Related horizon t) :
    s.dropPlayback.Parallel Related horizon t.dropPlayback := by
  obtain ⟨data, capture?, playback?, dumps?, rfl, hdata, hcapture, hplayback⟩ := h
  unfold Session.dropPlayback
  obtain ⟨hnone, rfl⟩ | ⟨p, p', hsome, rfl, -⟩ := rel_cases hplayback
  · simp only [hnone]
    exact ⟨_, _, _, _, rfl, hdata, hcapture, hnone ▸ hplayback⟩
  · simp only [hsome]
    exact ⟨_, _, _, _, rfl, hdata, hcapture, .none⟩

omit [Canceller κ] in
/-- A playback tick hands on the same block in two parallel sessions, if
messages may be lost in the relation or none is. First its messages
(`Playback.Alike.handleAll`), then the scene (`PlaybackScene.Parallel.render`). -/
theorem Parallel.render (hkept : Mailbox.KeptBy Related mayLose)
    (h : s.Parallel Related horizon t) (n : Nat)
    (hlossless : mayLose ∨ Lossless (t.renderEntries n)) :
    (t.render n).1 = (s.render n).1 ∧ (s.render n).2.Parallel Related horizon (t.render n).2 := by
  obtain ⟨data, capture?, playback?, dumps?, rfl, hdata, hcapture, hplayback⟩ := h
  unfold renderEntries at hlossless
  unfold Session.render
  obtain ⟨hnone, rfl⟩ | ⟨p, p', hsome, rfl, halike⟩ := rel_cases hplayback
  · simp only [hnone]
    exact ⟨trivial, _, _, _, _, rfl, hdata, hcapture, hnone ▸ hplayback⟩
  · cases hlinked : s.link.linked with
    | false =>
        simp only [hsome, Bool.not_false, if_true]
        exact ⟨trivial, _, _, _, _, rfl, hdata, hcapture, hsome ▸ hplayback⟩
    | true =>
        simp only [hlinked, Bool.not_true, Bool.false_eq_true, if_false] at hlossless
        have hscene : (s.scene p).Parallel Related ⟨p', s.link, data⟩ := ⟨halike, rfl, hdata⟩
        obtain ⟨hblock, hmade⟩ := hscene.render hkept n
          (hlossless.imp_right fun hall => (lossless_append.mp hall).1)
        obtain ⟨hdrained, hlink, hreplies⟩ := hmade.playback.handleAll ((s.scene p).render n).2.link
          (s.playbackControl.drain s.drainLimit).1
        simp only [hsome, Bool.not_true, Bool.false_eq_true, if_false, hblock]
        refine ⟨rfl, _, _, _, dumps?, ?_, hmade.data, hcapture, .some hdrained⟩
        simp only [drainPlayback, hmade.link_eq, hlink, hreplies]
        rfl

omit [Canceller κ] in
/-- A rewind of playback keeps two sessions parallel. Nothing is posted where
nothing is to be taken back or nobody is linked; otherwise it is
`PlaybackScene.Parallel.rewind`. -/
theorem Parallel.rewindPlayback (hkept : Mailbox.KeptBy Related mayLose)
    (h : s.Parallel Related horizon t) (n : Nat)
    (hlossless : mayLose ∨ Lossless (t.rewindPlaybackEntries n)) :
    (s.rewindPlayback n).Parallel Related horizon (t.rewindPlayback n) := by
  obtain ⟨data, capture?, playback?, dumps?, rfl, hdata, hcapture, hplayback⟩ := h
  unfold rewindPlaybackEntries at hlossless
  unfold Session.rewindPlayback
  obtain ⟨hnone, rfl⟩ | ⟨p, p', hsome, rfl, halike⟩ := rel_cases hplayback
  · simp only [hnone]
    exact ⟨_, _, _, _, rfl, hdata, hcapture, hnone ▸ hplayback⟩
  · simp only [hsome] at hlossless ⊢
    split
    · exact ⟨_, _, _, _, rfl, hdata, hcapture, hsome ▸ hplayback⟩
    · next hacts =>
        rw [if_neg hacts] at hlossless
        have hscene : (s.scene p).Parallel Related ⟨p', s.link, data⟩ := ⟨halike, rfl, hdata⟩
        have hback := hscene.rewind hkept n hlossless
        refine ⟨_, _, _, dumps?, ?_, hback.data, hcapture, .some hback.playback⟩
        simp only [hback.link_eq]
        rfl

/-! ### Both sides -/

omit [Canceller κ] in
/-- An inspection tells the same of two parallel sessions. First the playback
side and then the capture side is asked, as in `Session.inspect`. -/
theorem Parallel.inspect (h : s.Parallel Related horizon t) (asked : Sides) :
    (t.inspect asked).1 = (s.inspect asked).1
      ∧ (s.inspect asked).2.Parallel Related horizon (t.inspect asked).2 := by
  obtain ⟨hanswer, hafter⟩ := h.playbackTiming
  obtain ⟨capture, playback⟩ := asked
  unfold Session.inspect
  cases playback with
  | false =>
      cases capture with
      | false => exact ⟨rfl, h⟩
      | true =>
          obtain ⟨hanswer', hafter'⟩ := h.captureTiming
          simp only [Bool.false_eq_true, if_false, if_true, hanswer']
          exact ⟨trivial, hafter'⟩
  | true =>
      cases capture with
      | false =>
          simp only [Bool.false_eq_true, if_false, if_true, hanswer]
          exact ⟨trivial, hafter⟩
      | true =>
          obtain ⟨hanswer', hafter'⟩ := hafter.captureTiming
          simp only [if_true, hanswer, hanswer']
          exact ⟨trivial, hafter'⟩

/-- Whatever happens to both sessions but a capture tick, they stay `Parallel`
and leave the same trace. `hkept` says that operations on the mailboxes keep the
relation, and `hlossless` that messages may be lost in it or none is. -/
theorem Parallel.perform (hkept : Mailbox.KeptBy Related mayLose)
    (h : s.Parallel Related horizon t) {operation : Operation}
    (hpush : ∀ block, operation ≠ .push block)
    (hlossless : mayLose ∨ Lossless (t.journal operation)) :
    (t.perform operation).1 = (s.perform operation).1
      ∧ (s.perform operation).2.Parallel Related horizon (t.perform operation).2 := by
  cases operation with
  | push block => exact absurd rfl (hpush block)
  | render bytes => exact h.render hkept bytes hlossless
  | rewindPlayback bytes => exact ⟨rfl, h.rewindPlayback hkept bytes hlossless⟩
  | rewindCapture bytes => exact h.rewindCapture bytes
  | correct usec => exact ⟨rfl, h.correct usec⟩
  | postCorrection usec =>
      exact ⟨h.offered_eq usec, (leavesSides_postCorrection usec).parallel h⟩
  | reportDevice direction running =>
      exact ⟨rfl, (leavesSides_reportDevice direction running).parallel h⟩
  | requestResync => exact ⟨rfl, leavesSides_requestResync.parallel h⟩
  | startCheck => exact ⟨h.checked_eq.1, leavesSides_startCheck.parallel h⟩
  | continueCheck => exact ⟨h.checked_eq.2, leavesSides_continueCheck.parallel h⟩
  | inspect asked => exact h.inspect asked
  | shutdown => exact ⟨rfl, leavesSides_shutdown.parallel h⟩
  | dropControl => exact ⟨rfl, leavesSides_dropControl.parallel h⟩
  | dropCapture => exact h.dropCapture hkept
  | dropPlayback => exact ⟨rfl, h.dropPlayback⟩
  | advanceClock usec =>
      have hadvance : LeavesSides fun s : Session κ υ => s.advanceClock usec :=
        fun _ _ _ _ _ => rfl
      exact ⟨rfl, hadvance.parallel h⟩
  | scheduleRequests readings =>
      exact ⟨rfl, (leavesSides_scheduleRequests readings).parallel h⟩
  | setLatency direction latency =>
      exact ⟨rfl, (leavesSides_setLatency direction latency).parallel h⟩

/-- So it is with one thing after another, by induction on the operations with
`Parallel.perform`. -/
theorem Parallel.run (hkept : Mailbox.KeptBy Related mayLose) (h : s.Parallel Related horizon t)
    {operations : List Operation} (hpush : ∀ block, .push block ∉ operations)
    (hlossless : mayLose ∨ Lossless (t.journalOf operations)) :
    (s.run operations).2.Parallel Related horizon (t.run operations).2 := by
  induction operations generalizing s t with
  | nil => exact h
  | cons operation rest ih =>
      obtain ⟨-, hnext⟩ := h.perform hkept
        (fun block heq => hpush block (heq ▸ List.mem_cons_self))
        (hlossless.imp_right fun hall => (lossless_append.mp hall).1)
      exact ih hnext (fun block hmem => hpush block (List.mem_cons_of_mem _ hmem))
        (hlossless.imp_right fun hall => (lossless_append.mp hall).2)

/-! ### A capture tick -/

omit [Producer υ] in
/-- All that a capture tick of a linked side does: it handles the messages, goes
back to work, takes the block in and works off what it can. Told with
`Session.attend`, so that a statement may compare two sessions after their
messages. -/
theorem push_of_linked {c : Capture κ} (hc : s.capture? = some c) (hlinked : s.link.linked = true)
    (block : Block) :
    let woken := (s.attend c).1.resume (s.attend c).2
    let worked := (woken.1.accept block).pairing.drive
    s.push block
      = (worked.1,
        { s with
          captureControl := (s.captureControl.drain s.drainLimit).2
          data := (s.data.drain s.drainLimit).2
          drift := s.drift.hearCapture (s.drainReplies c)
          capture? := some { woken.1.accept block with pairing := worked.2 }
          link := woken.2.count fun counters => worked.1.foldl Counters.record counters
          dumps? := s.dumps?.map fun dumps => worked.1.foldl Dumps.record dumps }) := by
  simp only [push, hc, hlinked, Bool.not_true, Bool.false_eq_true, if_false]
  rfl

/-- In a capture tick in which the messages come to the same (`hattend`) and
none is left over that differs, the same becomes of the captured audio. The
horizon rises to the history that is kept behind it. -/
theorem Parallel.push (h : s.Parallel Related horizon t) {c c' : Capture κ}
    (hc : s.capture? = some c) (hc' : t.capture? = some c') (hlinked : s.link.linked = true)
    (hattend : (s.attend c).1.Alike horizon (t.attend c').1)
    (hlink : (t.attend c').2 = (s.attend c).2)
    (hreplies : t.drainReplies c' = s.drainReplies c)
    (hdrain : (t.data.drain t.drainLimit).2 = (s.data.drain s.drainLimit).2) {base : Nat}
    (hsounds : (s.attend c).1.Sounds base Word.maxSigned)
    (hread : horizon ≤ (s.attend c).1.pairing.played.readHead) (block : Block) :
    List.Forall₂ Event.Same (s.push block).1 (t.push block).1
      ∧ ∃ last, (s.push block).2.capture? = some last
        ∧ horizon ≤ last.pairing.played.readHead
        ∧ (s.push block).2.Parallel Eq (max horizon last.pairing.played.historyFloor)
            (t.push block).2 := by
  obtain ⟨data, capture?, playback?, dumps?, rfl, -, -, hplayback⟩ := h
  obtain ⟨hwoken, hlink'⟩ := hattend.resume (s.attend c).2
  have haccepted := hwoken.accept block
  -- Neither going back to work nor the captured audio touches the playback.
  have hplayed : (((s.attend c).1.resume (s.attend c).2).1.accept block).pairing.played
      = (s.attend c).1.pairing.played := by
    rw [Capture.played_accept, ((s.attend c).1.resume_cases (s.attend c).2).1]
  obtain ⟨pairing, hsame, hpairing⟩ := haccepted
  have hsame' := congrArg Capture.pairing hsame
  obtain ⟨hevents, hlast, hahead⟩ := hpairing.drive (hplayed ▸ hsounds.played)
    (hplayed ▸ hsounds.written_le) (hplayed ▸ hread)
  rw [push_of_linked hc hlinked, push_of_linked hc' hlinked]
  simp only [hlink, hlink', hreplies, hsame, Event.foldl_record_eq hevents, hdrain]
  exact ⟨hevents, _, rfl, hahead, _, _, _, _, rfl, rfl, .some ⟨_, rfl, hlast⟩, hplayback⟩

end Session

end EchoAlign
