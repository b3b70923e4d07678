import EchoAlign.Proofs.Session.Sides

/-!
# `EchoAlign.Proofs.Session.Steps`: what operations are made of

An operation does several things in turn: the capture side, say, handles
one message after another and then works off one block after another.
`Session.Step` lists the single things, each with its journal, and
`steps_perform` cuts every operation into them. What each step preserves
is preserved by every run.

`Step` is about sessions to which only certain operations happen. The
steps that come from an operation of their own say so, and with it what
is `allowed`.
-/

set_option autoImplicit false

namespace EchoAlign

/-- Whether an event is an answer to the control side, and not about audio:
`offered`, `checked` or `inspected`. -/
def Event.isAnswer : Event → Bool
  | .offered _ => true
  | .checked _ => true
  | .inspected _ _ => true
  | _ => false

namespace Session

variable {κ υ : Type} [Canceller κ] [Producer υ]

/-- What the playback side of a session acts on: the side itself, the link and
the `data` mailbox. -/
def scene (s : Session κ υ) (playback : Playback υ) : PlaybackScene υ := ⟨playback, s.link, s.data⟩

/-- The session after its playback side has acted, with the parts of the `scene`
put back. -/
def withScene (s : Session κ υ) (scene : PlaybackScene υ) : Session κ υ :=
  { s with playback? := some scene.playback, link := scene.link, data := scene.data }

/-- One thing that a session does while operations happen to it, of which
all are `allowed`. -/
inductive Step (allowed : Operation → Prop) :
    Session κ υ → List Entry → Session κ υ → Prop where
  /-- A resync is asked for. -/
  | request (s : Session κ υ) :
      Step allowed s [.requested] { s with link := s.link.requestResync }
  /-- The clock is read. -/
  | read (s : Session κ υ) :
      Step allowed s s.link.readEntries { s with link := s.link.readClock.2 }
  /-- The world outside changes. -/
  | world (s : Session κ υ) (clock : Clock) (captureLatency playbackLatency : DeviceLatency) :
      Step allowed s []
        { s with link := { s.link with clock, captureLatency, playbackLatency } }
  /-- The session ends. -/
  | unlink (s : Session κ υ) (ha : allowed .shutdown ∨ allowed .dropControl) :
      Step allowed s [] { s with link := { s.link with linked := false } }
  /-- The control side goes away. -/
  | leave (s : Session κ υ) (ha : allowed .dropControl) :
      Step allowed s [] { s with controlled := false }
  /-- A drift check goes on, or hears an answer. -/
  | checking (s : Session κ υ) (drift : DriftController) : Step allowed s [] { s with drift }
  /-- The control side gets an answer. -/
  | answer (s : Session κ υ) (event : Event) (he : event.isAnswer = true) :
      Step allowed s [.event event] s
  /-- The capture device changes its state. -/
  | reportCapture (s : Session κ υ) (running : Bool) (ha : allowed (.reportDevice .input running))
      (hnew : s.link.captureActive ≠ running) :
      Step allowed s []
        (({ s with link := { s.link with captureActive := running } }).postCapture
          (.device (stateOf running))).2
  /-- The playback device changes its state. -/
  | reportPlayback (s : Session κ υ) (running : Bool)
      (ha : allowed (.reportDevice .output running)) (hnew : s.link.playbackActive ≠ running) :
      Step allowed s []
        (({ s with link := { s.link with playbackActive := running } }).postPlayback
          (.device (stateOf running))).2
  /-- A message of the control side is posted, and counted if it is
  lost. -/
  | postCapture (s : Session κ υ) (message : CaptureMessage) (hm : message.isControl = true) :
      Step allowed s [] (s.postCapture message).2
  /-- A drift check asks the capture side, or corrects it. -/
  | askCapture (s : Session κ υ) (message : CaptureMessage) (hm : message.isControl = true)
      (ha : allowed .startCheck ∨ allowed .continueCheck) :
      Step allowed s [] { s with captureControl := (s.captureControl.post message).2 }
  /-- A drift check asks the playback side. -/
  | askPlayback (s : Session κ υ) (ticket : Nat) (ha : allowed .continueCheck) :
      Step allowed s []
        { s with playbackControl := (s.playbackControl.post (.timingRequest ticket)).2 }
  /-- Mailboxes are looked into. -/
  | repack (s : Session κ υ) {control data : Mailbox CaptureMessage}
      {playback : Mailbox PlaybackMessage} (hcontrol : s.captureControl.Takes [] control)
      (hdata : s.data.Takes [] data) (hplayback : s.playbackControl.Takes [] playback) :
      Step allowed s []
        { s with captureControl := control, data := data, playbackControl := playback }
  /-- The capture side handles a message of the control side. -/
  | handleControl (s : Session κ υ) {c : Capture κ} (message : CaptureMessage)
      {rest : Mailbox CaptureMessage} (hc : s.capture? = some c)
      (hrest : s.captureControl.Takes [message] rest) :
      Step allowed s (c.handleEntries s.link message)
        { s with
          capture? := some (c.handle s.link message).1
          link := (c.handle s.link message).2
          captureControl := rest }
  /-- The capture side handles a message of the playback side. -/
  | handleData (s : Session κ υ) {c : Capture κ} (message : CaptureMessage)
      {rest : Mailbox CaptureMessage} (hc : s.capture? = some c)
      (hrest : s.data.Takes [message] rest) :
      Step allowed s (c.handleEntries s.link message)
        { s with
          capture? := some (c.handle s.link message).1
          link := (c.handle s.link message).2
          data := rest }
  /-- The playback side handles a message. -/
  | handlePlayback (s : Session κ υ) {p : Playback υ} (message : PlaybackMessage)
      {rest : Mailbox PlaybackMessage} (hp : s.playback? = some p)
      (hrest : s.playbackControl.Takes [message] rest) :
      Step allowed s (Playback.handleEntries s.link message)
        { s with
          playback? := some (p.handle s.link message).1
          link := (p.handle s.link message).2
          playbackControl := rest }
  /-- The capture side goes back to work. -/
  | resume (s : Session κ υ) {c : Capture κ} (hc : s.capture? = some c)
      (hresuming : c.resuming = true) {block : Block} (ha : allowed (.push block)) :
      Step allowed s [.requested]
        { s with
          capture? := some { c with suspended := false, resuming := false }
          link := s.link.requestResync }
  /-- Captured audio arrives. -/
  | accept (s : Session κ υ) {c : Capture κ} (block : Block) (hc : s.capture? = some c)
      (ha : allowed (.push block)) :
      Step allowed s (c.acceptEntries block) { s with capture? := some (c.accept block) }
  /-- A block of captured audio is worked off. -/
  | pair (s : Session κ υ) {c : Capture κ} {event : Event} {pairing : Pairing κ}
      (hc : s.capture? = some c) (hstep : c.pairing.step? = some (event, pairing)) :
      Step allowed s [.event event]
        { s with
          capture? := some { c with pairing }
          link := s.link.count (·.record event)
          dumps? := s.dumps?.map (·.record event) }
  /-- The consumer is going to get bytes again. -/
  | rewindCapture (s : Session κ υ) {c : Capture κ} (n : Nat) (hc : s.capture? = some c)
      (ha : allowed (.rewindCapture n)) :
      Step allowed s [.event (.rewound n)] { s with capture? := some (c.rewind n) }
  /-- The streams are realigned at once. -/
  | correct (s : Session κ υ) {c : Capture κ} (usec : Int) (hc : s.capture? = some c)
      (ha : allowed (.correct usec)) :
      Step allowed s []
        { s with capture? := some (c.correct s.link usec).1, link := (c.correct s.link usec).2 }
  /-- The playback side makes audio. -/
  | play (s : Session κ υ) {p : Playback υ} (n : Nat) (hp : s.playback? = some p)
      (hlinked : s.link.linked = true) (ha : allowed (.render n)) :
      Step allowed s ((s.scene p).playEntries n) (s.withScene ((s.scene p).play n).2)
  /-- The playback side sends timing, if it is asked for. -/
  | sendTiming (s : Session κ υ) {p : Playback υ} (hp : s.playback? = some p) :
      Step allowed s (s.scene p).sendTimingEntries (s.withScene (s.scene p).sendTiming)
  /-- The playback device gives bytes back. -/
  | rewindPlayback (s : Session κ υ) {p : Playback υ} (n : Nat) (hp : s.playback? = some p)
      (ha : allowed (.rewindPlayback n)) :
      Step allowed s ((s.scene p).postEntries (.rewound n))
        (s.withScene ((s.scene p).rewind n))
  /-- The playback device gets silence. -/
  | idle (s : Session κ υ) {p : Playback υ} (n : Nat) (hp : s.playback? = some p)
      (hlinked : s.link.linked = false) (ha : allowed (.render n)) :
      Step allowed s [.event (.rendered (Block.silence n))] s
  /-- The capture side goes away. -/
  | dropCapture (s : Session κ υ) {c : Capture κ} (hc : s.capture? = some c)
      (ha : allowed .dropCapture) :
      Step allowed s [.event .released]
        { s with
          capture? := none
          finished? := some (Canceller.finish c.pairing.canceller)
          data := s.data.close
          captureControl := s.captureControl.close }
  /-- The playback side goes away. -/
  | dropPlayback (s : Session κ υ) {p : Playback υ} (hp : s.playback? = some p)
      (ha : allowed .dropPlayback) :
      Step allowed s [] { s with playback? := none, playbackControl := s.playbackControl.close }

/-- Any number of steps (`Step`), with all that happens in them, in order. -/
inductive Steps (allowed : Operation → Prop) :
    Session κ υ → List Entry → Session κ υ → Prop where
  | refl (s : Session κ υ) : Steps allowed s [] s
  | tail {s t u : Session κ υ} {before entries : List Entry} (h : Steps allowed s before t)
      (hstep : Step allowed t entries u) : Steps allowed s (before ++ entries) u

variable {allowed : Operation → Prop}

/-- What is done while certain operations happen can be done while more may
happen. One case for each constructor of `Step`, as only its conditions on
`allowed` change. -/
theorem Step.mono {more : Operation → Prop}
    (hmore : ∀ operation, allowed operation → more operation) {s t : Session κ υ}
    {entries : List Entry} (h : Step allowed s entries t) : Step more s entries t := by
  cases h with
  | unlink ha => exact .unlink s (ha.imp (hmore _) (hmore _))
  | leave ha => exact .leave s (hmore _ ha)
  | reportCapture running ha hnew => exact .reportCapture s running (hmore _ ha) hnew
  | reportPlayback running ha hnew => exact .reportPlayback s running (hmore _ ha) hnew
  | resume hc hresuming ha => exact .resume s hc hresuming (hmore _ ha)
  | accept block hc ha => exact .accept s block hc (hmore _ ha)
  | rewindCapture n hc ha => exact .rewindCapture s n hc (hmore _ ha)
  | correct usec hc ha => exact .correct s usec hc (hmore _ ha)
  | play n hp hlinked ha => exact .play s n hp hlinked (hmore _ ha)
  | rewindPlayback n hp ha => exact .rewindPlayback s n hp (hmore _ ha)
  | idle n hp hlinked ha => exact .idle s n hp hlinked (hmore _ ha)
  | dropCapture hc ha => exact .dropCapture s hc (hmore _ ha)
  | dropPlayback hp ha => exact .dropPlayback s hp (hmore _ ha)
  | repack hcontrol hdata hplayback => exact .repack s hcontrol hdata hplayback
  | answer event he => exact .answer s event he
  | postCapture message hm => exact .postCapture s message hm
  | askCapture message hm ha => exact .askCapture s message hm (ha.imp (hmore _) (hmore _))
  | handleControl message hc hrest => exact .handleControl s message hc hrest
  | handleData message hc hrest => exact .handleData s message hc hrest
  | handlePlayback message hp hrest => exact .handlePlayback s message hp hrest
  | pair hc hstep => exact .pair s hc hstep
  | sendTiming hp => exact .sendTiming s hp
  | request => exact .request s
  | read => exact .read s
  | world clock captureLatency playbackLatency =>
      exact .world s clock captureLatency playbackLatency
  | checking drift => exact .checking s drift
  | askPlayback ticket ha => exact .askPlayback s ticket (hmore _ ha)

/-- What is done in any number of steps under certain operations (`allowed`) can
be done under `more`. -/
theorem Steps.mono {more : Operation → Prop}
    (hmore : ∀ operation, allowed operation → more operation) {s t : Session κ υ}
    {entries : List Entry} (h : Steps allowed s entries t) : Steps more s entries t := by
  induction h with
  | refl => exact Steps.refl s
  | tail _ hstep ih => exact ih.tail (hstep.mono hmore)

/-- A single `Step` is a number of steps. -/
theorem Step.steps {s t : Session κ υ} {entries : List Entry} (h : Step allowed s entries t) :
    Steps allowed s entries t :=
  (Steps.refl s).tail h

/-- Two stretches of steps in a row make up one: `Steps` is transitive, and the
entries come one behind the other. -/
theorem Steps.trans {s t u : Session κ υ} {first second : List Entry}
    (h : Steps allowed s first t) (h' : Steps allowed t second u) :
    Steps allowed s (first ++ second) u := by
  induction h' with
  | refl =>
      rw [List.append_nil]
      exact h
  | tail _ hstep ih =>
      rw [← List.append_assoc]
      exact ih.tail hstep

/-- What holds at first (`hstart`) and is preserved by every step (`hstep`)
holds after any number of them. The step is told what came before, so that a
`motive` may speak of the whole journal. -/
theorem Steps.induct {motive : Session κ υ → List Entry → Prop} {s t : Session κ υ}
    {entries : List Entry} (h : Steps allowed s entries t) (hstart : motive s [])
    (hstep : ∀ t u before entries, motive t before → Step allowed t entries u →
      motive u (before ++ entries)) : motive t entries := by
  induction h with
  | refl => exact hstart
  | tail _ hlast ih => exact hstep _ _ _ _ ih hlast

/-- An entry comes from the message that the capture side handles, the next one
in its mailbox, or tells of nothing that only handling brings. The other entries
are those of `Entry.event`, `sent`, `lost`, `timed`, `requested` and refusals of
captured audio. -/
theorem Step.mem_cases {s t : Session κ υ} {entries : List Entry} {entry : Entry}
    (h : Step allowed s entries t) (hm : entry ∈ entries) :
    (∃ c message rest, s.capture? = some c ∧ entries = c.handleEntries s.link message
        ∧ (s.captureControl.items = message :: rest ∨ s.data.items = message :: rest))
      ∨ entry = .requested ∨ (∃ event, entry = .event event)
      ∨ (∃ block, entry = .refused .input block)
      ∨ (∃ message, entry = .sent message ∨ entry = .lost message)
      ∨ ∃ epoch timing, entry = .timed epoch timing := by
  cases h with
  | @handleControl c message rest hc hrest =>
      exact Or.inl ⟨c, message, rest.items, hc, rfl, Or.inl hrest.items⟩
  | @handleData c message rest hc hrest =>
      exact Or.inl ⟨c, message, rest.items, hc, rfl, Or.inr hrest.items⟩
  | read => simp [mem_readEntries hm]
  | handlePlayback message hp hrest => simp [Playback.mem_handleEntries hm]
  | accept block hc ha => simp [Capture.mem_appendEntries hm]
  | play n hp hlinked ha =>
      rcases PlaybackScene.mem_playEntries hm with h | ⟨_, h | h | h⟩ <;> simp [h]
  | sendTiming hp =>
      rcases PlaybackScene.mem_sendTimingEntries hm with h | ⟨_, _, h | h | h⟩ <;> simp [h]
  | rewindPlayback n hp ha => rcases PlaybackScene.mem_postEntries hm with h | h <;> simp [h]
  | _ => simp_all

/-- Only a message from a mailbox is `handled`, and it is the next one, of
`captureControl` or of `data`. -/
theorem Step.of_handled {s t : Session κ υ} {entries : List Entry}
    (h : Step allowed s entries t) {message : CaptureMessage} {received : Int}
    (hm : .handled message received ∈ entries) :
    ∃ c, s.capture? = some c ∧ c.received = received
      ∧ ∃ rest, s.captureControl.items = message :: rest ∨ s.data.items = message :: rest := by
  obtain ⟨c, message', rest, hc, rfl, hnext⟩ | h | ⟨_, h⟩ | ⟨_, h⟩ | ⟨_, h | h⟩ | ⟨_, _, h⟩ :=
    h.mem_cases hm
  · rcases Capture.mem_handleEntries hm with h | h | ⟨_, _, h⟩ | ⟨_, _, _, h⟩
    · cases h
      exact ⟨c, hc, rfl, rest, hnext⟩
    all_goals cases h
  all_goals cases h

/-- The control mailbox of the capture side holds nothing that only the playback
side says, that is, no message that `isData`. -/
def ControlOnly (s : Session κ υ) : Prop := ∀ m ∈ s.captureControl.items, m.isData = false

omit [Canceller κ] [Producer υ] in
/-- A post of something that the playback side does not say (`isData`) keeps the
mailbox so. -/
theorem ControlOnly.post {s : Session κ υ} (h : s.ControlOnly) {message : CaptureMessage}
    (hmessage : message.isData = false) :
    ∀ m ∈ (s.captureControl.post message).2.items, m.isData = false := by
  intro m hm
  rcases Mailbox.mem_items_post hm with hm | rfl
  · exact h m hm
  · exact hmessage

/-- No step changes that, as all posts to the control mailbox are of the control
side. By cases on `Step`: the reports on the device, the corrections and the
questions of a drift check are not `isData`. -/
theorem ControlOnly.step {s t : Session κ υ} {entries : List Entry} (h : s.ControlOnly)
    (hstep : Step allowed s entries t) : t.ControlOnly := by
  cases hstep with
  | reportCapture running ha hnew =>
      rw [postCapture_eq]
      exact h.post rfl
  | reportPlayback running ha hnew =>
      rw [postPlayback_eq]
      exact h
  | postCapture message hm =>
      rw [postCapture_eq]
      exact h.post (CaptureMessage.isData_of_isControl hm)
  | askCapture message hm ha => exact h.post (CaptureMessage.isData_of_isControl hm)
  | repack hcontrol hdata hplayback =>
      have hitems := hcontrol.items
      rw [List.nil_append] at hitems
      exact fun m hm => h m (hitems ▸ hm)
  | handleControl message hc hrest =>
      intro m hm
      exact h m (by rw [hrest.items]; exact List.mem_cons_of_mem _ hm)
  | dropCapture hc ha => exact fun m hm => absurd hm List.not_mem_nil
  | _ => exact h

/-! ### Messages are handled one after another -/

/-- Handling the messages of the control side is a number of steps, one for each
message. By induction on the messages, with `Step.handleControl` for each. -/
theorem steps_handleControl {s : Session κ υ} {c : Capture κ} {messages : List CaptureMessage}
    {rest : Mailbox CaptureMessage} (hc : s.capture? = some c)
    (hrest : s.captureControl.Takes messages rest) :
    Steps allowed s (c.handleAllEntries s.link messages)
      { s with
        capture? := some (c.handleAll s.link messages).1
        link := (c.handleAll s.link messages).2
        captureControl := rest } := by
  induction messages generalizing s c with
  | nil =>
      have h : Step allowed s [] _ := Step.repack s hrest (Mailbox.Takes.refl _)
        (Mailbox.Takes.refl _)
      rw [show c.handleAll s.link [] = (c, s.link) from rfl, ← hc]
      exact h.steps
  | cons message messages ih =>
      obtain ⟨between, hone, hmany⟩ := hrest.cons
      exact (Step.handleControl s message hc hone).steps.trans (ih rfl hmany)

/-- Handling the messages of the playback side is a number of steps, one for
each message. By induction on the messages, with `Step.handleData` for each. -/
theorem steps_handleData {s : Session κ υ} {c : Capture κ} {messages : List CaptureMessage}
    {rest : Mailbox CaptureMessage} (hc : s.capture? = some c)
    (hrest : s.data.Takes messages rest) :
    Steps allowed s (c.handleAllEntries s.link messages)
      { s with
        capture? := some (c.handleAll s.link messages).1
        link := (c.handleAll s.link messages).2
        data := rest } := by
  induction messages generalizing s c with
  | nil =>
      have h : Step allowed s [] _ := Step.repack s (Mailbox.Takes.refl _) hrest
        (Mailbox.Takes.refl _)
      rw [show c.handleAll s.link [] = (c, s.link) from rfl, ← hc]
      exact h.steps
  | cons message messages ih =>
      obtain ⟨between, hone, hmany⟩ := hrest.cons
      exact (Step.handleData s message hc hone).steps.trans (ih rfl hmany)

/-- Handling the messages for the playback side is a number of steps, one for
each message. By induction on the messages, with `Step.handlePlayback` for each. -/
theorem steps_handlePlayback {s : Session κ υ} {p : Playback υ} {messages : List PlaybackMessage}
    {rest : Mailbox PlaybackMessage} (hp : s.playback? = some p)
    (hrest : s.playbackControl.Takes messages rest) :
    Steps allowed s (p.handleAllEntries s.link messages)
      { s with
        playback? := some (p.handleAll s.link messages).1
        link := (p.handleAll s.link messages).2
        playbackControl := rest } := by
  induction messages generalizing s p with
  | nil =>
      have h : Step allowed s [] _ := Step.repack s (Mailbox.Takes.refl _) (Mailbox.Takes.refl _)
        hrest
      rw [show p.handleAll s.link [] = (p, s.link) from rfl, ← hp]
      exact h.steps
  | cons message messages ih =>
      obtain ⟨between, hone, hmany⟩ := hrest.cons
      exact (Step.handlePlayback s message hp hone).steps.trans (ih rfl hmany)

/-! ### A capture tick -/

/-- Going back to work with `resume` is one step, or none. -/
theorem steps_resume {s : Session κ υ} {c : Capture κ} (hc : s.capture? = some c) {block : Block}
    (ha : allowed (.push block)) :
    Steps allowed s c.resumeEntries
      { s with capture? := some (c.resume s.link).1, link := (c.resume s.link).2 } := by
  unfold Capture.resumeEntries Capture.resume
  cases hresuming : c.resuming with
  | true => exact (Step.resume s hc hresuming ha).steps
  | false =>
      simp only [Bool.false_eq_true, if_false, ← hc]
      exact Steps.refl s

/-- Handling all messages of a tick and going back to work (`drainCapture`) is a
number of steps. -/
theorem steps_drainCapture {s : Session κ υ} {c : Capture κ} (hc : s.capture? = some c)
    {block : Block} (ha : allowed (.push block)) :
    Steps allowed s (s.drainCaptureEntries c)
      { (s.drainCapture c).2 with capture? := some (s.drainCapture c).1 } := by
  -- The answers are heard as soon as they are given.
  have hheard : Steps allowed s _ _ :=
    (Step.checking s (s.drift.hearCapture (s.drainReplies c))).steps
  have hcontrol := hheard.trans (steps_handleControl hc
    (s.captureControl.takes_drain s.drainLimit))
  have hdata := hcontrol.trans (steps_handleData rfl (s.data.takes_drain s.drainLimit))
  exact hdata.trans (steps_resume rfl ha)

/-- Messages come first, then the new audio, with `accept`. -/
theorem steps_takeIn {s : Session κ υ} {c : Capture κ} (hc : s.capture? = some c) (block : Block)
    (ha : allowed (.push block)) :
    Steps allowed s (s.drainCaptureEntries c ++ (s.drainCapture c).1.acceptEntries block)
      { (s.drainCapture c).2 with capture? := some ((s.drainCapture c).1.accept block) } :=
  (steps_drainCapture hc ha).trans
    (Step.accept { (s.drainCapture c).2 with capture? := some (s.drainCapture c).1 } block rfl
      ha).steps

/-- Blocks are worked off one after another, with one step for each of the
`driveFrom`. -/
theorem steps_drive {s : Session κ υ} {c : Capture κ} (hc : s.capture? = some c) (steps : Nat)
    (before : List Event) :
    ∃ events, (c.pairing.driveFrom steps before).1 = before.reverse ++ events
      ∧ Steps allowed s (events.map .event)
          { s with
            capture? := some { c with pairing := (c.pairing.driveFrom steps before).2 }
            link := s.link.count fun counters => events.foldl Counters.record counters
            dumps? := s.dumps?.map fun dumps => events.foldl Dumps.record dumps } := by
  -- Without a block to work off, the session stays as it is.
  have hnothing : Steps allowed s []
      { s with
        capture? := some c
        link := s.link.count fun counters => counters
        dumps? := s.dumps?.map fun dumps => dumps } := by
    rw [Option.map_id', ← hc]
    exact Steps.refl s
  induction steps generalizing s c before with
  | zero => exact ⟨[], (List.append_nil _).symm, hnothing⟩
  | succ steps ih =>
      unfold Pairing.driveFrom
      cases hstep : c.pairing.step? with
      | none => exact ⟨[], (List.append_nil _).symm, hnothing⟩
      | some result =>
          obtain ⟨event, pairing⟩ := result
          have hfirst : Step allowed s _ _ := Step.pair s hc hstep
          obtain ⟨events, hevents, hrest⟩ :=
            ih (s := { s with
              capture? := some { c with pairing }
              link := s.link.count (·.record event)
              dumps? := s.dumps?.map (·.record event) }) (c := { c with pairing }) rfl
              (event :: before) (by
                rw [Option.map_id']
                exact Steps.refl _)
          refine ⟨event :: events, ?_, ?_⟩
          · simp only [hevents, List.reverse_cons, List.append_assoc]
            rfl
          · have h := hfirst.steps.trans hrest
            rw [Option.map_map] at h
            exact h

/-- New audio is taken in and worked off. The block is accepted in one step, and
`steps_drive` does the rest. -/
theorem steps_process {s : Session κ υ} {c : Capture κ} (hc : s.capture? = some c) (block : Block)
    (ha : allowed (.push block)) :
    Steps allowed s (c.acceptEntries block ++ ((c.accept block).process s.link).1.map .event)
      (({ s with
          capture? := some ((c.accept block).process s.link).2.1
          link := ((c.accept block).process s.link).2.2 }).record
        ((c.accept block).process s.link).1) := by
  obtain ⟨events, hevents, hdrive⟩ := steps_drive
    (s := { s with capture? := some (c.accept block) }) rfl
    (c.accept block).pairing.captured.length []
  have h := (Step.accept s block hc ha).steps.trans hdrive
  rw [List.reverse_nil, List.nil_append] at hevents
  rw [← hevents] at h
  exact h

/-- A capture tick is a number of steps: `steps_drainCapture` and then
`steps_process`. -/
theorem steps_push (s : Session κ υ) (block : Block) (ha : allowed (.push block)) :
    Steps allowed s (s.pushEntries block) (s.push block).2 := by
  unfold pushEntries push
  cases hc : s.capture? with
  | none => exact Steps.refl s
  | some c =>
      cases hlinked : s.link.linked with
      | false => exact Steps.refl s
      | true =>
          have hdrain : Steps allowed s _ _ := steps_drainCapture hc ha
          have h := hdrain.trans (steps_process rfl block ha)
          rw [← List.append_assoc] at h
          exact h

/-! ### A playback tick -/

/-- The messages of a playback tick (`drainPlayback`) are a number of steps. -/
theorem steps_drainPlayback (s : Session κ υ) {p : Playback υ} (hp : s.playback? = some p) :
    Steps allowed s (s.drainPlaybackEntries p) (s.drainPlayback p) := by
  have hheard : Steps allowed s _ _ := (Step.checking s
    (s.drift.hearPlayback (p.replies s.link (s.playbackControl.drain s.drainLimit).1))).steps
  exact hheard.trans (steps_handlePlayback hp (s.playbackControl.takes_drain s.drainLimit))

/-- A playback tick is a number of steps: its messages, the audio, and the
timing. Where the endpoints are not `linked` it is one step that only tells of
silence. -/
theorem steps_render (s : Session κ υ) (n : Nat) (ha : allowed (.render n)) :
    Steps allowed s (s.renderEntries n) (s.render n).2 := by
  unfold renderEntries render
  cases hp : s.playback? with
  | none => exact Steps.refl s
  | some p =>
      cases hlinked : s.link.linked with
      | false => exact (Step.idle s n hp hlinked ha).steps
      | true =>
          -- Timing counts the block that was just sent.
          have hplay := (Step.play s n hp hlinked ha).steps
          have htiming := hplay.trans (Step.sendTiming (s.withScene ((s.scene p).play n).2)
            (p := ((s.scene p).play n).2.playback) rfl).steps
          exact htiming.trans (steps_drainPlayback (s.withScene ((s.scene p).render n).2) rfl)

/-- A rewind of playback is one step, or none where nothing is to be taken back
(`rewindPlaybackEntries`). -/
theorem steps_rewindPlayback (s : Session κ υ) (n : Nat) (ha : allowed (.rewindPlayback n)) :
    Steps allowed s (s.rewindPlaybackEntries n) (s.rewindPlayback n) := by
  unfold rewindPlaybackEntries rewindPlayback
  cases hp : s.playback? with
  | none => exact Steps.refl s
  | some p =>
      simp only
      split
      · exact Steps.refl s
      · exact (Step.rewindPlayback s n hp ha).steps

/-! ### The control side -/

/-- A report on a device is a number of steps: the request, and the message. For
the capture device it is `Step.reportCapture`, for the other one the same on the
side of playback. -/
theorem steps_reportDevice (s : Session κ υ) (direction : Direction) (running : Bool)
    (ha : allowed (.reportDevice direction running)) :
    Steps allowed s (s.reportDeviceEntries direction running)
      (s.reportDevice direction running) := by
  -- A start asks for a resync behind the message.
  have hrequest : ∀ t : Session κ υ, Steps allowed t (if !running then [] else [.requested])
      (if running then { t with link := t.link.requestResync } else t) := by
    intro t
    cases running with
    | true => exact (Step.request t).steps
    | false => exact Steps.refl t
  unfold reportDeviceEntries reportDevice
  by_cases hcontrolled : (!s.controlled) = true
  · rw [if_pos hcontrolled, if_pos hcontrolled]
    exact Steps.refl s
  · rw [if_neg hcontrolled, if_neg hcontrolled]
    cases direction with
    | input =>
        by_cases hknown : s.link.captureActive = running
        · simp only [hknown, beq_self_eq_true, Bool.true_or, if_true]
          exact Steps.refl s
        · simp only [beq_false_of_ne hknown, Bool.false_or, Bool.false_eq_true, if_false]
          exact (Step.reportCapture s running ha hknown).steps.trans (hrequest _)
    | output =>
        by_cases hknown : s.link.playbackActive = running
        · simp only [hknown, beq_self_eq_true, Bool.true_or, if_true]
          exact Steps.refl s
        · simp only [beq_false_of_ne hknown, Bool.false_or, Bool.false_eq_true, if_false]
          exact (Step.reportPlayback s running ha hknown).steps.trans (hrequest _)

/-- A step of a drift check posts what it has to say (`hposts`), and tells its
outcome behind it. -/
theorem steps_withCheck (s : Session κ υ)
    (after : Option DriftOutcome × DriftController × ControlPosts)
    (hposts : Steps allowed s []
      { s with captureControl := after.2.2.toCapture, playbackControl := after.2.2.toPlayback }) :
    Steps allowed s ((s.withCheck after).1.map .event) (s.withCheck after).2 := by
  obtain ⟨outcome?, drift, posts⟩ := after
  have hchecked := hposts.trans (Step.checking _ drift).steps
  cases outcome? with
  | none => exact hchecked
  | some outcome => exact hchecked.trans (Step.answer _ (.checked outcome) rfl).steps

/-- The start of a drift check is a number of steps: it is inactive, or it posts
a question to `captureControl` and has an outcome where this is lost. -/
theorem steps_startCheck (s : Session κ υ) (ha : allowed .startCheck) :
    Steps allowed s (s.startCheck.1.map .event) s.startCheck.2 := by
  unfold startCheck
  split
  · exact Steps.refl s
  · split
    · exact (Step.answer s (.checked .inactive) rfl).steps
    · refine s.steps_withCheck _ ?_
      rw [DriftController.posts_start]
      exact (Step.askCapture s (.timingRequest s.drift.nextTicket) rfl (Or.inl ha)).steps

/-- Going on with a drift check is a number of steps: a post to either side, and
an outcome if the check has come to an end (`steps_withCheck`). -/
theorem steps_continueCheck (s : Session κ υ) (ha : allowed .continueCheck) :
    Steps allowed s (s.continueCheck.1.map .event) s.continueCheck.2 := by
  unfold continueCheck
  split
  · exact Steps.refl s
  · refine s.steps_withCheck _ ?_
    rcases s.drift.posts_proceed s.posts with hposts | hposts | ⟨usec, hposts⟩
    · rw [hposts]
      exact Steps.refl s
    · rw [hposts]
      exact (Step.askPlayback s (s.drift.nextTicket + 1) ha).steps
    · rw [hposts]
      exact (Step.askCapture s (.correct usec) rfl (Or.inr ha)).steps

/-! ### The world outside -/

/-- An inspection is a number of steps, one for each side that is `asked`. The
playback side is asked first, and the answers are told behind both readings. -/
theorem steps_inspect (s : Session κ υ) (asked : Sides) :
    Steps allowed s (s.inspectEntries asked ++ (s.inspect asked).1.map .event)
      (s.inspect asked).2 := by
  -- A side that is there reads the clock to answer.
  have hplayback : ∀ s : Session κ υ,
      Steps allowed s s.playbackTimingEntries s.playbackTiming.2 := by
    intro s
    unfold playbackTiming
    split
    · next hp =>
        rw [playbackTimingEntries, hp]
        exact Steps.refl s
    · next hp =>
        have hentries : s.playbackTimingEntries = s.link.readEntries := by
          rw [playbackTimingEntries, hp]
          rfl
        rw [hentries]
        exact (Step.read s).steps
  have hcapture : ∀ s : Session κ υ,
      Steps allowed s s.captureTimingEntries s.captureTiming.2 := by
    intro s
    unfold captureTiming
    split
    · next hc =>
        rw [captureTimingEntries, hc]
        exact Steps.refl s
    · next hc =>
        have hentries : s.captureTimingEntries = s.link.readEntries := by
          rw [captureTimingEntries, hc]
          rfl
        rw [hentries]
        exact (Step.read s).steps
  obtain ⟨capture, playback⟩ := asked
  have hanswer : ∀ (t : Session κ υ) playback? capture?,
      Steps allowed t [.event (.inspected playback? capture?)] t :=
    fun t playback? capture? => (Step.answer t (.inspected playback? capture?) rfl).steps
  unfold inspectEntries inspect
  cases playback with
  | false =>
      cases capture with
      | false => exact hanswer s _ _
      | true => exact (hcapture s).trans (hanswer _ _ _)
  | true =>
      cases capture with
      | false =>
          simp only [if_true, Bool.false_eq_true, if_false, List.append_nil]
          exact (hplayback s).trans (hanswer _ _ _)
      | true => exact ((hplayback s).trans (hcapture _)).trans (hanswer _ _ _)

/-- An operation is made of steps: from a state by `Session.journal` to the one
after it, one case for each `Operation`. -/
theorem steps_perform (s : Session κ υ) {operation : Operation} (ha : allowed operation) :
    Steps allowed s (s.journal operation) (s.perform operation).2 := by
  cases operation with
  | push block => exact s.steps_push block ha
  | render bytes => exact s.steps_render bytes ha
  | rewindPlayback bytes => exact s.steps_rewindPlayback bytes ha
  | reportDevice direction running => exact s.steps_reportDevice direction running ha
  | startCheck => exact s.steps_startCheck ha
  | continueCheck => exact s.steps_continueCheck ha
  | inspect asked => exact s.steps_inspect asked
  | rewindCapture bytes =>
      show Steps allowed s ((s.rewindCapture bytes).1.map .event) (s.rewindCapture bytes).2
      unfold rewindCapture
      cases hc : s.capture? with
      | none => exact Steps.refl s
      | some c =>
          cases hlinked : s.link.linked with
          | false => exact Steps.refl s
          | true => exact (Step.rewindCapture s bytes hc ha).steps
  | correct usec =>
      show Steps allowed s [] (s.correct usec)
      unfold correct
      cases hc : s.capture? with
      | none => exact Steps.refl s
      | some c => exact (Step.correct s usec hc ha).steps
  | postCorrection usec =>
      show Steps allowed s ((s.postCorrection usec).1.map .event) (s.postCorrection usec).2
      unfold postCorrection
      cases hcontrolled : s.controlled with
      | false => exact Steps.refl s
      | true =>
          exact (Step.postCapture s (.correct usec) rfl).steps.trans
            (Step.answer _ (.offered _) rfl).steps
  | requestResync =>
      show Steps allowed s s.requestResyncEntries s.requestResync
      unfold requestResyncEntries requestResync
      split
      · exact (Step.request s).steps
      · exact Steps.refl s
  | shutdown =>
      show Steps allowed s [] s.shutdown
      unfold shutdown
      split
      · exact (Step.unlink s (Or.inl ha)).steps
      · exact Steps.refl s
  | dropControl =>
      -- It is a shutdown, after which nobody asks for a resync.
      show Steps allowed s [] s.dropControl
      have hshutdown : Steps allowed s [] s.shutdown := by
        unfold shutdown
        split
        · exact (Step.unlink s (Or.inr ha)).steps
        · exact Steps.refl s
      exact (hshutdown.trans (Step.leave _ ha).steps).trans
        (Step.world _ { s.shutdown.link.clock with requests := [] } s.shutdown.link.captureLatency
          s.shutdown.link.playbackLatency).steps
  | dropCapture =>
      show Steps allowed s (s.dropCapture.1.map .event) s.dropCapture.2
      unfold dropCapture
      cases hc : s.capture? with
      | none => exact Steps.refl s
      | some c => exact (Step.dropCapture s hc ha).steps
  | dropPlayback =>
      show Steps allowed s [] s.dropPlayback
      unfold dropPlayback
      cases hp : s.playback? with
      | none => exact Steps.refl s
      | some p => exact (Step.dropPlayback s hp ha).steps
  | advanceClock usec => exact (Step.world s _ _ _).steps
  | scheduleRequests readings =>
      show Steps allowed s [] (s.scheduleRequests readings)
      unfold scheduleRequests
      split
      · exact (Step.world s _ _ _).steps
      · exact Steps.refl s
  | setLatency direction latency =>
      cases direction with
      | input => exact (Step.world s _ _ _).steps
      | output => exact (Step.world s _ _ _).steps

/-- A run is made of steps, by induction on the operations with `steps_perform`.
What every `Step` keeps is kept by a run. -/
theorem steps_run (s : Session κ υ) {operations : List Operation}
    (ha : ∀ operation ∈ operations, allowed operation) :
    Steps allowed s (s.journalOf operations) (s.run operations).2 := by
  induction operations generalizing s with
  | nil => exact Steps.refl s
  | cons operation rest ih =>
      obtain ⟨hfirst, hrest⟩ := List.forall_mem_cons.mp ha
      exact (s.steps_perform hfirst).trans (ih _ hrest)

/-- Whatever the operations are, a run is made of steps: `steps_run` without a
condition on them. -/
theorem steps_any (s : Session κ υ) (operations : List Operation) :
    Steps (fun _ => True) s (s.journalOf operations) (s.run operations).2 :=
  s.steps_run fun _ _ => trivial

end Session

end EchoAlign
