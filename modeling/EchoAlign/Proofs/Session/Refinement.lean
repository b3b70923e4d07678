import EchoAlign.Proofs.Session.Plain
import EchoAlign.Proofs.Session.Sides

/-!
# `EchoAlign.Proofs.Session.Refinement`: a capture side is two plain lists

`Stimulus` names what can reach the capture side: captured blocks, any
messages in either of its mailboxes, realigning at once, and whatever the
other sides do to the link. `Session.respond` lets one of them reach the
capture side of a session, and `PlainSession.respond` lets it reach a
capture side that works on two lists of bytes.

* `capture_refines_lists`: whatever reaches them, and in whatever order,
  both do the same to the audio, give the same answers, and leave the
  link with the same counters.
* `Mirrors.respond`: one stimulus keeps them side by side.
-/

set_option autoImplicit false

namespace EchoAlign

/-- One thing that reaches the capture side: a block of the device (`push`), or
a message in one of its two mailboxes (`data`, `control`). -/
inductive Stimulus where
  /-- The device delivers a block. -/
  | push (block : Block)
  /-- A message is posted to the data mailbox. -/
  | data (message : CaptureMessage)
  /-- A message is posted to the control mailbox. -/
  | control (message : CaptureMessage)
  /-- The streams are realigned at once. -/
  | correct (usec : Int)
  /-- The other sides or the world change the link. -/
  | elsewhere (change : Link → Link)

/-- A capture side on plain lists (`PlainCapture`), with the mailboxes and the
link that it shares. -/
structure PlainSession (κ : Type) where
  drainLimit : Nat
  link : Link
  data : Mailbox CaptureMessage
  captureControl : Mailbox CaptureMessage
  capture : PlainCapture κ

namespace PlainSession

variable {κ : Type} [Canceller κ]

/-- A new capture side with two empty lists, as `Session.create` makes one with
two tapes. -/
def create (spec : StreamSpec) (capacity : Nat) (canceller : κ) (link : Link)
    (hpos : 0 < spec.bytesOfFrames (Canceller.blockFrames canceller)) : PlainSession κ :=
  { drainLimit := capacity
    link
    data := Mailbox.create capacity
    captureControl := Mailbox.create capacity
    capture := .create spec canceller hpos }

/-- Handles the messages that wait, control messages before data, and goes back
to work if it is to, as `Session.drainCapture` does. -/
def drain (s : PlainSession κ) : List (Reply CaptureTiming) × PlainSession κ :=
  let control := s.captureControl.drain s.drainLimit
  let data := s.data.drain s.drainLimit
  let first := s.capture.handleAll s.link control.1
  let second := first.1.handleAll first.2 data.1
  let third := second.1.resume second.2
  (s.capture.replies s.link control.1 ++ first.1.replies first.2 data.1,
    { s with capture := third.1, link := third.2, data := data.2, captureControl := control.2 })

/-- The device delivers a block: messages are handled (`drain`), the block is
taken in, and all that can be is worked off. -/
def push (s : PlainSession κ) (block : List UInt8) :
    (List Fate × List (Reply CaptureTiming)) × PlainSession κ :=
  if !s.link.linked then (([], []), s)
  else
    let (replies, s) := s.drain
    let (fates, capture, link) := (s.capture.accept block).process s.link
    ((fates, replies), { s with capture, link })

/-- What becomes of captured bytes at a stimulus, told as `Fate`s, and what
answers are given. -/
def respond (s : PlainSession κ) :
    Stimulus → (List Fate × List (Reply CaptureTiming)) × PlainSession κ
  | .push block => s.push block.toList
  | .data message => (([], []), { s with data := (s.data.post message).2 })
  | .control message =>
      (([], []), { s with captureControl := (s.captureControl.post message).2 })
  | .correct usec =>
      let (capture, link) := s.capture.correct s.link usec
      (([], []), { s with capture, link })
  | .elsewhere change => (([], []), { s with link := change s.link })

/-- What `respond` does for one stimulus after another, with the fates and the
answers in order. -/
def respondAll (s : PlainSession κ) :
    List Stimulus → (List Fate × List (Reply CaptureTiming)) × PlainSession κ
  | [] => (([], []), s)
  | stimulus :: rest =>
      let (now, s) := s.respond stimulus
      let (later, s) := s.respondAll rest
      ((now.1 ++ later.1, now.2 ++ later.2), s)

end PlainSession

namespace Session

variable {κ υ : Type} [Canceller κ]

/-- The answers that are given when the device delivers a block: `drainReplies`
while the side is there and linked. -/
def pushReplies (s : Session κ υ) : List (Reply CaptureTiming) :=
  match s.capture? with
  | none => []
  | some capture => if !s.link.linked then [] else s.drainReplies capture

/-- What the capture side does at a stimulus, and what answers it gives. A
message is posted by `Mailbox.post`, so that it is lost where there is no room. -/
def respond (s : Session κ υ) :
    Stimulus → (List Event × List (Reply CaptureTiming)) × Session κ υ
  | .push block => (((s.push block).1, s.pushReplies), (s.push block).2)
  | .data message => (([], []), { s with data := (s.data.post message).2 })
  | .control message =>
      (([], []), { s with captureControl := (s.captureControl.post message).2 })
  | .correct usec => (([], []), s.correct usec)
  | .elsewhere change => (([], []), { s with link := change s.link })

/-- What `respond` does for one stimulus after another, with the events and the
answers in order. -/
def respondAll (s : Session κ υ) :
    List Stimulus → (List Event × List (Reply CaptureTiming)) × Session κ υ
  | [] => (([], []), s)
  | stimulus :: rest =>
      let (now, s) := s.respond stimulus
      let (later, s) := s.respondAll rest
      ((now.1 ++ later.1, now.2 ++ later.2), s)

/-! ### Side by side -/

/-- The capture side of a session stands where a plain one stands
(`Capture.Holds`), with the same messages to come and the same link. -/
structure Mirrors (s : Session κ υ) (plain : PlainSession κ) : Prop where
  drainLimit_eq : s.drainLimit = plain.drainLimit
  link_eq : s.link = plain.link
  data_eq : s.data = plain.data
  captureControl_eq : s.captureControl = plain.captureControl
  capture : ∃ c, s.capture? = some c ∧ c.Holds plain.capture
  /-- Every rewind that waits fits a word. -/
  word : ∀ n, .rewound n ∈ plain.data.items ++ plain.captureControl.items → n ≤ Word.maxSigned

/-- A stimulus rewinds by no more bytes than a word can count, so that
`Word.signed` gives the number itself. -/
def Stimulus.FitsWord : Stimulus → Prop
  | .data (.rewound n) => n ≤ Word.maxSigned
  | .control (.rewound n) => n ≤ Word.maxSigned
  | _ => True

variable {s : Session κ υ} {plain : PlainSession κ}

omit [Canceller κ] in
/-- Handling the messages that wait keeps both side by side, by
`Capture.Holds.handleAll` and `Capture.Holds.resume`. -/
theorem Mirrors.drain (h : s.Mirrors plain) {c : Capture κ}
    (hholds : c.Holds plain.capture) :
    ({ (s.drainCapture c).2 with capture? := some (s.drainCapture c).1 } : Session κ υ).Mirrors
        plain.drain.2
      ∧ s.drainReplies c = plain.drain.1 := by
  obtain ⟨hlimit, hlink, hdata, hcontrol, -, hword⟩ := h
  have hcontrolWord : ∀ n, .rewound n ∈ (plain.captureControl.drain plain.drainLimit).1 →
      n ≤ Word.maxSigned :=
    fun n hn => hword n (List.mem_append_right _ (List.mem_of_mem_take hn))
  have hdataWord : ∀ n, .rewound n ∈ (plain.data.drain plain.drainLimit).1 →
      n ≤ Word.maxSigned :=
    fun n hn => hword n (List.mem_append_left _ (List.mem_of_mem_take hn))
  have hrest : ∀ (box : Mailbox CaptureMessage) {message : CaptureMessage},
      message ∈ (box.drain plain.drainLimit).2.items → message ∈ box.items := by
    intro box message hm
    rw [← box.drain_append plain.drainLimit]
    exact List.mem_append_right _ hm
  -- Control messages first, then data, then the end of a suspension.
  obtain ⟨hfirst, hfirstLink, hreplies⟩ := hholds.handleAll plain.link hcontrolWord
  obtain ⟨hsecond, hsecondLink, hreplies'⟩ := hfirst.handleAll
    (plain.capture.handleAll plain.link (plain.captureControl.drain plain.drainLimit).1).2 hdataWord
  obtain ⟨hthird, hthirdLink⟩ := hsecond.resume (PlainCapture.handleAll _
    (plain.capture.handleAll plain.link (plain.captureControl.drain plain.drainLimit).1).2
    (plain.data.drain plain.drainLimit).1).2
  unfold drainCapture drainReplies
  rw [hlimit, hlink, hdata, hcontrol]
  rw [Capture.replies_append]
  simp only [hfirstLink, hsecondLink, hreplies, hreplies']
  refine ⟨⟨rfl, hthirdLink, rfl, rfl, ⟨_, rfl, hthird⟩, fun n hn => ?_⟩, rfl⟩
  rcases List.mem_append.mp hn with hn | hn
  · exact hword n (List.mem_append_left _ (hrest plain.data hn))
  · exact hword n (List.mem_append_right _ (hrest plain.captureControl hn))

/-- A block that is delivered keeps both side by side: the same fates, the same
answers, and states that mirror each other. The three parts of a tick are
`Mirrors.drain`, `Capture.Holds.accept` and `Capture.Holds.process`. -/
theorem Mirrors.push (h : s.Mirrors plain) (block : Block) :
    (s.push block).1.map Event.fate? = (plain.push block.toList).1.1.map some
      ∧ s.pushReplies = (plain.push block.toList).1.2
      ∧ (s.push block).2.Mirrors (plain.push block.toList).2 := by
  obtain ⟨c, hc, hholds⟩ := h.capture
  unfold Session.push pushReplies PlainSession.push
  rw [hc, h.link_eq]
  cases hlinked : plain.link.linked with
  | false => exact ⟨rfl, rfl, h⟩
  | true =>
      obtain ⟨⟨hlimit, hlink, hdata, hcontrol, ⟨c', hc', hholds'⟩, hword⟩, hreplies⟩ :=
        h.drain hholds
      cases hc'
      obtain ⟨hfates, hprocess, hprocessLink⟩ :=
        (hholds'.accept block).process (s.drainCapture c).2.link
      refine ⟨?_, hreplies, hlimit, ?_, hdata, hcontrol, ⟨_, rfl, hprocess⟩, hword⟩
      · exact hfates
      · exact hprocessLink.trans (congrArg (fun link =>
          ((plain.drain.2.capture.accept block.toList).process link).2.2) hlink)

/-- Whatever reaches the capture side keeps both side by side. This is the step
of the simulation, one case for each `Stimulus`. -/
theorem Mirrors.respond (h : s.Mirrors plain) {stimulus : Stimulus}
    (hfits : Stimulus.FitsWord stimulus) :
    (s.respond stimulus).1.1.map Event.fate? = (plain.respond stimulus).1.1.map some
      ∧ (s.respond stimulus).1.2 = (plain.respond stimulus).1.2
      ∧ (s.respond stimulus).2.Mirrors (plain.respond stimulus).2 := by
  cases stimulus with
  | push block => exact h.push block
  | data message =>
      refine ⟨rfl, rfl, h.drainLimit_eq, h.link_eq, ?_, h.captureControl_eq, h.capture, ?_⟩
      · exact congrArg (fun box => (Mailbox.post box message).2) h.data_eq
      · intro n hn
        rcases List.mem_append.mp hn with hn | hn
        · rcases Mailbox.mem_items_post hn with hn | rfl
          · exact h.word n (List.mem_append_left _ hn)
          · exact hfits
        · exact h.word n (List.mem_append_right _ hn)
  | control message =>
      refine ⟨rfl, rfl, h.drainLimit_eq, h.link_eq, h.data_eq, ?_, h.capture, ?_⟩
      · exact congrArg (fun box => (Mailbox.post box message).2) h.captureControl_eq
      · intro n hn
        rcases List.mem_append.mp hn with hn | hn
        · exact h.word n (List.mem_append_left _ hn)
        · rcases Mailbox.mem_items_post hn with hn | rfl
          · exact h.word n (List.mem_append_right _ hn)
          · exact hfits
  | correct usec =>
      obtain ⟨c, hc, hholds⟩ := h.capture
      obtain ⟨hcorrect, hlink⟩ := hholds.correct plain.link usec
      have hsession : (s.respond (.correct usec)).2
          = { s with
              capture? := some (c.correct plain.link usec).1
              link := (c.correct plain.link usec).2 } := by
        show s.correct usec = _
        unfold Session.correct
        rw [hc, h.link_eq]
      rw [hsession]
      exact ⟨rfl, rfl, h.drainLimit_eq, hlink, h.data_eq, h.captureControl_eq,
        ⟨_, rfl, hcorrect⟩, h.word⟩
  | elsewhere change =>
      exact ⟨rfl, rfl, h.drainLimit_eq, congrArg change h.link_eq, h.data_eq, h.captureControl_eq,
        h.capture, h.word⟩

/-- The two sides stay side by side over any stimuli, by induction on them with
`Mirrors.respond`. -/
theorem Mirrors.respondAll (h : s.Mirrors plain) {stimuli : List Stimulus}
    (hfits : ∀ stimulus ∈ stimuli, Stimulus.FitsWord stimulus) :
    (s.respondAll stimuli).1.1.map Event.fate? = (plain.respondAll stimuli).1.1.map some
      ∧ (s.respondAll stimuli).1.2 = (plain.respondAll stimuli).1.2
      ∧ (s.respondAll stimuli).2.Mirrors (plain.respondAll stimuli).2 := by
  induction stimuli generalizing s plain with
  | nil => exact ⟨rfl, rfl, h⟩
  | cons stimulus rest ih =>
      obtain ⟨hfirst, hrest⟩ := List.forall_mem_cons.mp hfits
      obtain ⟨hfates, hreplies, hnext⟩ := h.respond hfirst
      obtain ⟨hfates', hreplies', hend⟩ := ih hnext hrest
      refine ⟨?_, ?_, hend⟩
      · simp only [Session.respondAll, PlainSession.respondAll, List.map_append, hfates, hfates']
      · simp only [Session.respondAll, PlainSession.respondAll, hreplies, hreplies']

/-- A new capture side stands where two empty lists stand. This is the start of
the simulation (`Mirrors`). -/
theorem mirrors_create {spec : StreamSpec} (capacity : Nat) {canceller : κ} (producer : υ)
    (link : Link) (dumps? : Option Dumps) (hspec : spec.validate = .ok ())
    (hrate : spec.rate ≤ Settings.maxRate)
    (hpos : 0 < spec.bytesOfFrames (Canceller.blockFrames canceller)) :
    (create spec capacity canceller producer link dumps?).Mirrors
      (PlainSession.create spec capacity canceller link hpos) := by
  exact ⟨rfl, rfl, rfl, rfl, ⟨_, rfl, Capture.holds_create hspec hrate hpos⟩,
    fun n hn => absurd hn List.not_mem_nil⟩

/-- Whatever reaches the capture side of a new session, in `stimuli` that rewind
by no more than a word can count (`hfits`), it does to the audio what two plain
lists of bytes do in `PlainSession`: each event tells the same `Fate`. It gives
the same answers, counts the same, and ends with the same unread bytes, skip,
canceller, received bytes and suspension. -/
theorem capture_refines_lists {spec : StreamSpec} {canceller : κ} (hspec : spec.validate = .ok ())
    (hrate : spec.rate ≤ Settings.maxRate) (hframes : 0 < Canceller.blockFrames canceller)
    (capacity : Nat) (producer : υ) (link : Link) (dumps? : Option Dumps)
    {stimuli : List Stimulus}
    (hfits : ∀ stimulus ∈ stimuli, Stimulus.FitsWord stimulus) :
    let session := (create spec capacity canceller producer link dumps?).respondAll stimuli
    let lists := (PlainSession.create spec capacity canceller link
      (StreamSpec.bytesOfFrames_pos hspec hframes)).respondAll stimuli
    session.1.1.map Event.fate? = lists.1.1.map some
      ∧ session.1.2 = lists.1.2
      ∧ session.2.link = lists.2.link
      ∧ ∃ c, session.2.capture? = some c
          ∧ c.pairing.captured.unread = lists.2.capture.backlog.captured
          ∧ c.pairing.played.unread = lists.2.capture.backlog.played
          ∧ c.pairing.skip = lists.2.capture.backlog.skip
          ∧ c.pairing.canceller = lists.2.capture.backlog.canceller
          ∧ c.received = lists.2.capture.received
          ∧ c.suspended = lists.2.capture.suspended := by
  intro session lists
  obtain ⟨hfates, hreplies, hmirrors⟩ :=
    (mirrors_create capacity producer link dumps? hspec hrate
      (StreamSpec.bytesOfFrames_pos hspec hframes)).respondAll hfits
  obtain ⟨c, hc, hholds⟩ := hmirrors.capture
  exact ⟨hfates, hreplies, hmirrors.link_eq, c, hc, hholds.pairing.captured.unread_eq,
    hholds.pairing.played.unread_eq, hholds.pairing.skip_eq, hholds.pairing.canceller_eq,
    hholds.received_eq, hholds.suspended_eq⟩

/-- The hypotheses of `capture_refines_lists` are met by rendered audio of which
some is taken back, a question, a correction that drops a frame of captured
audio, and a suspension. -/
theorem capture_refines_lists_trial :
    let stimuli : List Stimulus :=
      [.data (.rendered (.ofBytes ⟨#[1, 2, 3, 4, 5, 6, 7, 8]⟩)), .data (.rewound 2),
        .control (.timingRequest 7), .push (.ofBytes ⟨#[10, 11, 12, 13, 14, 15]⟩),
        .correct 125, .push (.ofBytes ⟨#[16, 17, 18, 19]⟩), .control (.device .suspended),
        .push (.ofBytes ⟨#[20, 21, 22, 23]⟩)]
    (trial.respondAll stimuli).1.1.map Event.fate?
        = [some (.cancelled [10, 11, 12, 13] [1, 2, 3, 4] [10, 11, 12, 13]),
          some (.skipped [14, 15]), some (.passed [16, 17, 18, 19] []),
          some (.passed [20, 21, 22, 23] [])]
      ∧ (trial.respondAll stimuli).1.1.map Event.fate?
        = ((PlainSession.create ⟨.s16le, 8000, 1⟩ 4 (⟨2⟩ : NullCanceller) trial.link
            (by decide)).respondAll stimuli).1.1.map some := by
  intro stimuli
  refine ⟨by decide +kernel, (capture_refines_lists rfl (by decide) (by decide) 4 _ trial.link none
    ?_).1⟩
  intro stimulus hmem
  simp only [stimuli, List.mem_cons, List.not_mem_nil, or_false] at hmem
  rcases hmem with rfl | rfl | rfl | rfl | rfl | rfl | rfl | rfl
  all_goals first | trivial | exact Nat.le_of_lt_succ (by decide)

end Session

end EchoAlign
