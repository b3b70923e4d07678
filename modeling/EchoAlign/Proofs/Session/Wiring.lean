import EchoAlign.Proofs.Session.Start
import EchoAlign.Proofs.Session.Steps

/-!
# `EchoAlign.Proofs.Session.Wiring`: the mailboxes of the capture side

The capture side has two mailboxes, one for each of the other sides. They
have room for as many messages as the side takes in one tick, so that a tick
leaves nothing in them.

* `Wired` says this of a session, and that the playback side posts nothing
  but audio and timing. `Wired.step` keeps it.
* `Wired.idle_push`: no message waits behind a capture tick.
* `attend` is the part of a capture tick in which messages are handled.
-/

set_option autoImplicit false

namespace EchoAlign

/-! ### What the playback side posts -/

namespace PlaybackScene

variable {υ : Type} (s : PlaybackScene υ)

/-- Sending a block is to the data mailbox the `post` of its message. -/
theorem data_send (block : Block) : (s.send block).data = (s.data.post (.rendered block)).2 := by
  unfold send post
  simp only
  split
  · rfl
  · rfl

variable [Producer υ]

/-- Making audio is to the data mailbox the `post` of the block, by `data_send`. -/
theorem data_play (n : Nat) :
    (s.play n).2.data = (s.data.post (.rendered (s.play n).1)).2 :=
  data_send ..

omit [Producer υ] in
/-- Sending timing is to the data mailbox a post, if timing is owed. Whether it
is owed is told by `PlaybackScene.owesTiming`. -/
theorem data_sendTiming :
    s.sendTiming.data
      = if s.owesTiming then (s.data.post (.playbackTiming s.link.epoch s.nextTiming)).2
        else s.data := by
  cases howes : s.owesTiming with
  | false => rw [(s.sendTiming_of_not_owesTiming howes).1, if_neg Bool.false_ne_true]
  | true =>
      have hif : ¬(!s.link.resyncPending || s.playback.timingEpoch? == some s.link.epoch) = true :=
        Bool.eq_false_iff.mp ((Bool.not_eq_true' _).mp howes)
      rw [if_pos rfl]
      unfold sendTiming post
      simp only [if_neg hif]
      split
      · rfl
      · rfl

/-- A rewind is to the data mailbox the `post` of its message. -/
theorem data_rewind (n : Nat) : (s.rewind n).data = (s.data.post (.rewound n)).2 := by
  unfold rewind post
  simp only
  split
  · rfl
  · rfl

end PlaybackScene

/-! ### The two mailboxes of the capture side -/

namespace Session

variable {κ υ : Type} {limit : Nat}

/-- A capture side takes in one tick as many messages as its mailboxes have room
for (`drainLimit_eq`, `Mailbox.Within`). What the playback side posts is audio
or timing, and it is posted to a mailbox that is open as long as the capture
side is there. -/
structure Wired (limit : Nat) (s : Session κ υ) : Prop where
  drainLimit_eq : s.drainLimit = limit
  control : s.captureControl.Within limit
  data : s.data.Within limit
  dataOnly : ∀ message ∈ s.data.items, message.isData = true
  closed_eq : s.capture?.isSome = true → s.data.closed = false

/-- A post of the playback side keeps a session wired. `hmessage` says that it
is audio or timing, and `hdata` that it went to the data mailbox. -/
theorem Wired.post {s : Session κ υ} (h : s.Wired limit) {scene : PlaybackScene υ}
    {message : CaptureMessage} (hmessage : message.isData = true)
    (hdata : scene.data = (s.data.post message).2) : (s.withScene scene).Wired limit := by
  refine ⟨h.drainLimit_eq, h.control, ?_, ?_, ?_⟩
  · show scene.data.Within limit
    rw [hdata]
    exact h.data.post message
  · show ∀ m ∈ scene.data.items, m.isData = true
    rw [hdata]
    intro m hm
    rcases Mailbox.mem_items_post hm with hm | rfl
    · exact h.dataOnly m hm
    · exact hmessage
  · intro hthere
    show scene.data.closed = false
    rw [hdata, Mailbox.closed_post]
    exact h.closed_eq hthere

variable [Canceller κ] [Producer υ] {allowed : Operation → Prop} {s t : Session κ υ}
  {entries : List Entry}

/-- Every step keeps a session wired: posts stay within the capacity, and
mailboxes are closed with their side. By cases on `Step`: those that take
messages use `Mailbox.Within.takes`, those that post `Mailbox.Within.post`. -/
theorem Wired.step (h : s.Wired limit) (hstep : Step allowed s entries t) : t.Wired limit := by
  -- A side that acts is there before as well as after.
  have hthere : ∀ {c : Capture κ}, s.capture? = some c → s.data.closed = false := fun hc =>
    h.closed_eq (hc ▸ rfl)
  cases hstep with
  | reportCapture running ha hnew =>
      rw [postCapture_eq]
      exact ⟨h.drainLimit_eq, h.control.post _, h.data, h.dataOnly, h.closed_eq⟩
  | reportPlayback running ha hnew =>
      rw [postPlayback_eq]
      exact ⟨h.drainLimit_eq, h.control, h.data, h.dataOnly, h.closed_eq⟩
  | postCapture message hm =>
      rw [postCapture_eq]
      exact ⟨h.drainLimit_eq, h.control.post message, h.data, h.dataOnly, h.closed_eq⟩
  | askCapture message hm ha =>
      exact ⟨h.drainLimit_eq, h.control.post message, h.data, h.dataOnly, h.closed_eq⟩
  | repack hcontrol hdata hplayback =>
      refine ⟨h.drainLimit_eq, h.control.takes hcontrol, h.data.takes hdata, fun m hm => ?_,
        fun hsome => hdata.closed.trans (h.closed_eq hsome)⟩
      exact h.dataOnly m (by rw [hdata.items]; exact hm)
  | handleControl message hc hrest =>
      exact ⟨h.drainLimit_eq, h.control.takes hrest, h.data, h.dataOnly, fun _ => hthere hc⟩
  | handleData message hc hrest =>
      refine ⟨h.drainLimit_eq, h.control, h.data.takes hrest, fun m hm => ?_,
        fun _ => hrest.closed.trans (hthere hc)⟩
      exact h.dataOnly m (by rw [hrest.items]; exact List.mem_cons_of_mem _ hm)
  | @play p n hp hlinked ha => exact h.post rfl ((s.scene p).data_play n)
  | @sendTiming p hp =>
      cases howes : (s.scene p).owesTiming with
      | false =>
          rw [((s.scene p).sendTiming_of_not_owesTiming howes).1]
          exact ⟨h.drainLimit_eq, h.control, h.data, h.dataOnly, h.closed_eq⟩
      | true =>
          have hdata := (s.scene p).data_sendTiming
          rw [howes, if_pos rfl] at hdata
          exact h.post rfl hdata
  | @rewindPlayback p n hp ha => exact h.post rfl ((s.scene p).data_rewind n)
  | dropCapture hc ha =>
      exact ⟨h.drainLimit_eq, h.control.close, h.data.close,
        fun m hm => absurd hm List.not_mem_nil, fun hsome => absurd hsome nofun⟩
  | resume hc hresuming ha =>
      exact ⟨h.drainLimit_eq, h.control, h.data, h.dataOnly, fun _ => hthere hc⟩
  | accept block hc ha =>
      exact ⟨h.drainLimit_eq, h.control, h.data, h.dataOnly, fun _ => hthere hc⟩
  | pair hc hpair => exact ⟨h.drainLimit_eq, h.control, h.data, h.dataOnly, fun _ => hthere hc⟩
  | rewindCapture n hc ha =>
      exact ⟨h.drainLimit_eq, h.control, h.data, h.dataOnly, fun _ => hthere hc⟩
  | correct usec hc ha =>
      exact ⟨h.drainLimit_eq, h.control, h.data, h.dataOnly, fun _ => hthere hc⟩
  | _ => exact ⟨h.drainLimit_eq, h.control, h.data, h.dataOnly, h.closed_eq⟩

/-- Any number of steps keeps a session `Wired`, by `Wired.step` for each. -/
theorem Wired.steps (h : s.Wired limit) (hsteps : Steps allowed s entries t) : t.Wired limit :=
  hsteps.induct (motive := fun t _ => t.Wired limit) h
    fun _ _ _ _ hbefore hstep => hbefore.step hstep

omit [Producer υ] in
/-- A new session is `Wired`, with the capacity of its mailboxes for the limit. -/
theorem IsNew.wired (h : s.IsNew) : s.Wired s.data.capacity := by
  obtain ⟨spec, capacity, canceller, producer, link, dumps?, rfl, -, -, -, hcapacity, -⟩ :=
    h.opened
  have hsame : (create spec capacity canceller producer link dumps?).data.capacity = capacity :=
    Nat.max_eq_left hcapacity
  rw [hsame]
  exact ⟨rfl, Mailbox.within_create hcapacity, Mailbox.within_create hcapacity,
    fun m hm => absurd hm List.not_mem_nil, fun _ => rfl⟩

omit [Canceller κ] [Producer υ] in
/-- In a capture tick, only what the control side posted is answered: the
messages of the playback side (`Wired.dataOnly`) are no questions. -/
theorem Wired.drainReplies_eq (h : s.Wired limit) (c : Capture κ) :
    s.drainReplies c = c.replies s.link s.captureControl.items := by
  unfold drainReplies
  rw [h.drainLimit_eq, h.control.drain.1, h.data.drain.1, Capture.replies_append,
    Capture.replies_of_isData _ _ h.dataOnly, List.append_nil]

/-- No message waits for the capture side, in either mailbox (`captureControl`,
`data`). -/
structure Idle (s : Session κ υ) : Prop where
  control : s.captureControl.items = []
  data : s.data.items = []

omit [Producer υ] in
/-- A capture tick leaves no message, since it drains as many as there is room
for (`drainLimit`). -/
theorem Wired.idle_push (h : s.Wired limit) {c : Capture κ} (hc : s.capture? = some c)
    (hlinked : s.link.linked = true) (block : Block) : (s.push block).2.Idle := by
  simp only [push, hc, hlinked, Bool.not_true, Bool.false_eq_true, if_false]
  refine ⟨?_, ?_⟩
  · show (s.captureControl.drain s.drainLimit).2.items = []
    rw [h.drainLimit_eq]
    exact h.control.drain.2
  · show (s.data.drain s.drainLimit).2.items = []
    rw [h.drainLimit_eq]
    exact h.data.drain.2

end Session

/-! ### A capture tick -/

namespace Capture

variable {κ : Type}

/-- What every message keeps (`hhandle`) is kept when messages are handled in
order. -/
theorem handleAll_induct {motive : Capture κ → Prop} {c : Capture κ}
    {messages : List CaptureMessage}
    (hhandle : ∀ (c : Capture κ) (link : Link), ∀ message ∈ messages, motive c →
      motive (c.handle link message).1) (h : motive c) (link : Link) :
    motive (c.handleAll link messages).1 := by
  induction messages generalizing c link with
  | nil => exact h
  | cons message rest ih =>
      have hfirst := hhandle c link message List.mem_cons_self h
      exact ih (fun c link message hm => hhandle c link message (List.mem_cons_of_mem _ hm)) hfirst
        (c.handle link message).2

/-- Messages in two parts are handled as those of the first part and then of the
second: `handleAll` is a fold. -/
theorem handleAll_append (c : Capture κ) (link : Link) (first rest : List CaptureMessage) :
    c.handleAll link (first ++ rest)
      = (c.handleAll link first).1.handleAll (c.handleAll link first).2 rest :=
  List.foldl_append

/-- Handling messages keeps what no side changes (`Keeps`), by `keeps_handle`
for each. -/
theorem keeps_handleAll (c : Capture κ) (link : Link) (messages : List CaptureMessage) :
    link.Keeps (c.handleAll link messages).2 := by
  induction messages generalizing c link with
  | nil => exact Link.Keeps.refl link
  | cons message rest ih => exact (c.keeps_handle link message).trans (ih _ _)

/-- Going back to work leaves the audio as it is, and there is no second time
(`resuming`). -/
theorem resume_cases (c : Capture κ) (link : Link) :
    (c.resume link).1.pairing = c.pairing ∧ (c.resume link).1.resuming = false := by
  unfold resume
  cases hresuming : c.resuming with
  | true => exact ⟨rfl, rfl⟩
  | false => exact ⟨rfl, hresuming⟩

/-- Going back to work leaves the session `linked` or not, as it was. -/
theorem linked_resume (c : Capture κ) (link : Link) :
    (c.resume link).2.linked = link.linked := by
  unfold resume
  split
  · rfl
  · rfl

/-- A side that is not to go back to work (`resuming`) does not. -/
theorem resume_of_not_resuming {c : Capture κ} (h : c.resuming = false) (link : Link) :
    c.resume link = (c, link) := by
  unfold resume
  rw [h]
  rfl

end Capture

namespace Session

variable {κ υ : Type}

/-- The capture side once it has handled the messages of a tick, before it goes
back to work. `drainCapture` is `attend` and then `Capture.resume`. -/
def attend (s : Session κ υ) (c : Capture κ) : Capture κ × Link :=
  let (control, link) := c.handleAll s.link (s.captureControl.drain s.drainLimit).1
  control.handleAll link (s.data.drain s.drainLimit).1

/-- What the playback side says (`data`) is handled behind what the control side
says (`captureControl`). -/
theorem attend_eq (s : Session κ υ) (c : Capture κ) :
    s.attend c = c.handleAll s.link ((s.captureControl.drain s.drainLimit).1
      ++ (s.data.drain s.drainLimit).1) :=
  (c.handleAll_append s.link _ _).symm

variable [Canceller κ] [Producer υ] {s : Session κ υ} {c : Capture κ}

omit [Producer υ] in
/-- Behind the messages (`attend`), the side goes back to work if it is to, and
takes the captured audio in. What becomes of that is counted and written down. -/
theorem push_attend (hc : s.capture? = some c) (hlinked : s.link.linked = true) (block : Block) :
    let woken := (s.attend c).1.resume (s.attend c).2
    let worked := (woken.1.accept block).pairing.drive
    (s.push block).1 = worked.1
      ∧ (s.push block).2.capture? = some { woken.1.accept block with pairing := worked.2 }
      ∧ (s.push block).2.link
        = (woken.2.count fun counters => worked.1.foldl Counters.record counters)
      ∧ (s.push block).2.dumps?
        = s.dumps?.map (fun dumps => worked.1.foldl Dumps.record dumps)
      ∧ (s.push block).2.playback? = s.playback? := by
  simp only [push, hc, hlinked, Bool.not_true, Bool.false_eq_true, if_false]
  exact ⟨rfl, rfl, rfl, rfl, rfl⟩

end Session

end EchoAlign
