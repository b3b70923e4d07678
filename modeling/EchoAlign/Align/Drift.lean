import EchoAlign.Mailbox
import EchoAlign.Align.Message

/-!
# `EchoAlign.Align.Drift`: checking for drift

A `DriftController` asks both sides for their timing, capture first,
and posts a correction to the capture side when the offset between the
two is out of tolerance. Correcting means skipping; the stream rate is
never changed.

Between a question and its answer the rest of the world goes on. A check
therefore comes in two forms:

* `check` makes all of it at once. The rest of the world is given to it as
  two functions, one for each wait, over any state of the world and the
  mailboxes of both sides.
* `start`, `hearCapture`, `hearPlayback` and `proceed` are the steps it is
  made of, with the `DriftPhase` to remember where it stands. Anything else
  may happen between two of them. `check_eq_checkInSteps` says that they
  come to the same.

Tickets are never used twice, so that an answer to an earlier check cannot
be mistaken for an answer to this one.
-/

set_option autoImplicit false

namespace EchoAlign

/-- The name of the thread that checks for drift periodically. -/
def driftTimerName : String := "aec-drift"

/-- What a controller is busy with. Every phase but `idle` is one in which
it waits, or in which others may act before it does. -/
inductive DriftPhase where
  | idle
  /-- The capture side was asked. It may have answered. -/
  | awaitingCapture (answer? : Option CaptureTiming)
  /-- The capture side has answered, and the playback side was asked. It may
  have answered. -/
  | awaitingPlayback (capture : CaptureTiming) (answer? : Option PlaybackTiming)
  /-- An offset was measured that is out of tolerance. -/
  | correcting (usec : Int)
  deriving DecidableEq, Repr

namespace DriftPhase

/-- The name of the phase. Both `awaitingCapture` and `awaitingPlayback` go by
the same one. -/
def label : DriftPhase → String
  | idle => "Idle"
  | awaitingCapture _ => "AwaitingSnapshot"
  | awaitingPlayback _ _ => "AwaitingSnapshot"
  | correcting _ => "Correcting"

end DriftPhase

/-- What came of a check. -/
inductive DriftOutcome where
  /-- Not both devices were running. -/
  | inactive
  /-- A question got no answer in time. -/
  | canceled
  /-- The offset was within tolerance. -/
  | aligned (usec : Int)
  /-- A correction for this offset was offered to the capture side. -/
  | corrected (usec : Int) (correction : Correction)
  deriving DecidableEq, Repr

/-- The mailboxes a check posts to: `toCapture` takes its first question and the
correction, `toPlayback` its second question. -/
structure ControlPosts where
  toCapture : Mailbox CaptureMessage
  toPlayback : Mailbox PlaybackMessage

/-- Checks the offset between the two sides of a stream `spec`. The `phase` says
where a check that is made in steps stands. -/
structure DriftController where
  spec : StreamSpec
  phase : DriftPhase
  /-- The next unused ticket. -/
  nextTicket : Nat

namespace DriftController

/-- A controller that has checked nothing yet. It is `idle`, and its tickets
start at zero. -/
def create (spec : StreamSpec) : DriftController := ⟨spec, .idle, 0⟩

/-- The controller behind a check. Both tickets of the check are used up,
whether or not both questions were asked. -/
def done (d : DriftController) : DriftController :=
  { d with phase := .idle, nextTicket := d.nextTicket + 2 }

/-! ### A check at once -/

/-- What the world does during a wait: to the mailboxes, to itself, and
the answers it gives. -/
abbrev Wait (σ τ : Type) := ControlPosts → σ → ControlPosts × σ × List (Reply τ)

variable {σ : Type}

/-- Asks the capture side for its timing with this `ticket` (`Mailbox.ask`).
While it waits, the other mailbox is part of the world. -/
def askCapture (ticket : Nat) (posts : ControlPosts) (world : σ) (wait : Wait σ CaptureTiming) :
    Option CaptureTiming × ControlPosts × σ :=
  let (answer, toCapture, toPlayback, world) :=
    posts.toCapture.ask (.timingRequest ticket) ticket (posts.toPlayback, world)
      fun toCapture (toPlayback, world) =>
        let (posts, world, replies) := wait ⟨toCapture, toPlayback⟩ world
        (posts.toCapture, (posts.toPlayback, world), replies)
  (answer, ⟨toCapture, toPlayback⟩, world)

/-- Asks the playback side for its timing with this `ticket` (`Mailbox.ask`), as
`askCapture` asks the other one. -/
def askPlayback (ticket : Nat) (posts : ControlPosts) (world : σ) (wait : Wait σ PlaybackTiming) :
    Option PlaybackTiming × ControlPosts × σ :=
  let (answer, toPlayback, toCapture, world) :=
    posts.toPlayback.ask (.timingRequest ticket) ticket (posts.toCapture, world)
      fun toPlayback (toCapture, world) =>
        let (posts, world, replies) := wait ⟨toCapture, toPlayback⟩ world
        (posts.toPlayback, (posts.toCapture, world), replies)
  (answer, ⟨toCapture, toPlayback⟩, world)

/-- Offers the correction for a measured offset to the capture side, if
`Correction.ofOffset` says that it needs one. Whether the mailbox takes it makes
no difference to the outcome. -/
def settle (usec : Int) (posts : ControlPosts) : DriftOutcome × ControlPosts :=
  match Correction.ofOffset usec with
  | .none => (.aligned usec, posts)
  | correction =>
      (.corrected usec correction,
        { posts with toCapture := (posts.toCapture.post (.correct usec)).2 })

/-- One drift check: its outcome, the controller after it, and what has
become of the mailboxes and of the world. The offset is that of the two
answers, `offset d.spec playback capture`. A session has a validated spec,
and there it can be computed (`offset?_of_validate`). -/
def check (d : DriftController) (posts : ControlPosts) (world : σ)
    (captureWait : Wait σ CaptureTiming) (playbackWait : Wait σ PlaybackTiming) :
    DriftOutcome × DriftController × ControlPosts × σ :=
  match askCapture d.nextTicket posts world captureWait with
  | (none, posts, world) => (.canceled, d.done, posts, world)
  | (some capture, posts, world) =>
      match askPlayback (d.nextTicket + 1) posts world playbackWait with
      | (none, posts, world) => (.canceled, d.done, posts, world)
      | (some playback, posts, world) =>
          let (outcome, posts) := settle (offset d.spec playback capture) posts
          (outcome, d.done, posts, world)

/-! ### A check in steps -/

/-- Whether a check is under way, which is in every phase but `DriftPhase.idle`. -/
def busy (d : DriftController) : Bool :=
  match d.phase with
  | .idle => false
  | _ => true

/-- Starts a check: the capture side is asked, with `nextTicket`. A question
that its mailbox does not take ends the check as `canceled`. -/
def start (d : DriftController) (posts : ControlPosts) :
    Option DriftOutcome × DriftController × ControlPosts :=
  let (kept, toCapture) := posts.toCapture.post (.timingRequest d.nextTicket)
  if kept then (none, { d with phase := .awaitingCapture none }, { posts with toCapture })
  else (some .canceled, d.done, { posts with toCapture })

/-- The capture side gives answers. Only one to the question that the
controller waits for is heeded, and only the first. -/
def hearCapture (d : DriftController) (replies : List (Reply CaptureTiming)) : DriftController :=
  match d.phase with
  | .awaitingCapture none =>
      { d with phase := .awaitingCapture (Mailbox.answerTo d.nextTicket replies) }
  | _ => d

/-- The playback side gives answers. As in `hearCapture`, only the first one
with the ticket of the question is heeded, which is `nextTicket + 1` here. -/
def hearPlayback (d : DriftController) (replies : List (Reply PlaybackTiming)) :
    DriftController :=
  match d.phase with
  | .awaitingPlayback capture none =>
      { d with
        phase := .awaitingPlayback capture (Mailbox.answerTo (d.nextTicket + 1) replies) }
  | _ => d

/-- A check goes on. A wait is over, because the answer is there or because
the time is up, and the next question is asked or the offset measured; or
the correction for a measured offset is offered. Says what the check has
come to, where it ends. -/
def proceed (d : DriftController) (posts : ControlPosts) :
    Option DriftOutcome × DriftController × ControlPosts :=
  match d.phase with
  | .idle => (none, d, posts)
  | .awaitingCapture none => (some .canceled, d.done, posts)
  | .awaitingCapture (some capture) =>
      let (kept, toPlayback) := posts.toPlayback.post (.timingRequest (d.nextTicket + 1))
      if kept then
        (none, { d with phase := .awaitingPlayback capture none }, { posts with toPlayback })
      else (some .canceled, d.done, { posts with toPlayback })
  | .awaitingPlayback _ none => (some .canceled, d.done, posts)
  | .awaitingPlayback capture (some playback) =>
      let usec := offset d.spec playback capture
      match Correction.ofOffset usec with
      | .none => (some (.aligned usec), d.done, posts)
      | _ => (none, { d with phase := .correcting usec }, posts)
  | .correcting usec =>
      (some (.corrected usec (.ofOffset usec)), d.done,
        { posts with toCapture := (posts.toCapture.post (.correct usec)).2 })

/-- Answers are heard one after another: `hearCapture` of two lists together is
that of the first and then of the rest. -/
theorem hearCapture_append (d : DriftController) (first rest : List (Reply CaptureTiming)) :
    d.hearCapture (first ++ rest) = (d.hearCapture first).hearCapture rest := by
  unfold hearCapture
  cases hphase : d.phase with
  | awaitingCapture answer? =>
      cases answer? with
      | none =>
          simp only [Mailbox.answerTo_append]
          cases Mailbox.answerTo d.nextTicket first <;> rfl
      | some capture => simp only [hphase]
  | _ => simp only [hphase]

/-- Where nothing is answered, nothing is heard, and `hearPlayback` leaves the
controller in its phase. -/
theorem hearPlayback_nil (d : DriftController) : d.hearPlayback [] = d := by
  obtain ⟨spec, phase, nextTicket⟩ := d
  cases phase with
  | awaitingPlayback capture answer? => cases answer? <;> rfl
  | _ => rfl

/-- A check that starts asks the capture side, whether or not there is room for
the question. Beyond that `start` posts nothing. -/
theorem posts_start (d : DriftController) (posts : ControlPosts) :
    (d.start posts).2.2
      = { posts with toCapture := (posts.toCapture.post (.timingRequest d.nextTicket)).2 } := by
  simp only [start]
  split
  · rfl
  · rfl

/-- A check that goes on with `proceed` posts nothing, or asks the playback
side, or corrects the capture side. -/
theorem posts_proceed (d : DriftController) (posts : ControlPosts) :
    (d.proceed posts).2.2 = posts
      ∨ (d.proceed posts).2.2
        = { posts with
            toPlayback := (posts.toPlayback.post (.timingRequest (d.nextTicket + 1))).2 }
      ∨ ∃ usec, (d.proceed posts).2.2
        = { posts with toCapture := (posts.toCapture.post (.correct usec)).2 } := by
  unfold proceed
  cases d.phase with
  | idle => exact .inl rfl
  | awaitingCapture answer? =>
      cases answer? with
      | none => exact .inl rfl
      | some capture =>
          simp only
          split
          · exact .inr (.inl rfl)
          · exact .inr (.inl rfl)
  | awaitingPlayback capture answer? =>
      cases answer? with
      | none => exact .inl rfl
      | some playback =>
          simp only
          split
          · exact .inl rfl
          · exact .inl rfl
  | correcting usec => exact .inr (.inr ⟨usec, rfl⟩)

end DriftController

end EchoAlign
