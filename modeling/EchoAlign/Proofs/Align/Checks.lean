import EchoAlign.Align.Drift
import EchoAlign.Proofs.Align.Inbox

/-!
# `EchoAlign.Proofs.Align.Checks`: a check heeds its own answers only

Drift checks are made one after another, and both contexts deal with their
mailboxes as they like (`Act`), between the checks and while one waits. They
may answer a request in time, too late or not at all. A request may find no
room, or wait through later checks. The control side posts other messages
between the checks (`DriftStep`).

* `check_eq_checkInSteps`: a check made at once and one made in steps come to the
  same.
* `DriftController.Checks` lists what a check can come to, and `checks_check`
  says that it comes to one of these.
* `outcome_of_own_answers` is what it comes to after any history.

No ticket is used twice, and so all that is answered late is passed over. The
correction finds room unless the capture side has gone: by the time that the
capture side has taken its request, it has taken everything before it.
-/

set_option autoImplicit false

namespace EchoAlign

/-- The ticket of a `timingRequest` to the capture side; no other message has
one. -/
def CaptureMessage.ticket? : CaptureMessage → Option Nat
  | timingRequest ticket => some ticket
  | _ => none

/-- The ticket of a `timingRequest` to the playback side; no other message has
one. -/
def PlaybackMessage.ticket? : PlaybackMessage → Option Nat
  | timingRequest ticket => some ticket
  | device _ => none

/-- The instance lets an `Inbox` of the capture side tell requests from other
messages. -/
instance : Ticketed CaptureMessage := ⟨CaptureMessage.ticket?⟩

/-- The instance lets an `Inbox` of the playback side tell requests from other
messages. -/
instance : Ticketed PlaybackMessage := ⟨PlaybackMessage.ticket?⟩

/-- The corrections that a check offers: one after `DriftOutcome.corrected`, and
none after the others. -/
def DriftOutcome.corrections : DriftOutcome → List CaptureMessage
  | corrected usec _ => [.correct usec]
  | _ => []

/-- One of the contexts acts, and its `ContextAct` says what it does. -/
inductive Act where
  | capture (act : ContextAct CaptureTiming)
  | playback (act : ContextAct PlaybackTiming)

/-- The contexts that the control side asks, each with its `Inbox`. -/
structure Contexts where
  capture : Inbox CaptureMessage CaptureTiming
  playback : Inbox PlaybackMessage PlaybackTiming

namespace Contexts

/-- The mailboxes as the control side sees them (`ControlPosts`), without what
was done at their other ends. -/
def posts (c : Contexts) : ControlPosts := ⟨c.capture.mailbox, c.playback.mailbox⟩

/-- The contexts with the mailboxes of `posts`, and all else in their inboxes as
it was. -/
def withPosts (c : Contexts) (posts : ControlPosts) : Contexts where
  capture := { c.capture with mailbox := posts.toCapture }
  playback := { c.playback with mailbox := posts.toPlayback }

/-- A message is posted to the capture side, with `Inbox.tell`. -/
def tellCapture (c : Contexts) (message : CaptureMessage) : Contexts :=
  { c with capture := c.capture.tell message }

/-- A message is posted to the playback side, with `Inbox.tell`. -/
def tellPlayback (c : Contexts) (message : PlaybackMessage) : Contexts :=
  { c with playback := c.playback.tell message }

/-- One of the contexts acts (`Inbox.perform`), and the other stays as it is. -/
def perform (c : Contexts) : Act → Contexts
  | .capture act => { c with capture := c.capture.perform act }
  | .playback act => { c with playback := c.playback.perform act }

/-- The contexts act one after another, in the order of `acts`. -/
def run (c : Contexts) (acts : List Act) : Contexts := acts.foldl perform c

/-- While the capture side is waited for, these `acts` happen, and the answers
given meanwhile are what the wait comes back with. -/
def captureWait (acts : List Act) : DriftController.Wait Contexts CaptureTiming :=
  fun posts c =>
    -- The request is in the mailboxes, and not yet with the contexts.
    let after := (c.withPosts posts).run acts
    (after.posts, after, after.capture.answers.drop c.capture.answers.length)

/-- While the playback side is waited for, these `acts` happen, and the answers
given meanwhile are what the wait comes back with. -/
def playbackWait (acts : List Act) : DriftController.Wait Contexts PlaybackTiming :=
  fun posts c =>
    let after := (c.withPosts posts).run acts
    (after.posts, after, after.playback.answers.drop c.playback.answers.length)

end Contexts

/-- What happens from one check to the next: a context acts (`act`), or is told
something, or a whole `check` is made. -/
inductive DriftStep where
  /-- A context acts. -/
  | act (act : Act)
  /-- The capture side is told something. -/
  | tellCapture (message : CaptureMessage)
  /-- The playback side is told something. -/
  | tellPlayback (message : PlaybackMessage)
  /-- A check is made, with what the contexts do during its two waits. -/
  | check (whileCapture whilePlayback : List Act)

/-- A `controller`, and the `contexts` that it checks, with no session around
them. -/
structure DriftScene where
  controller : DriftController
  contexts : Contexts

namespace DriftScene

/-- A controller and two contexts before the first check, with mailboxes of
`captureCapacity` and `playbackCapacity`. -/
def create (spec : StreamSpec) (captureCapacity playbackCapacity : Nat) : DriftScene :=
  ⟨.create spec, .create captureCapacity, .create playbackCapacity⟩

/-- A check with `DriftController.check`, and with what the contexts do during
its two waits. -/
def check (s : DriftScene) (whileCapture whilePlayback : List Act) : DriftOutcome × DriftScene :=
  let (outcome, controller, posts, contexts) :=
    s.controller.check s.contexts.posts s.contexts (Contexts.captureWait whileCapture)
      (Contexts.playbackWait whilePlayback)
  (outcome, ⟨controller, contexts.withPosts posts⟩)

/-- One thing happens. Nothing but a `check` asks a question: a message with a
ticket is not told to anyone from outside. -/
def perform (s : DriftScene) : DriftStep → DriftScene
  | .act act => { s with contexts := s.contexts.perform act }
  | .tellCapture message =>
      if message.ticket? = none then { s with contexts := s.contexts.tellCapture message } else s
  | .tellPlayback message =>
      if message.ticket? = none then { s with contexts := s.contexts.tellPlayback message } else s
  | .check whileCapture whilePlayback => (s.check whileCapture whilePlayback).2

/-- Things happen one after another, in the order of `history`. -/
def run (s : DriftScene) (history : List DriftStep) : DriftScene := history.foldl perform s

end DriftScene

/-! ### What the contexts do -/

namespace Contexts

/-- Both contexts have left as they are what contexts leave as it is
(`Inbox.Served`). -/
structure Served (c d : Contexts) : Prop where
  capture : c.capture.Served d.capture
  playback : c.playback.Served d.playback

/-- Both inboxes are sound: all tickets in them are below `next`
(`Inbox.Sound`). -/
structure Sound (next : Nat) (c : Contexts) : Prop where
  capture : c.capture.Sound next
  playback : c.playback.Sound next

variable {c : Contexts} {next : Nat}

/-- An act leaves as it is what contexts leave as it is (`Served`). -/
theorem served_perform (c : Contexts) (act : Act) : c.Served (c.perform act) := by
  cases act with
  | capture act => exact ⟨c.capture.served_perform act, .refl _⟩
  | playback act => exact ⟨.refl _, c.playback.served_perform act⟩

/-- An act keeps both inboxes `Sound`. -/
theorem Sound.perform (h : c.Sound next) (act : Act) : (c.perform act).Sound next := by
  cases act with
  | capture act => exact ⟨h.capture.perform act, h.playback⟩
  | playback act => exact ⟨h.capture, h.playback.perform act⟩

/-- Inboxes that are `Sound` below a ticket are so below every `later` one. -/
theorem Sound.mono {later : Nat} (h : c.Sound next) (hle : next ≤ later) : c.Sound later :=
  ⟨h.capture.mono hle, h.playback.mono hle⟩

/-- Any number of acts leaves as it is what contexts leave as it is (`Served`). -/
theorem served_run (c : Contexts) (acts : List Act) : c.Served (c.run acts) := by
  induction acts generalizing c with
  | nil => exact ⟨.refl _, .refl _⟩
  | cons act rest ih =>
      have hfirst := c.served_perform act
      have hrest := ih (c.perform act)
      exact ⟨hfirst.capture.trans hrest.capture, hfirst.playback.trans hrest.playback⟩

/-- Any number of acts keeps both inboxes `Sound`. -/
theorem Sound.run (h : c.Sound next) (acts : List Act) : (c.run acts).Sound next := by
  induction acts generalizing c with
  | nil => exact h
  | cons act rest ih => exact ih (h.perform act)

/-- To tell the capture side something is to post it to its inbox, with `tell`. -/
theorem capture_tellCapture (c : Contexts) (message : CaptureMessage) :
    (c.tellCapture message).capture = c.capture.tell message := rfl

/-- A message that asks nothing (`hplain`) uses no ticket, and keeps both
inboxes sound. -/
theorem Sound.tellCapture (h : c.Sound next) {message : CaptureMessage}
    (hplain : message.ticket? = none) : (c.tellCapture message).Sound next :=
  ⟨h.capture.tell fun _ hmem => (nomatch hplain.symm.trans hmem), h.playback⟩

/-- A message to the playback side that asks nothing (`hplain`) keeps both
inboxes sound. -/
theorem Sound.tellPlayback (h : c.Sound next) {message : PlaybackMessage}
    (hplain : message.ticket? = none) : (c.tellPlayback message).Sound next :=
  ⟨h.capture, h.playback.tell fun _ hmem => (nomatch hplain.symm.trans hmem)⟩

end Contexts

/-! ### What a question comes to -/

namespace Mailbox

variable {α σ τ : Type} {m : Mailbox α}

/-- A request that is not kept (`hfull`) waits for nothing, and the world is as
it was. -/
theorem ask_of_full (hfull : m.hasRoom = false) (request : α) (ticket : Nat) (world : σ)
    (wait : Mailbox α → σ → Mailbox α × σ × List (Reply τ)) :
    m.ask request ticket world wait = (none, (m.post request).2, world) := by
  unfold ask post
  simp [hfull]

/-- A request that is kept (`hroom`) waits, and the answer is the one with its
ticket. -/
theorem ask_of_room (hroom : m.hasRoom = true) (request : α) (ticket : Nat) (world : σ)
    (wait : Mailbox α → σ → Mailbox α × σ × List (Reply τ)) :
    m.ask request ticket world wait
      = (answerTo ticket (wait (m.post request).2 world).2.2,
          (wait (m.post request).2 world).1, (wait (m.post request).2 world).2.1) := by
  unfold ask post
  simp [hroom]

end Mailbox

namespace Contexts

variable {c : Contexts} {posts : ControlPosts} {next : Nat}

/-- A question to the capture side comes to what `Inbox.Asked` says, and uses
the ticket `next` up. -/
theorem asked_askCapture (h : (c.withPosts posts).Sound next) (acts : List Act) :
    let asked := DriftController.askCapture next posts c (captureWait acts)
    let after := asked.2.2.withPosts asked.2.1
    (c.withPosts posts).capture.Asked (.timingRequest next) asked.1 after.capture
      ∧ (c.withPosts posts).playback.Served after.playback
      ∧ after.Sound (next + 1) := by
  have hsound : ((c.withPosts posts).tellCapture (.timingRequest next)).Sound (next + 1) :=
    ⟨h.capture.ask rfl, h.playback.mono (Nat.le_succ next)⟩
  cases hroom : posts.toCapture.hasRoom with
  | false =>
      simp only [DriftController.askCapture, Mailbox.ask_of_full hroom]
      exact ⟨Inbox.asked_tell _ _, .refl _, hsound⟩
  | true =>
      simp only [DriftController.askCapture, Mailbox.ask_of_room hroom]
      have hserved := served_run ((c.withPosts posts).tellCapture (.timingRequest next)) acts
      have hafter := hsound.run acts
      exact ⟨Inbox.asked_of_kept hroom rfl h.capture hserved.capture hafter.capture,
        hserved.playback, hafter⟩

/-- A question to the playback side comes to what `Inbox.Asked` says, and uses
the ticket `next` up. -/
theorem asked_askPlayback (h : (c.withPosts posts).Sound next) (acts : List Act) :
    let asked := DriftController.askPlayback next posts c (playbackWait acts)
    let after := asked.2.2.withPosts asked.2.1
    (c.withPosts posts).playback.Asked (.timingRequest next) asked.1 after.playback
      ∧ (c.withPosts posts).capture.Served after.capture
      ∧ after.Sound (next + 1) := by
  have hsound : ((c.withPosts posts).tellPlayback (.timingRequest next)).Sound (next + 1) :=
    ⟨h.capture.mono (Nat.le_succ next), h.playback.ask rfl⟩
  cases hroom : posts.toPlayback.hasRoom with
  | false =>
      simp only [DriftController.askPlayback, Mailbox.ask_of_full hroom]
      exact ⟨Inbox.asked_tell _ _, .refl _, hsound⟩
  | true =>
      simp only [DriftController.askPlayback, Mailbox.ask_of_room hroom]
      have hserved := served_run ((c.withPosts posts).tellPlayback (.timingRequest next)) acts
      have hafter := hsound.run acts
      exact ⟨Inbox.asked_of_kept hroom rfl h.playback hserved.playback hafter.playback,
        hserved.capture, hafter⟩

end Contexts

/-! ### A check in steps -/

namespace DriftController

variable {σ : Type} (d : DriftController) (posts : ControlPosts) (world : σ)
  (captureWait : Wait σ CaptureTiming) (playbackWait : Wait σ PlaybackTiming)

/-- A check that is made step by step: `start`, then a wait for the capture side,
whose answers are heard (`hearCapture`) before the check goes on (`proceed`), then
the same with the playback side, and last the correction. It ends with the first
step that comes to an outcome. -/
def checkInSteps : DriftOutcome × DriftController × ControlPosts × σ :=
  match d.start posts with
  | (some outcome, d, posts) => (outcome, d, posts, world)
  | (none, d, posts) =>
      let (posts, world, replies) := captureWait posts world
      match (d.hearCapture replies).proceed posts with
      | (some outcome, d, posts) => (outcome, d, posts, world)
      | (none, d, posts) =>
          let (posts, world, replies) := playbackWait posts world
          match (d.hearPlayback replies).proceed posts with
          | (some outcome, d, posts) => (outcome, d, posts, world)
          | (none, d, posts) =>
              -- What is left is to correct, and that always has an outcome.
              let (outcome?, d, posts) := d.proceed posts
              (outcome?.getD .canceled, d, posts, world)

/-- A check made at once (`check`) and one made step by step (`checkInSteps`) come
to the same, whatever the world does while they wait: the same outcome, and the
same controller, mailboxes and world behind it. -/
theorem check_eq_checkInSteps :
    d.check posts world captureWait playbackWait
      = d.checkInSteps posts world captureWait playbackWait := by
  cases hroom : posts.toCapture.hasRoom with
  | false =>
      simp only [check, askCapture, Mailbox.ask_of_full hroom, checkInSteps, start,
        Mailbox.post_fst, hroom, Bool.false_eq_true, if_false]
  | true =>
      simp only [check, askCapture, Mailbox.ask_of_room hroom, checkInSteps, start,
        Mailbox.post_fst, hroom, if_true, hearCapture]
      -- The capture side is waited for, and may answer.
      generalize captureWait _ world = waited
      obtain ⟨posts', world', replies⟩ := waited
      cases Mailbox.answerTo d.nextTicket replies with
      | none => rfl
      | some capture =>
          cases hroom' : posts'.toPlayback.hasRoom with
          | false =>
              simp only [askPlayback, Mailbox.ask_of_full hroom', proceed, Mailbox.post_fst,
                hroom', Bool.false_eq_true, if_false]
              rfl
          | true =>
              simp only [askPlayback, Mailbox.ask_of_room hroom', proceed, Mailbox.post_fst,
                hroom', if_true, hearPlayback]
              -- So is the playback side.
              generalize playbackWait _ world' = waited'
              obtain ⟨posts'', world'', replies'⟩ := waited'
              cases Mailbox.answerTo (d.nextTicket + 1) replies' with
              | none => rfl
              | some playback =>
                  simp only [settle]
                  cases hcorrection : Correction.ofOffset (offset d.spec playback capture) with
                  | none => rfl
                  | urgent =>
                      simp only [hcorrection]
                      rfl
                  | nonUrgent =>
                      simp only [hcorrection]
                      rfl

end DriftController

/-! ### What a check comes to -/

/-- What a check with these tickets may come to, and what it leaves of the
contexts. There is one constructor for each way out of `DriftController.check`. -/
inductive DriftController.Checks (d : DriftController) (before : Contexts) :
    DriftOutcome → Contexts → Prop where
  /-- The capture side does not answer, and the playback side is not asked. -/
  | uncaptured {after : Contexts}
      (captured : before.capture.Asked (.timingRequest d.nextTicket) none after.capture)
      (served : before.playback.Served after.playback) :
      Checks d before .canceled after
  /-- The capture side answers, and the playback side does not. -/
  | unplayed {after : Contexts} {capture : CaptureTiming}
      (captured : before.capture.Asked (.timingRequest d.nextTicket) (some capture) after.capture)
      (played : before.playback.Asked (.timingRequest (d.nextTicket + 1)) none after.playback) :
      Checks d before .canceled after
  /-- Both sides answer, and their streams are aligned. -/
  | aligned {after : Contexts} {capture : CaptureTiming} {playback : PlaybackTiming}
      (captured : before.capture.Asked (.timingRequest d.nextTicket) (some capture) after.capture)
      (played : before.playback.Asked (.timingRequest (d.nextTicket + 1)) (some playback)
        after.playback)
      (within : Correction.ofOffset (offset d.spec playback capture) = .none) :
      Checks d before (.aligned (offset d.spec playback capture)) after
  /-- Both sides answer, and the capture side is told to realign the streams. -/
  | corrected {after : Contexts} {capture : CaptureTiming} {playback : PlaybackTiming}
      (captured : before.capture.Asked (.timingRequest d.nextTicket) (some capture) after.capture)
      (played : before.playback.Asked (.timingRequest (d.nextTicket + 1)) (some playback)
        after.playback)
      (capacity_pos : 0 < after.capture.mailbox.capacity)
      (beyond : Correction.ofOffset (offset d.spec playback capture) ≠ .none) :
      Checks d before
        (.corrected (offset d.spec playback capture)
          (.ofOffset (offset d.spec playback capture)))
        (after.tellCapture (.correct (offset d.spec playback capture)))

namespace DriftController.Checks

variable {d : DriftController} {before after : Contexts} {outcome : DriftOutcome}

/-- A check is canceled exactly if one of the two sides did not answer its own
question. Each constructor of `Checks` holds one of the two, or an answer of
either side (`own`). -/
theorem eq_canceled_iff (h : d.Checks before outcome after) :
    outcome = .canceled
      ↔ before.capture.ownAnswer? after.capture = none
        ∨ before.playback.ownAnswer? after.playback = none := by
  cases h with
  | uncaptured captured served => exact ⟨fun _ => Or.inl captured.own, fun _ => rfl⟩
  | unplayed captured played => exact ⟨fun _ => Or.inr played.own, fun _ => rfl⟩
  | aligned captured played within =>
      refine ⟨fun hcanceled => (nomatch hcanceled), fun hnone => ?_⟩
      rcases hnone with hnone | hnone
      · exact absurd hnone captured.own_ne_none
      · exact absurd hnone played.own_ne_none
  | corrected captured played capacity_pos beyond =>
      refine ⟨fun hcanceled => (nomatch hcanceled), fun hnone => ?_⟩
      rcases hnone with hnone | hnone
      · exact absurd hnone captured.own_ne_none
      · exact absurd hnone played.own_ne_none

/-- The playback side is asked when the capture side has answered, and is
offered nothing otherwise. `own_ne_none` tells the cases in which the capture
side did answer. -/
theorem offered_playback (h : d.Checks before outcome after) :
    before.playback.Offered
      (if before.capture.ownAnswer? after.capture = none then []
        else [.timingRequest (d.nextTicket + 1)]) after.playback := by
  cases h with
  | uncaptured captured served =>
      rw [if_pos captured.own]
      exact served.offered
  | unplayed captured played =>
      rw [if_neg captured.own_ne_none]
      exact played.offered
  | aligned captured played within =>
      rw [if_neg captured.own_ne_none]
      exact played.offered
  | corrected captured played capacity_pos beyond =>
      rw [Contexts.capture_tellCapture, Inbox.ownAnswer?_tell, if_neg captured.own_ne_none]
      exact played.offered

/-- The offset between the two answers decides: inside the tolerance nothing is
to be corrected, and otherwise `Correction.ofOffset` says how urgently. -/
theorem outcome_eq (h : d.Checks before outcome after) {capture : CaptureTiming}
    {playback : PlaybackTiming} (hcapture : before.capture.ownAnswer? after.capture = some capture)
    (hplayback : before.playback.ownAnswer? after.playback = some playback) :
    let usec := offset d.spec playback capture
    outcome = if 0 ≤ usec ∧ usec ≤ maxAlignedUsec then .aligned usec
      else .corrected usec (.ofOffset usec) := by
  cases h with
  | uncaptured captured served => exact nomatch captured.own.symm.trans hcapture
  | unplayed captured played => exact nomatch played.own.symm.trans hplayback
  | aligned captured played within =>
      obtain rfl := Option.some.inj (captured.own.symm.trans hcapture)
      obtain rfl := Option.some.inj (played.own.symm.trans hplayback)
      exact (if_pos ((Correction.ofOffset_eq_none_iff _).mp within)).symm
  | corrected captured played capacity_pos beyond =>
      obtain rfl := Option.some.inj (captured.own.symm.trans hcapture)
      obtain rfl := Option.some.inj (played.own.symm.trans hplayback)
      exact (if_neg fun hin => beyond ((Correction.ofOffset_eq_none_iff _).mpr hin)).symm

/-- The capture side is offered the request, and behind it what the outcome has
in `corrections`, if anything. -/
theorem offered_capture (h : d.Checks before outcome after) :
    before.capture.Offered (.timingRequest d.nextTicket :: outcome.corrections) after.capture := by
  cases h with
  | uncaptured captured served => exact captured.offered
  | unplayed captured played => exact captured.offered
  | aligned captured played within => exact captured.offered
  | corrected captured played capacity_pos beyond => exact captured.offered.append (.tell _ _)

/-- A capture side that is still there (`hopen`) gets the correction, right
behind the request. -/
theorem posted_corrected {usec : Int} {correction : Correction}
    (h : d.Checks before (.corrected usec correction) after)
    (hopen : after.capture.mailbox.closed = false) :
    after.capture.posted
      = before.capture.posted ++ [.timingRequest d.nextTicket, .correct usec] := by
  cases h with
  | corrected captured played capacity_pos beyond =>
      exact captured.posted_tell capacity_pos ((Mailbox.closed_post _ _).symm.trans hopen) _

end DriftController.Checks

namespace DriftScene

variable {s : DriftScene}

/-- The tickets of the scene are below `nextTicket` of its controller, so that a
question never has the ticket of an older one. -/
structure Sound (spec : StreamSpec) (s : DriftScene) : Prop where
  spec_eq : s.controller.spec = spec
  contexts : s.contexts.Sound s.controller.nextTicket

/-- A check leaves the controller `idle`, and uses two tickets up. -/
theorem controller_check (s : DriftScene) (whileCapture whilePlayback : List Act) :
    (s.check whileCapture whilePlayback).2.controller
      = { s.controller with phase := .idle, nextTicket := s.controller.nextTicket + 2 } := by
  unfold check DriftController.check
  simp only
  split
  · rfl
  · split
    · rfl
    · rfl

/-- A check of sound contexts comes to one of the cases of
`DriftController.Checks`, and leaves them sound below the next ticket. -/
theorem checks_check (h : s.contexts.Sound s.controller.nextTicket)
    (whileCapture whilePlayback : List Act) :
    s.controller.Checks s.contexts (s.check whileCapture whilePlayback).1
        (s.check whileCapture whilePlayback).2.contexts
      ∧ (s.check whileCapture whilePlayback).2.contexts.Sound (s.controller.nextTicket + 2) := by
  have hbefore : (s.contexts.withPosts s.contexts.posts).Sound s.controller.nextTicket := h
  obtain ⟨hasked, hserved, hsound⟩ := Contexts.asked_askCapture hbefore whileCapture
  unfold check DriftController.check
  generalize DriftController.askCapture s.controller.nextTicket s.contexts.posts s.contexts
    (Contexts.captureWait whileCapture) = asked at hasked hserved hsound ⊢
  obtain ⟨captured, posts, world⟩ := asked
  cases captured with
  | none => exact ⟨.uncaptured hasked hserved, hsound.mono (Nat.le_succ _)⟩
  | some capture =>
      obtain ⟨hasked', hserved', hsound'⟩ := Contexts.asked_askPlayback hsound whilePlayback
      simp only
      generalize DriftController.askPlayback (s.controller.nextTicket + 1) posts world
        (Contexts.playbackWait whilePlayback) = asked' at hasked' hserved' hsound' ⊢
      obtain ⟨played, posts', world'⟩ := asked'
      -- Both contexts act during either wait: what the capture side does later
      -- takes no answer back, and what the playback side did before is no answer.
      have hcaptured := hasked.served hserved'
      have hplayed := hasked'.after hserved hsound.playback
      cases played with
      | none => exact ⟨.unplayed hcaptured hplayed, hsound'⟩
      | some playback =>
          simp only [DriftController.settle]
          split
          · next hnone => exact ⟨.aligned hcaptured hplayed hnone, hsound'⟩
          · next hsome =>
              exact ⟨.corrected hcaptured hplayed hsound'.capture.capacity_pos hsome,
                hsound'.tellCapture rfl⟩

/-! ### After any history -/

/-- A new scene is `Sound`, as nothing was posted yet. -/
theorem sound_create (spec : StreamSpec) (captureCapacity playbackCapacity : Nat) :
    (create spec captureCapacity playbackCapacity).Sound spec :=
  ⟨rfl, Inbox.sound_create 0 captureCapacity, Inbox.sound_create 0 playbackCapacity⟩

variable {spec : StreamSpec}

/-- Whatever happens keeps a scene sound, one case for each `DriftStep`. -/
theorem Sound.perform (h : s.Sound spec) (step : DriftStep) : (s.perform step).Sound spec := by
  cases step with
  | act act => exact ⟨h.spec_eq, h.contexts.perform act⟩
  | tellCapture message =>
      simp only [DriftScene.perform]
      split
      · next hplain => exact ⟨h.spec_eq, h.contexts.tellCapture hplain⟩
      · exact h
  | tellPlayback message =>
      simp only [DriftScene.perform]
      split
      · next hplain => exact ⟨h.spec_eq, h.contexts.tellPlayback hplain⟩
      · exact h
  | check whileCapture whilePlayback =>
      have hcontroller := s.controller_check whileCapture whilePlayback
      refine ⟨?_, ?_⟩
      · simp only [DriftScene.perform, hcontroller]
        exact h.spec_eq
      · simp only [DriftScene.perform, hcontroller]
        exact (checks_check h.contexts whileCapture whilePlayback).2

/-- Any `history` leaves a scene sound, by induction on its steps. -/
theorem Sound.run (h : s.Sound spec) (history : List DriftStep) : (s.run history).Sound spec := by
  induction history generalizing s with
  | nil => exact h
  | cons step rest ih => exact ih (h.perform step)

/-- After any `history`, a check is canceled when one of its own two requests
was not answered while it waited (`Inbox.ownAnswer?`), and no other. The playback
side is asked if the capture side has answered. From the two answers, and from
no other, the offset is computed (`offset`), which a validated `spec` always
allows (`offset?`). It is aligned from 0 to 1000 microseconds, and otherwise
offered to the capture side as a correction, once (`Inbox.Offered`). Only a
capture side that has gone does not get it. -/
theorem outcome_of_own_answers (spec : StreamSpec) (captureCapacity playbackCapacity : Nat)
    (history : List DriftStep) (whileCapture whilePlayback : List Act) :
    let before := (create spec captureCapacity playbackCapacity).run history
    let outcome := (before.check whileCapture whilePlayback).1
    let after := (before.check whileCapture whilePlayback).2
    let captured := before.contexts.capture.ownAnswer? after.contexts.capture
    let played := before.contexts.playback.ownAnswer? after.contexts.playback
    after.controller.phase = .idle
      ∧ (outcome = .canceled ↔ captured = none ∨ played = none)
      ∧ (∃ ticket, before.contexts.playback.Offered
          (if captured = none then [] else [.timingRequest ticket]) after.contexts.playback)
      ∧ (∀ capture playback, captured = some capture → played = some playback →
          let usec := offset spec playback capture
          (spec.validate = .ok () → offset? spec playback capture = .ok usec)
            ∧ outcome = if 0 ≤ usec ∧ usec ≤ 1000 then .aligned usec
              else .corrected usec (.ofOffset usec))
      ∧ ∃ ticket,
          before.contexts.capture.Offered (.timingRequest ticket :: outcome.corrections)
            after.contexts.capture
          ∧ ∀ usec correction, outcome = .corrected usec correction →
              after.contexts.capture.mailbox.closed = false →
              after.contexts.capture.posted
                = before.contexts.capture.posted ++ [.timingRequest ticket, .correct usec] := by
  intro before outcome after captured played
  -- After any history a context has answered only what it took, and this is
  -- all that the cases of a check need.
  have hsound : before.Sound spec :=
    (sound_create spec captureCapacity playbackCapacity).run history
  have hchecks : before.controller.Checks before.contexts outcome after.contexts :=
    (checks_check hsound.contexts whileCapture whilePlayback).1
  have hidle : after.controller.phase = .idle :=
    congrArg DriftController.phase (before.controller_check whileCapture whilePlayback)
  refine ⟨hidle, hchecks.eq_canceled_iff, ⟨_, hchecks.offered_playback⟩,
    fun capture playback hcapture hplayback => ?_, _, hchecks.offered_capture,
    fun usec correction houtcome hopen => ?_⟩
  · have houtcome := hchecks.outcome_eq hcapture hplayback
    rw [hsound.spec_eq] at houtcome
    exact ⟨fun hvalid => offset?_of_validate hvalid playback capture, houtcome⟩
  · rw [houtcome] at hchecks
    exact hchecks.posted_corrected hopen

/-- The request of a first check is taken after that check, and a second check
finds no room. During the third, the first request is answered before the third.
The hypotheses of `outcome_of_own_answers` are met, with the `late` answer among
those to be passed over. -/
theorem outcome_of_own_answers_trial :
    let history : List DriftStep :=
      [.check [] [], .tellCapture (.correct 0), .check [] [], .act (.capture .take)]
    let late : CaptureTiming := ⟨9000, 0, 0, 0, 0, 0⟩
    let capture : CaptureTiming := ⟨1000, 0, 0, 0, 0, 0⟩
    let playback : PlaybackTiming := ⟨6000, 0, 0, 0⟩
    let whileCapture : List Act :=
      [.capture (.answer 0 late), .capture .take, .capture .take, .capture (.answer 4 capture)]
    let whilePlayback : List Act := [.playback .take, .playback (.answer 5 playback)]
    let before := (create .speech 2 1).run history
    let outcome := (before.check whileCapture whilePlayback).1
    let after := (before.check whileCapture whilePlayback).2
    before.contexts.capture.mailbox.dropped = 1
      ∧ after.contexts.capture.answers = [⟨0, late⟩, ⟨4, capture⟩]
      ∧ before.contexts.capture.ownAnswer? after.contexts.capture = some capture
      ∧ before.contexts.playback.ownAnswer? after.contexts.playback = some playback
      ∧ offset? .speech playback capture = .ok 5000
      ∧ outcome = .corrected 5000 .nonUrgent
      ∧ ∃ ticket, after.contexts.capture.posted
          = before.contexts.capture.posted ++ [.timingRequest ticket, .correct 5000] := by
  intro history late capture playback whileCapture whilePlayback before outcome after
  obtain ⟨-, -, -, houtcome, ticket, -, hposted⟩ :=
    outcome_of_own_answers .speech 2 1 history whileCapture whilePlayback
  have hcapture : before.contexts.capture.ownAnswer? after.contexts.capture = some capture := by
    decide +kernel
  have hplayback : before.contexts.playback.ownAnswer? after.contexts.playback = some playback := by
    decide +kernel
  obtain ⟨hoffset, hdecided⟩ := houtcome capture playback hcapture hplayback
  have hcorrected : outcome = .corrected 5000 .nonUrgent := hdecided.trans (by decide +kernel)
  have hmeasured : offset .speech playback capture = 5000 := by decide +kernel
  exact ⟨by decide +kernel, rfl, hcapture, hplayback,
    (hoffset rfl).trans (congrArg Except.ok hmeasured), hcorrected, ticket,
    hposted 5000 .nonUrgent hcorrected (by decide +kernel)⟩

end DriftScene

end EchoAlign
