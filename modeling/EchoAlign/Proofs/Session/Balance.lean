import EchoAlign.Proofs.Session.Start
import EchoAlign.Proofs.Session.Steps

/-!
# `EchoAlign.Proofs.Session.Balance`: the byte counts of the two sides

The playback side counts what it sends and the capture side what it
receives. What lies between the counts lies in the data mailbox:

* `sent_sub_received`: the difference of the counts is the number of
  bytes in the mailbox, less those that are to be taken back.
* In particular the counts agree whenever playback timing is handled,
  and this is why a resync measures the two sides at one place in the
  stream.

`Balanced` is the invariant behind both. A timing message that waits
carries the count that the capture side is going to have when it gets
there (`Timely`).
-/

set_option autoImplicit false

namespace EchoAlign

/-- The playback bytes that messages carry, less those they take back
(`CaptureMessage.balance`). -/
def inFlight : List CaptureMessage → Int
  | [] => 0
  | message :: rest => message.balance + inFlight rest

/-- The playback bytes that messages carry: those of the `rendered` blocks. -/
def postedBytes : List CaptureMessage → Nat
  | [] => 0
  | .rendered block :: rest => block.size + postedBytes rest
  | _ :: rest => postedBytes rest

/-- The playback bytes that messages take back, those that are `rewound`. -/
def rewoundBytes : List CaptureMessage → Nat
  | [] => 0
  | .rewound bytes :: rest => bytes + rewoundBytes rest
  | _ :: rest => rewoundBytes rest

/-- What is on its way are the bytes that messages carry (`postedBytes`), less
those that they take back (`rewoundBytes`). -/
theorem inFlight_eq (messages : List CaptureMessage) :
    inFlight messages = (postedBytes messages : Int) - rewoundBytes messages := by
  induction messages with
  | nil => rfl
  | cons message rest ih =>
      rw [inFlight, ih]
      cases message with
      | rendered block =>
          simp only [CaptureMessage.balance, postedBytes, rewoundBytes]
          omega
      | rewound bytes =>
          simp only [CaptureMessage.balance, postedBytes, rewoundBytes]
          omega
      | _ => exact Int.zero_add _

/-- A message that is posted behind others adds its `balance` to what is on its
way. -/
theorem inFlight_append_singleton (messages : List CaptureMessage) (message : CaptureMessage) :
    inFlight (messages ++ [message]) = inFlight messages + message.balance := by
  induction messages with
  | nil => exact Int.add_comm _ _
  | cons first rest ih =>
      rw [List.cons_append, inFlight, inFlight, ih, Int.add_assoc]

/-- Every timing among the messages was taken when as many bytes had been `sent`
as will have been `received` when its turn comes. -/
def Timely : Int → List CaptureMessage → Prop
  | _, [] => True
  | received, message :: rest =>
      (∀ epoch timing, message = .playbackTiming epoch timing → timing.sent = received)
        ∧ Timely (received + message.balance) rest

/-- A timing that is posted behind other messages is timely if it counts what
will have been received by then. The last message is the only one that `Timely`
has not seen yet. -/
theorem timely_append_singleton {received : Int} {messages : List CaptureMessage}
    {message : CaptureMessage} :
    Timely received (messages ++ [message]) ↔ Timely received messages
      ∧ ∀ epoch timing, message = .playbackTiming epoch timing →
          timing.sent = received + inFlight messages := by
  induction messages generalizing received with
  | nil => simp [Timely, inFlight]
  | cons first rest ih =>
      -- What follows the first message is counted from behind it.
      have hcount : received + first.balance + inFlight rest
          = received + inFlight (first :: rest) := by
        rw [inFlight, Int.add_assoc]
      rw [List.cons_append]
      simp only [Timely, ih, hcount, and_assoc]

namespace Session

variable {κ υ : Type}

/-- What lies between the counts of the two sides, `Playback.sent` and
`Capture.received`, is in the data mailbox. Every timing in it is `Timely`. -/
structure Balanced (s : Session κ υ) : Prop where
  control : s.ControlOnly
  /-- Every rewind fits a word. -/
  word : ∀ n, .rewound n ∈ s.data.items → n ≤ Word.maxSigned
  agree : ∀ c p, s.capture? = some c → s.playback? = some p →
    p.sent = c.received + inFlight s.data.items
  timely : ∀ c, s.capture? = some c → Timely c.received s.data.items

/-- Every timing that the capture side has `handled` carried its count: as much
had been sent as had been received. -/
def Met (entries : List Entry) : Prop :=
  ∀ epoch timing received, .handled (.playbackTiming epoch timing) received ∈ entries →
    timing.sent = received

/-- An operation takes back no more bytes than a word can count
(`Word.maxSigned`). Only then do both sides take off the same number. -/
def FitsWord (operation : Operation) : Prop :=
  ∀ n, operation = .rewindPlayback n → n ≤ Word.maxSigned

/-- The balance is kept where neither count nor the mailbox between them
changes. Most steps are of this kind. The two counts are `Capture.received` and
`Playback.sent`, and between them are the `CaptureMessage.balance`s of the
mailbox. -/
theorem Balanced.congr {s t : Session κ υ} (h : s.Balanced)
    (hcontrol : t.ControlOnly) (hdata : t.data.items = s.data.items)
    (hcapture : ∀ c, t.capture? = some c → ∃ c', s.capture? = some c' ∧ c'.received = c.received)
    (hplayback : ∀ p, t.playback? = some p → ∃ p', s.playback? = some p' ∧ p'.sent = p.sent) :
    t.Balanced := by
  refine ⟨hcontrol, ?_, ?_, ?_⟩
  · rw [hdata]
    exact h.word
  · intro c p hc hp
    obtain ⟨c', hc', hreceived⟩ := hcapture c hc
    obtain ⟨p', hp', hsent⟩ := hplayback p hp
    rw [hdata, ← hreceived, ← hsent]
    exact h.agree c' p' hc' hp'
  · intro c hc
    obtain ⟨c', hc', hreceived⟩ := hcapture c hc
    rw [hdata, ← hreceived]
    exact h.timely c' hc'

/-- The balance is kept when the capture side handles a message. What it counts
in `received` leaves the mailbox. -/
theorem Balanced.handleData {s : Session κ υ} (h : s.Balanced) {c : Capture κ}
    {message : CaptureMessage} {rest : Mailbox CaptureMessage} (hc : s.capture? = some c)
    (hrest : s.data.Takes [message] rest) :
    ({ s with
      capture? := some (c.handle s.link message).1
      link := (c.handle s.link message).2
      data := rest } : Session κ υ).Balanced := by
  have hitems : s.data.items = message :: rest.items := hrest.items
  have hcount := c.received_handle s.link message fun n hn =>
    h.word n (by rw [hitems, hn]; exact List.mem_cons_self)
  refine ⟨h.control, ?_, ?_, ?_⟩
  · intro n hn
    exact h.word n (by rw [hitems]; exact List.mem_cons_of_mem _ hn)
  · intro c' p hc' hp
    cases hc'
    have hagree := h.agree c p hc hp
    rw [hitems] at hagree
    rw [inFlight] at hagree
    show p.sent = (c.handle s.link message).1.received + inFlight rest.items
    rw [hcount]
    omega
  · intro c' hc'
    cases hc'
    have htimely := h.timely c hc
    rw [hitems] at htimely
    rw [hcount]
    exact htimely.2

/-- The balance is kept when the playback side offers a message to the mailbox
and counts it exactly if it is taken. `hitems` says that the message waits if
there is room, and the hypotheses behind it that `Playback.sent` goes up by its
balance just then. -/
theorem Balanced.post {s : Session κ υ} (h : s.Balanced) {p : Playback υ}
    (hp : s.playback? = some p) {scene : PlaybackScene υ} {message : CaptureMessage}
    (hitems : scene.data.items
      = if s.data.hasRoom then s.data.items ++ [message] else s.data.items)
    (hsent : scene.playback.sent = if s.data.hasRoom then p.sent + message.balance else p.sent)
    (hword : ∀ n, message = .rewound n → n ≤ Word.maxSigned)
    (htimely : ∀ epoch timing, message = .playbackTiming epoch timing → timing.sent = p.sent) :
    (s.withScene scene).Balanced := by
  cases hroom : s.data.hasRoom with
  | false =>
      -- A message that is lost counts on neither side.
      rw [hroom] at hitems hsent
      exact h.congr h.control hitems (fun c hc => ⟨c, hc, rfl⟩) fun p' hp' => by
        cases hp'
        exact ⟨p, hp, hsent.symm⟩
  | true =>
      rw [hroom, if_pos rfl] at hitems hsent
      refine ⟨h.control, ?_, ?_, ?_⟩
      · intro n hn
        rw [show (s.withScene scene).data.items = _ from hitems] at hn
        rcases List.mem_append.mp hn with hn | hn
        · exact h.word n hn
        · exact hword n (List.mem_singleton.mp hn).symm
      · intro c p' hc hp'
        cases hp'
        have hagree := h.agree c p hc hp
        rw [show (s.withScene scene).data.items = _ from hitems, inFlight_append_singleton, hsent]
        omega
      · intro c hc
        rw [show (s.withScene scene).data.items = _ from hitems, timely_append_singleton]
        refine ⟨h.timely c hc, fun epoch timing hm => ?_⟩
        rw [htimely epoch timing hm]
        exact h.agree c p hc hp

variable [Canceller κ] [Producer υ]

/-- Every step keeps the balance (`Balanced`), as long as rewinds fit a word. -/
theorem Balanced.step {s t : Session κ υ} {entries : List Entry} (h : s.Balanced)
    (hstep : Step FitsWord s entries t) : t.Balanced := by
  have hcontrol := h.control.step hstep
  -- Most steps touch neither count.
  have hsame : t.data.items = s.data.items → t.capture? = s.capture? →
      t.playback? = s.playback? → t.Balanced := by
    intro hdata hcapture hplayback
    exact h.congr hcontrol hdata (fun c hc => ⟨c, hcapture ▸ hc, rfl⟩)
      fun p hp => ⟨p, hplayback ▸ hp, rfl⟩
  have hcapture : ∀ {c c' : Capture κ} {link : Link}, s.capture? = some c →
      c'.received = c.received →
      ({ s with capture? := some c', link } : Session κ υ).Balanced := by
    intro c c' link hc hreceived
    exact h.congr h.control rfl (fun c'' hc'' => ⟨c, hc, by cases hc''; exact hreceived.symm⟩)
      fun p hp => ⟨p, hp, rfl⟩
  cases hstep with
  | reportCapture running ha hnew =>
      rw [postCapture_eq] at hsame ⊢
      exact hsame rfl rfl rfl
  | reportPlayback running ha hnew =>
      rw [postPlayback_eq] at hsame ⊢
      exact hsame rfl rfl rfl
  | postCapture message hm =>
      rw [postCapture_eq] at hsame ⊢
      exact hsame rfl rfl rfl
  | repack hcontrol hdata hplayback => exact hsame hdata.items.symm rfl rfl
  | @handleControl c message rest hc hrest =>
      -- The control side sends no audio, so that nothing is counted.
      have hmessage : message.isData = false :=
        h.control message (by rw [hrest.items]; exact List.mem_cons_self)
      have hcount := c.received_handle s.link message fun n hn => by
        rw [hn] at hmessage
        cases hmessage
      rw [CaptureMessage.balance_of_not_isData hmessage, Int.add_zero] at hcount
      exact h.congr hcontrol rfl (fun c' hc' => ⟨_, hc, by cases hc'; exact hcount.symm⟩)
        fun p hp => ⟨p, hp, rfl⟩
  | handleData message hc hrest => exact h.handleData hc hrest
  | @handlePlayback p message rest hp hrest =>
      have hsent := (p.fst_handle s.link message).1
      exact h.congr h.control rfl (fun c hc => ⟨c, hc, rfl⟩)
        fun p' hp' => ⟨_, hp, by cases hp'; exact hsent.symm⟩
  | resume hc hresuming => exact hcapture hc rfl
  | accept block hc ha => exact hcapture hc (Capture.received_accept _ block)
  | pair hc hstep =>
      exact h.congr h.control rfl (fun c' hc' => ⟨_, hc, by cases hc'; rfl⟩)
        fun p hp => ⟨p, hp, rfl⟩
  | rewindCapture n hc ha => exact hcapture hc rfl
  | correct usec hc ha => exact hcapture hc rfl
  | @play p n hp hlinked ha =>
      exact h.post hp ((s.scene p).items_play n) ((s.scene p).sent_play n) nofun nofun
  | @sendTiming p hp =>
      cases howes : (s.scene p).owesTiming with
      | false =>
          rw [((s.scene p).sendTiming_of_not_owesTiming howes).1] at hsame ⊢
          exact hsame rfl rfl hp.symm
      | true =>
          obtain ⟨hitems, hplayback, -⟩ := (s.scene p).sendTiming_of_owesTiming howes
          refine h.post hp hitems ?_ nofun ?_
          · rw [hplayback]
            cases hroom : s.data.hasRoom with
            | false =>
                simp only [scene, hroom]
                rfl
            | true =>
                simp only [scene, hroom, if_true]
                exact (Int.add_zero _).symm
          · intro epoch timing ht
            cases ht
            rfl
  | @rewindPlayback p n hp ha =>
      have hword := ha n rfl
      refine h.post hp ((s.scene p).items_rewind n) ?_ ?_ nofun
      · rw [(s.scene p).sent_rewind n, Word.signed_natCast hword, Int.sub_eq_add_neg]
        rfl
      · intro m hm
        cases hm
        exact hword
  | dropCapture hc ha =>
      refine ⟨hcontrol, ?_, ?_, ?_⟩
      · intro n hn
        exact absurd hn List.not_mem_nil
      · intro c p hc
        cases hc
      · intro c hc
        cases hc
  | dropPlayback hp ha =>
      refine ⟨hcontrol, h.word, fun c p hc hp => ?_, h.timely⟩
      cases hp
  | _ => exact hsame rfl rfl rfl

omit [Producer υ] in
/-- A new session has sent nothing and received nothing, and so it is
`Balanced`. -/
theorem IsNew.balanced {s : Session κ υ} (h : s.IsNew) : s.Balanced := by
  obtain ⟨spec, capacity, canceller, producer, link, dumps?, rfl, -⟩ := h.opened
  refine ⟨?_, ?_, ?_, fun c hc => trivial⟩
  · intro m hm
    exact absurd hm List.not_mem_nil
  · intro n hn
    exact absurd hn List.not_mem_nil
  · intro c p hc hp
    cases hc
    cases hp
    rfl

/-- Timing that is handled is the next message, so that it carries the present
count (`Met`). -/
theorem Balanced.met {s t : Session κ υ} {entries : List Entry} (h : s.Balanced)
    (hstep : Step FitsWord s entries t) : Met entries := by
  intro epoch timing received hhandled
  obtain ⟨c, hc, rfl, rest, hcontrol | hdata⟩ := hstep.of_handled hhandled
  · -- The control side sends no timing.
    cases h.control _ (hcontrol ▸ List.mem_cons_self)
  · have htimely := h.timely c hc
    rw [hdata] at htimely
    exact htimely.1 epoch timing rfl

/-- The balance holds at any point between any two steps (`Balanced`), and every
timing that has been handled until then carried its count (`Met`). -/
theorem IsNew.balanced_steps {s t : Session κ υ} {entries : List Entry} (h : s.IsNew)
    (hsteps : Steps FitsWord s entries t) : t.Balanced ∧ Met entries := by
  refine hsteps.induct (motive := fun t entries => t.Balanced ∧ Met entries)
    ⟨h.balanced, fun _ _ _ hm => nomatch hm⟩ ?_
  intro t u before entries ⟨hbalanced, hmet⟩ hstep
  refine ⟨hbalanced.step hstep, fun epoch timing received hhandled => ?_⟩
  rcases List.mem_append.mp hhandled with hhandled | hhandled
  · exact hmet epoch timing received hhandled
  · exact hbalanced.met hstep epoch timing received hhandled

/-- Whatever happens to a session, what its playback side has sent beyond what
its capture side has received is in the data mailbox: the bytes of its messages
(`postedBytes`) less those they take back (`rewoundBytes`). Playback timing is
handled when both counts agree. Only rewinds beyond `Word.maxSigned` are left
out. -/
theorem sent_sub_received {s : Session κ υ} (hnew : s.IsNew) {operations : List Operation}
    (hword : ∀ n, .rewindPlayback n ∈ operations → n ≤ Word.maxSigned) :
    (∀ c p, (s.run operations).2.capture? = some c → (s.run operations).2.playback? = some p →
        p.sent - c.received = (postedBytes (s.run operations).2.data.items : Int)
          - rewoundBytes (s.run operations).2.data.items)
      ∧ ∀ epoch timing received,
          .handled (.playbackTiming epoch timing) received ∈ s.journalOf operations →
          received = timing.sent := by
  have hfits : ∀ operation ∈ operations, FitsWord operation := by
    intro operation hmem n heq
    exact hword n (heq ▸ hmem)
  obtain ⟨hbalanced, hmet⟩ := hnew.balanced_steps (s.steps_run hfits)
  constructor
  · intro c p hc hp
    have hagree := hbalanced.agree c p hc hp
    rw [inFlight_eq] at hagree
    omega
  · intro epoch timing received hm
    exact (hmet epoch timing received hm).symm

/-- The hypotheses of `sent_sub_received` are met by a render, a rewind and two
requests for a resync, the timing of one of which is handled. -/
theorem sent_sub_received_trial :
    let operations : List Operation :=
      [.requestResync, .render 8, .push (.silence 4), .requestResync, .render 4, .rewindPlayback 2]
    (trial.run operations).2.playback?.map (·.sent) = some 10
      ∧ (trial.run operations).2.capture?.map (·.received) = some 8
      ∧ (trial.journalOf operations).countP Entry.isResync = 1
      ∧ ((∀ c p, (trial.run operations).2.capture? = some c →
          (trial.run operations).2.playback? = some p →
          p.sent - c.received = (postedBytes (trial.run operations).2.data.items : Int)
            - rewoundBytes (trial.run operations).2.data.items)
        ∧ ∀ epoch timing received,
            .handled (.playbackTiming epoch timing) received ∈ trial.journalOf operations →
            received = timing.sent) := by
  intro operations
  refine ⟨by decide +kernel, by decide +kernel, by decide +kernel,
    sent_sub_received isNew_trial ?_⟩
  intro n hn
  simp only [operations, List.mem_cons, Operation.rewindPlayback.injEq, reduceCtorEq, false_or,
    List.not_mem_nil, or_false] at hn
  subst hn
  decide

end Session

end EchoAlign
