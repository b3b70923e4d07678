import EchoAlign.Proofs.Session.Plain
import EchoAlign.Proofs.Session.Steps

/-!
# `EchoAlign.Proofs.Session.Reference`: playback on its way to the canceller

Rendered audio goes through the data mailbox and the tape of played audio
to the canceller. As long as no device is suspended, nothing is taken
back, and neither the mailbox nor the tape runs out of room, none of it
is lost, and none is moved or repeated, whatever is corrected on the way.

* `reference_conserved`: the audio that was rendered is the audio that
  was taken off the tape, what is on the tape, and what is in the
  mailbox, in this order.
* `Calls`: what was taken off the tape was either the playback of one run
  of the canceller, or dropped to realign.

`Flowing` is the invariant behind it.
-/

set_option autoImplicit false

namespace EchoAlign

/-! ### Audio that passes by -/

/-- The bytes of blocks that follow each other (`toList`), with nothing between
them. -/
def bytesOfBlocks (blocks : List Block) : List UInt8 := blocks.flatMap Block.toList

/-- The bytes of blocks in two parts are those of the first part and then of the
second, as `bytesOfBlocks` goes block by block. -/
theorem bytesOfBlocks_append (first rest : List Block) :
    bytesOfBlocks (first ++ rest) = bytesOfBlocks first ++ bytesOfBlocks rest :=
  List.flatMap_append

/-- The block that comes first, if there is one, goes in front of the others;
`Option.toList` makes a list of it. -/
theorem filterMap_cons_toList {α : Type} (block? : α → Option Block) (a : α) (rest : List α) :
    (a :: rest).filterMap block? = (block? a).toList ++ rest.filterMap block? := by
  cases hblock : block? a with
  | none =>
      rw [List.filterMap_cons_none hblock]
      rfl
  | some block =>
      rw [List.filterMap_cons_some hblock]
      rfl

/-- The block an event hands to the playback device, in `Event.rendered`. -/
def Event.rendered? : Event → Option Block
  | rendered block => some block
  | _ => none

/-- The rendered audio in a message to the capture side, in
`CaptureMessage.rendered`. -/
def CaptureMessage.rendered? : CaptureMessage → Option Block
  | rendered block => some block
  | _ => none

/-- The runs of the canceller that events tell of: each gets two blocks
of `size` bytes, hands its result on, and leaves the canceller to the
next. -/
def Calls {κ : Type} [Canceller κ] (size : Nat) : κ → List Event → κ → Prop
  | first, [], last => last = first
  | first, .cancelled captured played cleaned :: rest, last =>
      captured.size = size ∧ played.size = size
        ∧ cleaned.bytes = (Canceller.run first captured.bytes played.bytes).1
        ∧ Calls size (Canceller.run first captured.bytes played.bytes).2 rest last
  | first, _ :: rest, last => Calls size first rest last

/-- Two stretches of calls in a row make up one: `Calls` leads from one
canceller to the next. -/
theorem Calls.append {κ : Type} [Canceller κ] {size : Nat} {k k' k'' : κ}
    {first rest : List Event} (h : Calls size k first k') (h' : Calls size k' rest k'') :
    Calls size k (first ++ rest) k'' := by
  induction first generalizing k with
  | nil =>
      cases h
      exact h'
  | cons event first ih =>
      cases event with
      | cancelled captured played cleaned =>
          obtain ⟨hcaptured, hplayed, hcleaned, hnext⟩ := h
          exact ⟨hcaptured, hplayed, hcleaned, ih hnext⟩
      | _ => exact ih h

/-! ### What leaves the reference alone -/

/-- Neither gives audio back, nor suspends a device (a report that is not
`running`), nor takes the session apart. What is left is rendering, capturing,
correcting and asking. -/
def Operation.isSteady : Operation → Bool
  | rewindPlayback _ => false
  | rewindCapture _ => false
  | reportDevice _ running => running
  | shutdown => false
  | dropControl => false
  | dropCapture => false
  | dropPlayback => false
  | _ => true

/-- Neither takes audio back nor suspends a device; the message of an `isSteady`
operation is steady. -/
def CaptureMessage.isSteady : CaptureMessage → Bool
  | rewound _ => false
  | device .suspended => false
  | _ => true

/-- A question or a correction from the control side (`isControl`) is steady:
neither touches the playback that waits. -/
theorem CaptureMessage.isSteady_of_isControl {message : CaptureMessage}
    (h : message.isControl = true) : message.isSteady = true := by
  cases message <;> first | rfl | cases h

/-- Only a data message (`isData`) brings rendered audio. -/
theorem CaptureMessage.rendered?_of_not_isData {message : CaptureMessage}
    (h : message.isData = false) : message.rendered? = none := by
  cases message <;> first | rfl | cases h

/-- The playback of a capture side is left alone: the list `played` and all that
decides on it stay the same. -/
structure PlainCapture.Keeps {κ : Type} (c next : PlainCapture κ) : Prop where
  suspended_eq : next.suspended = c.suspended
  resuming_eq : next.resuming = c.resuming
  blockBytes_eq : next.backlog.blockBytes = c.backlog.blockBytes
  played_eq : next.backlog.played = c.backlog.played
  canceller_eq : next.backlog.canceller = c.backlog.canceller

namespace PlainCapture

variable {κ : Type} {c : PlainCapture κ}

/-- A side that does not change keeps its playback: `Keeps` is reflexive. -/
theorem Keeps.refl (c : PlainCapture κ) : c.Keeps c := ⟨rfl, rfl, rfl, rfl, rfl⟩

/-- Captured audio that arrives leaves the playback alone, as `accept` works on
the other list. -/
theorem keeps_accept (c : PlainCapture κ) (block : List UInt8) : c.Keeps (c.accept block) :=
  ⟨rfl, rfl, rfl, rfl, rfl⟩

/-- Messages without audio change the skip at most, on a side that is awake
(`hawake`). -/
theorem keeps_handle (hawake : c.suspended = false) (link : Link) {message : CaptureMessage}
    (hsteady : message.isSteady = true) (hnone : message.rendered? = none) :
    c.Keeps (c.handle link message).1 := by
  cases message with
  | rendered block => cases hnone
  | rewound n => cases hsteady
  | timingRequest ticket => exact Keeps.refl c
  | correct usec => exact ⟨rfl, rfl, rfl, rfl, rfl⟩
  | playbackTiming epoch timing =>
      simp only [handle, resync]
      split
      · exact Keeps.refl c
      · exact ⟨rfl, rfl, rfl, rfl, rfl⟩
  | device state =>
      cases state with
      | suspended => cases hsteady
      | running =>
          simp only [handle, follow, hawake]
          exact Keeps.refl c

/-- Audio for which there is room (`hroom`) is put behind what waits, on a side
that is awake. -/
theorem played_receive (hawake : c.suspended = false) {block : List UInt8}
    (hroom : block.length % c.backlog.base = 0
      ∧ c.backlog.played.length + block.length ≤ maxTapeLength) :
    (c.receive block).backlog.played = c.backlog.played ++ block := by
  simp only [receive, hawake, appendWithin]
  exact if_pos hroom

end PlainCapture

/-! ### What stays as it is -/

namespace Session

variable {κ υ : Type}

/-- An operation that leaves the reference alone: `isSteady` holds of it. -/
def Steady (operation : Operation) : Prop := operation.isSteady = true

/-- The session goes on (`linked`), and no message that waits gives audio back
or suspends a device. -/
structure Calm (s : Session κ υ) : Prop where
  linked : s.link.linked = true
  control : s.ControlOnly
  steady : ∀ m, m ∈ s.captureControl.items ∨ m ∈ s.data.items → m.isSteady = true

/-- The capture side may take messages out of its mailboxes, and a session stays
`Calm`. -/
theorem Calm.congr {s t : Session κ υ} (h : s.Calm) (hlinked : t.link.linked = s.link.linked)
    (hcontrol : t.ControlOnly)
    (hmem : ∀ m ∈ t.captureControl.items, m ∈ s.captureControl.items)
    (hmem' : ∀ m ∈ t.data.items, m ∈ s.data.items) : t.Calm :=
  ⟨hlinked.trans h.linked, hcontrol,
    fun m hm => h.steady m (hm.imp (hmem m) (hmem' m))⟩

/-! ### What flows -/

variable [Canceller κ]

/-- What a session has rendered is on its way to the canceller, and the
capture side, which stands where `plain` stands, is awake. Blocks have
`size` bytes. -/
structure Flowing (size : Nat) (first : κ) (s : Session κ υ) (events : List Event)
    (plain : PlainCapture κ) : Prop where
  calm : s.Calm
  capture : ∃ c, s.capture? = some c ∧ c.Holds plain
  awake : plain.suspended = false
  settled : plain.resuming = false
  blockBytes_eq : plain.backlog.blockBytes = size
  rendered_eq : bytesOfBlocks (events.filterMap Event.rendered?)
    = bytesOfBlocks (events.filterMap Event.played?)
      ++ (plain.backlog.played
        ++ bytesOfBlocks (s.data.items.filterMap CaptureMessage.rendered?))
  calls : Calls size first events plain.backlog.canceller

variable {size : Nat} {first : κ} {events : List Event} {plain : PlainCapture κ}

/-- It flows on where neither the playback of the capture side (`hkeeps`) nor
the audio that waits (`hdata`) changes. -/
theorem Flowing.congr {s t : Session κ υ} (h : s.Flowing size first events plain) {c : Capture κ}
    {next : PlainCapture κ} (hcalm : t.Calm) (hc : t.capture? = some c) (hholds : c.Holds next)
    (hkeeps : plain.Keeps next)
    (hdata : t.data.items.filterMap CaptureMessage.rendered?
      = s.data.items.filterMap CaptureMessage.rendered?) : t.Flowing size first events next := by
  refine ⟨hcalm, ⟨c, hc, hholds⟩, hkeeps.suspended_eq.trans h.awake,
    hkeeps.resuming_eq.trans h.settled, ?_, ?_, ?_⟩
  · rw [hkeeps.blockBytes_eq, h.blockBytes_eq]
  · rw [hkeeps.played_eq, hdata, h.rendered_eq]
  · rw [hkeeps.canceller_eq]
    exact h.calls

omit [Canceller κ] in
/-- A tape that does not refuse audio takes it: without an entry `refused` there
was room in the list as well. -/
theorem roomFor_of_not_refused {c : Capture κ} (hholds : c.Holds plain) {link : Link}
    {block : Block} (hawake : plain.suspended = false)
    (htaken : .refused .output block ∉ c.handleEntries link (.rendered block)) :
    block.toList.length % plain.backlog.base = 0
      ∧ plain.backlog.played.length + block.toList.length ≤ maxTapeLength := by
  rw [Block.length_toList]
  refine Decidable.byContradiction ?_
  intro hrefused
  -- A refusal would be among the entries.
  obtain ⟨e, happend⟩ := hholds.pairing.played.append_eq_error hrefused
  refine htaken (List.mem_cons_of_mem _ ?_)
  show _ ∈ c.receiveEntries block
  unfold Capture.receiveEntries Capture.appendEntries
  rw [hholds.suspended_eq, hawake, happend]
  exact List.mem_singleton.mpr rfl

/-- A rendered block goes from the mailbox to the tape, and all rendered audio
is where it was in order. The mailbox gives it up (`Mailbox.Takes`), and the
tape, which does not refuse it (`htaken`), puts it behind what lies unread. -/
theorem Flowing.receive {s : Session κ υ} (h : s.Flowing size first events plain) {c : Capture κ}
    {block : Block} {rest : Mailbox CaptureMessage} (hc : s.capture? = some c)
    (hrest : s.data.Takes [.rendered block] rest)
    (htaken : .refused .output block ∉ c.handleEntries s.link (.rendered block))
    (hcalm : ({ s with capture? := some (c.receive block), data := rest } : Session κ υ).Calm) :
    ({ s with capture? := some (c.receive block), data := rest } : Session κ υ).Flowing size
      first events (plain.receive block.toList) := by
  obtain ⟨c', hc', hholds⟩ := h.capture
  cases hc.symm.trans hc'
  have hroom := roomFor_of_not_refused hholds h.awake htaken
  refine ⟨hcalm, ⟨_, rfl, hholds.receive block⟩, h.awake, h.settled, h.blockBytes_eq, ?_, h.calls⟩
  -- The block is the first to wait, and becomes the last on the tape.
  have hwaiting : s.data.items.filterMap CaptureMessage.rendered?
      = block :: rest.items.filterMap CaptureMessage.rendered? := by
    rw [hrest.items]
    rfl
  rw [h.rendered_eq, hwaiting, PlainCapture.played_receive h.awake hroom, List.append_assoc]
  rfl

/-- What is worked off leaves the tape in order: the events say which bytes were
taken. Of the three kinds of step, a call and a pass take playback off, and
`Calls` goes on with the one. -/
theorem Flowing.pair {s : Session κ υ} (h : s.Flowing size first events plain) {c : Capture κ}
    {event : Event} {pairing : Pairing κ} (hc : s.capture? = some c)
    (hstep : c.pairing.step? = some (event, pairing)) {t : Session κ υ} (hcalm : t.Calm)
    (hdata : t.data = s.data) (ht : t.capture? = some { c with pairing }) :
    ∃ next, t.Flowing size first (events ++ [event]) next := by
  obtain ⟨c', hc', hholds⟩ := h.capture
  cases hc.symm.trans hc'
  -- What the step does is read off the plain lists.
  obtain ⟨fate, backlog, hfate, hevent, hpairing⟩ := hholds.pairing.step?_eq_some hstep
  have hplayed := Backlog.played_step? hfate
  obtain ⟨hsize, hcanceller⟩ := Backlog.canceller_step? hfate
  refine ⟨{ plain with backlog }, hcalm, ⟨_, ht, hholds.spec_eq, hpairing, hholds.received_eq,
    hholds.suspended_eq, hholds.resuming_eq⟩, h.awake, h.settled, ?_, ?_, ?_⟩
  · exact hsize.trans h.blockBytes_eq
  · have hnone : event.rendered? = none := by
      cases event <;> first | rfl | cases hevent
    have hused : bytesOfBlocks ([event].filterMap Event.played?) = fate.played := by
      cases event <;> cases hevent
      · rfl
      · exact List.append_nil _
      · exact List.append_nil _
    rw [List.filterMap_append, List.filterMap_append, List.filterMap_cons_none hnone,
      List.filterMap_nil, List.append_nil, bytesOfBlocks_append, hused, h.rendered_eq, ← hplayed,
      hdata, List.append_assoc, List.append_assoc]
  · refine h.calls.append ?_
    rw [h.blockBytes_eq] at hcanceller
    cases event <;> cases hevent
    · exact hcanceller
    · next captured played cleaned =>
        -- The lists that the canceller got are the bytes of the blocks.
        obtain ⟨hcaptured, hplayedSize, hrun⟩ := hcanceller
        rw [bytesOfList_toList, bytesOfList_toList] at hrun
        obtain ⟨hcleaned, hnext⟩ := Prod.mk.inj hrun
        rw [Block.length_toList] at hcaptured hplayedSize
        refine ⟨hcaptured, hplayedSize, ?_, hnext⟩
        rw [← bytesOfList_toList, hcleaned]
        rfl
    · exact hcanceller

/-! ### It keeps flowing -/

variable [Producer υ]

/-- What waits stays calm under steady operations, whatever the step. What is
posted in a `Steady` operation is steady itself, one case for each step. -/
theorem Calm.step {s t : Session κ υ} {entries : List Entry} (h : s.Calm)
    (hstep : Step Steady s entries t) : t.Calm := by
  have hcontrol := h.control.step hstep
  have hboxes : s.link.linked = t.link.linked → t.captureControl = s.captureControl →
      t.data = s.data → t.Calm := by
    intro hlinked hsame hdata
    refine h.congr hlinked.symm hcontrol ?_ ?_
    · exact hsame ▸ fun _ hm => hm
    · exact hdata ▸ fun _ hm => hm
  -- Both sides may post, as long as the message is steady.
  have hposted : ∀ {message : CaptureMessage}, message.isSteady = true →
      ∀ m, m ∈ (s.captureControl.post message).2.items ∨ m ∈ s.data.items →
        m.isSteady = true := by
    intro message hmessage m hm
    rcases hm with hm | hm
    · rcases Mailbox.mem_items_post hm with hm | rfl
      · exact h.steady m (Or.inl hm)
      · exact hmessage
    · exact h.steady m (Or.inr hm)
  have hsent : ∀ {scene : PlaybackScene υ} {message : CaptureMessage},
      scene.link.linked = s.link.linked → message.isSteady = true →
      scene.data.items = (if s.data.hasRoom then s.data.items ++ [message] else s.data.items) →
      (s.withScene scene).Calm := by
    intro scene message hlinked hmessage hitems
    refine ⟨hlinked.trans h.linked, h.control, fun m hm => ?_⟩
    rcases hm with hm | hm
    · exact h.steady m (Or.inl hm)
    · rw [show (s.withScene scene).data.items = _ from hitems] at hm
      rcases Mailbox.mem_of_posted hm with hm | rfl
      · exact h.steady m (Or.inr hm)
      · exact hmessage
  cases hstep with
  | read => exact hboxes s.link.keeps_readClock.linked_eq.symm rfl rfl
  | unlink ha => rcases ha with ha | ha <;> cases ha
  | reportCapture running ha hnew =>
      cases (show running = true from ha)
      rw [postCapture_eq] at hcontrol ⊢
      refine ⟨?_, hcontrol, hposted rfl⟩
      simp only
      split
      · exact h.linked
      · exact h.linked
  | reportPlayback running ha hnew =>
      rw [postPlayback_eq] at hboxes ⊢
      refine hboxes ?_ rfl rfl
      simp only
      split
      · rfl
      · rfl
  | postCapture message hm =>
      rw [postCapture_eq] at hcontrol ⊢
      refine ⟨?_, hcontrol, hposted (CaptureMessage.isSteady_of_isControl hm)⟩
      simp only
      split
      · exact h.linked
      · exact h.linked
  | askCapture message hm ha =>
      exact ⟨h.linked, hcontrol, hposted (CaptureMessage.isSteady_of_isControl hm)⟩
  | repack hcapture hdata hplayback =>
      refine h.congr rfl hcontrol ?_ ?_
      · intro m hm
        rw [hcapture.items]
        exact hm
      · intro m hm
        rw [hdata.items]
        exact hm
  | @handleControl c message rest hc hrest =>
      refine h.congr (c.keeps_handle s.link message).linked_eq hcontrol (fun m hm => ?_) fun m hm => hm
      rw [hrest.items]
      exact List.mem_cons_of_mem _ hm
  | @handleData c message rest hc hrest =>
      refine h.congr (c.keeps_handle s.link message).linked_eq hcontrol (fun m hm => hm) ?_
      intro m hm
      rw [hrest.items]
      exact List.mem_cons_of_mem _ hm
  | @handlePlayback p message rest hp hrest =>
      exact hboxes (p.keeps_handle s.link message).linked_eq.symm rfl rfl
  | @correct c usec hc ha => exact hboxes (c.keeps_correct s.link usec).linked_eq.symm rfl rfl
  | @play p n hp hlinked ha =>
      exact hsent ((s.scene p).keeps_play n).linked_eq rfl ((s.scene p).items_play n)
  | @sendTiming p hp =>
      cases howes : (s.scene p).owesTiming with
      | false =>
          rw [((s.scene p).sendTiming_of_not_owesTiming howes).1] at hboxes ⊢
          exact hboxes rfl rfl rfl
      | true =>
          exact hsent (s.scene p).keeps_sendTiming.linked_eq rfl
            ((s.scene p).sendTiming_of_owesTiming howes).1
  | rewindPlayback n hp ha => cases ha
  | dropCapture hc ha => cases ha
  | dropPlayback hp ha => cases ha
  | _ => exact hboxes rfl rfl rfl

/-- A block that is made waits in the mailbox, behind all others. It is not lost
(`hkept`), and `data` holds it last. -/
theorem Flowing.play {s : Session κ υ} (h : s.Flowing size first events plain) {p : Playback υ}
    {n : Nat} (hcalm : (s.withScene ((s.scene p).play n).2).Calm)
    (hkept : ∀ message, .lost message ∉ (s.scene p).playEntries n) :
    (s.withScene ((s.scene p).play n).2).Flowing size first
      (events ++ ((s.scene p).playEntries n).filterMap Entry.event?) plain := by
  -- Without room the block would be lost.
  have hroom : (s.scene p).data.hasRoom = true := by
    cases hroom : (s.scene p).data.hasRoom with
    | true => rfl
    | false =>
        have hlost := hkept (.rendered ((s.scene p).play n).1)
        refine absurd (List.mem_append_right _ (List.mem_cons_of_mem _ ?_)) hlost
        rw [PlaybackScene.postEntries, hroom]
        exact List.mem_singleton.mpr rfl
  have hitems := (s.scene p).items_play n
  rw [hroom, if_pos rfl] at hitems
  rw [PlaybackScene.events_playEntries]
  refine ⟨hcalm, h.capture, h.awake, h.settled, h.blockBytes_eq, ?_, h.calls.append rfl⟩
  rw [show (s.withScene ((s.scene p).play n).2).data.items = _ from hitems]
  simp only [List.filterMap_append, bytesOfBlocks_append, List.append_assoc, h.rendered_eq]
  rfl

/-- Under steady operations everything flows on, if the mailbox (`hkept`) and
the tape (`htaken`) have room. -/
theorem Flowing.step {s t : Session κ υ} {entries : List Entry}
    (h : s.Flowing size first events plain) (hstep : Step Steady s entries t)
    (hkept : ∀ message, .lost message ∉ entries)
    (htaken : ∀ block, .refused .output block ∉ entries) :
    ∃ next, t.Flowing size first (events ++ entries.filterMap Entry.event?) next := by
  have hcalm := h.calm.step hstep
  obtain ⟨c, hc, hholds⟩ := h.capture
  -- Most steps touch neither the tape nor the audio that waits.
  have hsame : entries.filterMap Entry.event? = [] → t.capture? = s.capture? →
      t.data.items.filterMap CaptureMessage.rendered?
        = s.data.items.filterMap CaptureMessage.rendered? →
      ∃ next, t.Flowing size first (events ++ entries.filterMap Entry.event?) next := by
    intro hnothing hcapture hdata
    rw [hnothing, List.append_nil]
    exact ⟨plain, h.congr hcalm (hcapture.trans hc) hholds (.refl plain) hdata⟩
  have hhandled : ∀ {message : CaptureMessage} {s' : Session κ υ}, s'.Calm →
      message.isSteady = true → message.rendered? = none →
      s'.capture? = some (c.handle s.link message).1 →
      s'.data.items.filterMap CaptureMessage.rendered?
        = s.data.items.filterMap CaptureMessage.rendered? →
      ∃ next, s'.Flowing size first
        (events ++ (c.handleEntries s.link message).filterMap Entry.event?) next := by
    intro message s' hcalm hsteady hnone hc' hdata
    have hhandle := hholds.handle s.link fun n (hn : message = .rewound n) => by
      rw [hn] at hsteady
      cases hsteady
    rw [Capture.events_handleEntries, List.append_nil]
    exact ⟨_, h.congr hcalm hc' hhandle.1
      (PlainCapture.keeps_handle h.awake s.link hsteady hnone) hdata⟩
  cases hstep with
  | read => exact hsame (events_readEntries s.link) rfl rfl
  | unlink ha => rcases ha with ha | ha <;> cases ha
  | answer event he =>
      -- An answer is not about audio.
      have hquiet : event.rendered? = none ∧ event.played? = none
          ∧ Calls size plain.backlog.canceller [event] plain.backlog.canceller := by
        cases event <;> first | exact ⟨rfl, rfl, rfl⟩ | cases he
      obtain ⟨hrendered, hplayed, hcalls⟩ := hquiet
      refine ⟨plain, hcalm, h.capture, h.awake, h.settled, h.blockBytes_eq, ?_,
        h.calls.append hcalls⟩
      simp only [List.filterMap_append, Entry.event?, List.filterMap_cons, hrendered, hplayed,
        List.filterMap_nil, List.append_nil]
      exact h.rendered_eq
  | reportCapture running ha hnew =>
      rw [postCapture_eq] at hsame ⊢
      exact hsame rfl rfl rfl
  | reportPlayback running ha hnew =>
      rw [postPlayback_eq] at hsame ⊢
      exact hsame rfl rfl rfl
  | postCapture message hm =>
      rw [postCapture_eq] at hsame ⊢
      exact hsame rfl rfl rfl
  | repack hcapture hdata hplayback =>
      refine hsame rfl rfl ?_
      rw [hdata.items]
      rfl
  | @handleControl c' message rest hc' hrest =>
      cases hc.symm.trans hc'
      have hmem : message ∈ s.captureControl.items := by
        rw [hrest.items]
        exact List.mem_cons_self
      exact hhandled hcalm (h.calm.steady message (Or.inl hmem))
        (CaptureMessage.rendered?_of_not_isData (h.calm.control message hmem)) rfl rfl
  | @handleData c' message rest hc' hrest =>
      cases hc.symm.trans hc'
      have hmem : message ∈ s.data.items := by
        rw [hrest.items]
        exact List.mem_cons_self
      cases hrendered : message.rendered? with
      | none =>
          refine hhandled hcalm (h.calm.steady message (Or.inr hmem)) hrendered rfl ?_
          rw [hrest.items]
          exact (List.filterMap_cons_none hrendered).symm
      | some block =>
          have hmessage : message = .rendered block := by
            cases message <;> cases hrendered
            rfl
          subst hmessage
          rw [Capture.events_handleEntries, List.append_nil]
          exact ⟨_, h.receive hc hrest (htaken block) hcalm⟩
  | @handlePlayback p message rest hp hrest =>
      exact hsame (Playback.events_handleEntries s.link message) rfl rfl
  | @resume c' hc' hresuming =>
      cases hc.symm.trans hc'
      rw [hholds.resuming_eq, h.settled] at hresuming
      cases hresuming
  | @accept c' block hc' ha =>
      cases hc.symm.trans hc'
      rw [show (c.acceptEntries block).filterMap Entry.event? = [] from
        Capture.events_appendEntries .., List.append_nil]
      exact ⟨_, h.congr hcalm rfl (hholds.accept block) (plain.keeps_accept block.toList) rfl⟩
  | @pair c' event pairing hc' hstep => exact h.pair hc' hstep hcalm rfl rfl
  | rewindCapture n hc ha => cases ha
  | @correct c' usec hc' ha =>
      cases hc.symm.trans hc'
      rw [List.filterMap_nil, List.append_nil]
      exact ⟨_, h.congr hcalm rfl (hholds.correct s.link usec).1 ⟨rfl, rfl, rfl, rfl, rfl⟩ rfl⟩
  | @play p n hp hlinked ha =>
      exact ⟨_, h.play hcalm hkept⟩
  | @sendTiming p hp =>
      refine hsame (PlaybackScene.events_sendTimingEntries _) rfl ?_
      show (s.scene p).sendTiming.data.items.filterMap CaptureMessage.rendered? = _
      cases howes : (s.scene p).owesTiming with
      | false =>
          rw [((s.scene p).sendTiming_of_not_owesTiming howes).1]
          rfl
      | true =>
          rw [((s.scene p).sendTiming_of_owesTiming howes).1]
          split
          · rw [List.filterMap_append]
            exact List.append_nil _
          · rfl
  | rewindPlayback n hp ha => cases ha
  | idle n hp hlinked ha => cases hlinked.symm.trans h.calm.linked
  | dropCapture hc ha => cases ha
  | dropPlayback hp ha => cases ha
  | _ => exact hsame rfl rfl rfl

omit [Producer υ] in
/-- In a new session nothing flows yet: the tapes and the mailbox are empty, and
`Flowing` holds of no events. -/
theorem IsNew.flowing {s : Session κ υ} (h : s.IsNew) :
    ∃ c plain, s.capture? = some c
      ∧ s.Flowing s.blockBytes c.pairing.canceller [] plain := by
  obtain ⟨spec, capacity, canceller, producer, link, dumps?, rfl, ⟨_, _, _, _, rfl⟩, hspec, hrate,
    -, hframes⟩ := h.opened
  have hholds := Capture.holds_create hspec hrate (StreamSpec.bytesOfFrames_pos hspec hframes)
  refine ⟨_, _, rfl, ⟨rfl, ?_, ?_⟩, ⟨_, rfl, hholds⟩, rfl, rfl, rfl, rfl, rfl⟩
  · intro m hm
    exact absurd hm List.not_mem_nil
  · intro m hm
    rcases hm with hm | hm <;> cases hm

/-- It flows at any point between any two steps, by induction on `Steps` with
`Flowing.step`. -/
theorem IsNew.flowing_steps {s t : Session κ υ} {entries : List Entry} (h : s.IsNew)
    (hsteps : Steps Steady s entries t) (hkept : ∀ message, .lost message ∉ entries)
    (htaken : ∀ block, .refused .output block ∉ entries) :
    ∃ c plain, s.capture? = some c
      ∧ t.Flowing s.blockBytes c.pairing.canceller (entries.filterMap Entry.event?) plain := by
  obtain ⟨c, plain, hc, hflowing⟩ := h.flowing
  induction hsteps with
  | refl => exact ⟨c, plain, hc, hflowing⟩
  | tail hsteps hstep ih =>
      -- Nothing is lost or refused in a part of the run, either.
      simp only [List.mem_append, not_or] at hkept htaken
      obtain ⟨c', plain', hc', hflowing'⟩ :=
        ih (fun message => (hkept message).1) fun block => (htaken block).1
      obtain ⟨next, hnext⟩ := hflowing'.step hstep (fun message => (hkept message).2)
        fun block => (htaken block).2
      rw [List.filterMap_append]
      exact ⟨c', next, hc', hnext⟩

/-- Whatever is rendered, captured and corrected, and in whatever order: while
no device is suspended, nothing is taken back (`hsteady`), and all audio finds
room in the mailbox (`hkept`) and on the tapes (`htaken`), the rendered audio in
the trace of a new session is the audio that was taken off the tape, the audio
on the tape, and the audio in the mailbox. The canceller only ever runs on two
whole blocks, one behind the other (`Calls`). -/
theorem reference_conserved {s : Session κ υ} (hnew : s.IsNew) {operations : List Operation}
    (hsteady : ∀ operation ∈ operations, operation.isSteady = true)
    (hkept : ∀ message, .lost message ∉ s.journalOf operations)
    (htaken : ∀ block, .refused .output block ∉ s.journalOf operations) :
    ∃ start c, s.capture? = some start ∧ (s.run operations).2.capture? = some c
      ∧ bytesOfBlocks ((s.run operations).1.filterMap Event.rendered?)
        = bytesOfBlocks ((s.run operations).1.filterMap Event.played?)
          ++ (c.pairing.played.unread
            ++ bytesOfBlocks
              ((s.run operations).2.data.items.filterMap CaptureMessage.rendered?))
      ∧ Calls s.blockBytes start.pairing.canceller (s.run operations).1 c.pairing.canceller := by
  have hsteps : Steps Steady s _ _ := s.steps_run hsteady
  obtain ⟨start, plain, hstart, hflowing⟩ := hnew.flowing_steps hsteps hkept htaken
  obtain ⟨c, hc, hholds⟩ := hflowing.capture
  have hrendered := hflowing.rendered_eq
  have hcalls := hflowing.calls
  rw [events_journalOf] at hrendered hcalls
  refine ⟨start, c, hstart, hc, ?_, ?_⟩
  · rw [hholds.pairing.played.unread_eq]
    exact hrendered
  · rw [hholds.pairing.canceller_eq]
    exact hcalls

/-- The hypotheses of `reference_conserved` are met with corrections either way,
a resync, and audio that never reaches a tape. -/
theorem reference_conserved_trial :
    let operations : List Operation :=
      [.render 8, .push (.silence 4), .correct 125, .push (.silence 8), .render 4,
        .postCorrection (-250), .requestResync, .push (.silence 4), .render 2]
    bytesOfBlocks ((trial.run operations).1.filterMap Event.rendered?)
        = [1, 2, 3, 4, 5, 6, 7, 8, 1, 2, 3, 4, 5, 6]
      ∧ bytesOfBlocks ((trial.run operations).1.filterMap Event.played?)
        = [1, 2, 3, 4, 5, 6, 7, 8, 1, 2, 3, 4]
      ∧ ∃ start c, trial.capture? = some start ∧ (trial.run operations).2.capture? = some c
        ∧ bytesOfBlocks ((trial.run operations).1.filterMap Event.rendered?)
          = bytesOfBlocks ((trial.run operations).1.filterMap Event.played?)
            ++ (c.pairing.played.unread
              ++ bytesOfBlocks
                ((trial.run operations).2.data.items.filterMap CaptureMessage.rendered?))
        ∧ Calls trial.blockBytes start.pairing.canceller (trial.run operations).1
          c.pairing.canceller := by
  intro operations
  have hroom : ∀ entry ∈ trial.journalOf operations, (match entry with
      | .lost _ => false
      | .refused _ _ => false
      | _ => true) = true := List.all_eq_true.mp (by decide +kernel)
  refine ⟨by decide +kernel, by decide +kernel, reference_conserved isNew_trial (by decide) ?_ ?_⟩
  · intro message hm
    cases hroom _ hm
  · intro block hm
    cases hroom _ hm

end Session

end EchoAlign
