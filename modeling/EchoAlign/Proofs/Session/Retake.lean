import EchoAlign.Proofs.Endpoint.Pieces
import EchoAlign.Proofs.Session.Rounds
import EchoAlign.Proofs.Session.Unison

/-!
# `EchoAlign.Proofs.Session.Retake`: audio that is rendered once more

The playback device may give back audio that it did not play, and ask for it
again. The capture side is told to take back as many bytes, and then gets the
same bytes once more. Both messages wait until the next capture tick.

* `CanRetake.parallel`: until then, the session is as it was, but for these
  messages.
* `Capture.Alike.retake`: they do not change what lies on the tape of playback.
  It may lie in other clips.
* `rerender_leaves_no_trace`: from the tick on, the session does the same as one
  in which no audio was given back.
* `rerender_replaces`: it is not so when the audio that is given back was lost
  on its way to the capture side.

A recording makes the same audio again (`RawSource.reproduces`).
-/

set_option autoImplicit false

namespace EchoAlign

/-! ### Messages that are put between others -/

/-- Both mailboxes hold the same messages, but the second has some `extra` ones
behind those `ahead`. -/
structure Mailbox.Inserts {α : Type} (ahead extra : List α) (m m' : Mailbox α) : Prop where
  capacity_eq : m'.capacity = m.capacity
  closed_eq : m'.closed = m.closed
  dropped_eq : m'.dropped = m.dropped
  items : m.closed = false → ∃ later, m.items = ahead ++ later ∧ m'.items = ahead ++ extra ++ later

/-- So it stays as long as no message is lost: a post behind two mailboxes of
which one has `extra` messages more keeps them so. -/
theorem Mailbox.keptBy_inserts {α : Type} (ahead extra : List α) :
    Mailbox.KeptBy (Mailbox.Inserts ahead extra) False where
  post := by
    intro m m' message h hroom
    have hroom' : m'.hasRoom = true := hroom.resolve_left id
    obtain ⟨hopen', hshort'⟩ := Mailbox.hasRoom_iff.mp hroom'
    have hopen : m.closed = false := h.closed_eq.symm.trans hopen'
    obtain ⟨later, hitems, hitems'⟩ := h.items hopen
    -- The mailbox with fewer messages has room, too.
    have hroom : m.hasRoom = true := by
      refine Mailbox.hasRoom_iff.mpr ⟨hopen, ?_⟩
      rw [hitems', h.capacity_eq] at hshort'
      rw [hitems]
      simp only [List.length_append] at hshort' ⊢
      omega
    refine ⟨hroom'.trans hroom.symm, ?_, ?_, ?_, fun _ => ⟨later ++ [message], ?_, ?_⟩⟩
    · rw [capacity_post, capacity_post, h.capacity_eq]
    · rw [closed_post, closed_post, h.closed_eq]
    · rw [dropped_post, dropped_post, hroom, hroom', h.dropped_eq]
    · rw [items_post, hroom, if_pos rfl, hitems, List.append_assoc]
    · rw [items_post, hroom', if_pos rfl, hitems', List.append_assoc _ later]
  close := by
    intro m m' h
    exact ⟨h.capacity_eq, rfl, h.dropped_eq, nofun⟩

/-- Emptied mailboxes are the same, as each gives all of its messages and
nothing is left. Both are `Mailbox.Within` the limit of a drain. -/
theorem Mailbox.Inserts.drain_eq {α : Type} {ahead extra : List α} {m m' : Mailbox α} {limit : Nat}
    (h : m.Inserts ahead extra m') (hwithin : m.Within limit) (hwithin' : m'.Within limit) :
    (m'.drain limit).2 = (m.drain limit).2 := by
  have hcount : m.count - limit = 0 := by
    have hlength := hwithin.length_le
    rw [m.length_items] at hlength
    omega
  have hcount' : m'.count - limit = 0 := by
    have hlength := hwithin'.length_le
    rw [m'.length_items] at hlength
    omega
  show Mailbox.mk m'.capacity (.ofList (m'.items.drop limit)) (m'.count - limit) _ m'.closed
      m'.dropped
    = Mailbox.mk m.capacity (.ofList (m.items.drop limit)) (m.count - limit) _ m.closed m.dropped
  simp only [List.drop_eq_nil_of_le hwithin.length_le, List.drop_eq_nil_of_le hwithin'.length_le,
    hcount, hcount', h.capacity_eq, h.closed_eq, h.dropped_eq]

/-- Nothing changes where nothing waits, as `drain` finds no message. -/
theorem Mailbox.drain_eq_self {α : Type} {m : Mailbox α} (h : m.items = []) (limit : Nat) :
    (m.drain limit).2 = m := by
  obtain ⟨capacity, ⟨front, back⟩, count, hcount, closed, dropped⟩ := m
  obtain ⟨hfront, hback⟩ := List.append_eq_nil_iff.mp h
  have hfront' : front = [] := hfront
  have hback' : back = [] := List.reverse_eq_nil_iff.mp hback
  subst hfront' hback' hcount
  simp [drain, items, Queue.toList, Queue.ofList]

/-! ### Taken back and put on once more -/

/-- What waits for the capture side once `n` bytes were given back and the block
was rendered. To give back nothing is not told. -/
def retakeMessages (n : Nat) (block : Block) : List CaptureMessage :=
  (if n = 0 then [] else [.rewound n]) ++ [.rendered block]

namespace Capture

variable {κ : Type} {c c' : Capture κ} {horizon : Int} {base : Nat}

/-- The playback that lies unread ends in the bytes of the block, and there is
no more of it than a tape may hold. A suspended side has none (`awake`). -/
structure EndsWith (block : Block) (c : Capture κ) : Prop where
  awake : c.suspended = false →
    block.toList <:+ c.pairing.played.unread ∧ c.pairing.played.length ≤ maxTapeLength
  asleep : c.suspended = true → c.pairing.played.length = 0

/-- Then taking the block back and receiving it once more changes nothing but
the clips behind the `horizon`: `hframes` and the bound in `EndsWith` see that
it is not refused the second time. -/
theorem Alike.retake (h : c.Alike horizon c') (hrunning : c.pairing.played.Running base)
    {block : Block} (hword : block.size ≤ Word.maxSigned) (hframes : block.size % base = 0)
    (hends : c.EndsWith block) (link : Link) :
    c.Alike horizon (c'.handleAll link (retakeMessages block.size block)).1
      ∧ (c'.handleAll link (retakeMessages block.size block)).2 = link := by
  have hheads := hrunning.heads
  have hsigned : Word.signed block.size = block.size := Word.signed_natCast hword
  have hcount : c.received - (block.size : Int) + block.size = c.received := by omega
  obtain ⟨_, rfl, played, rfl, hplayed⟩ := h
  by_cases hzero : block.size = 0
  · -- An empty block is taken by any tape.
    have hnothing : c.received + ((0 : Nat) : Int) = c.received := by omega
    have happend : played.append block = .ok played := by
      rw [Tape.append, hzero, Nat.zero_mod, if_neg (by decide), if_pos rfl]
    simp only [retakeMessages, hzero, if_true, List.nil_append, Capture.handleAll,
      List.foldl_cons, List.foldl_nil, Capture.handle, Capture.receive, happend, hnothing]
    refine ⟨⟨_, rfl, _, rfl, ?_⟩, trivial⟩
    cases hsuspended : c.suspended with
    | true =>
        have hempty := hends.asleep hsuspended
        unfold Tape.length at hempty
        exact hplayed.flush_right (by omega)
    | false => exact hplayed
  · -- Two messages come: how far to go back, and the block once more.
    simp only [retakeMessages, if_neg hzero, List.cons_append, List.nil_append,
      Capture.handleAll, List.foldl_cons, List.foldl_nil, Capture.handle, Capture.takeBack,
      Capture.receive, hsigned, hcount]
    refine ⟨⟨_, rfl, _, rfl, ?_⟩, trivial⟩
    cases hsuspended : c.suspended with
    | true =>
        have hempty := hends.asleep hsuspended
        unfold Tape.length at hempty
        have hflushed := hplayed.flush_right (by omega)
        exact hflushed.flush_right (by omega)
    | false =>
        obtain ⟨hsuffix, hroom⟩ := hends.awake hsuspended
        obtain ⟨u, hok, halike⟩ := hplayed.retake hheads hword (hrunning.base_eq ▸ hframes) hsuffix
          (hrunning.limit_eq ▸ hroom)
        rw [hsigned] at hok
        simp only [Bool.false_eq_true, if_false, hok]
        exact halike

end Capture

/-! ### Audio is given back and rendered once more -/

/-- What a producer goes on from when `n` bytes are given back to it. To give
back nothing is not told. -/
def Producer.giveBack {υ : Type} [Producer υ] (producer : υ) (n : Nat) : υ :=
  if n = 0 then producer else Producer.rewind producer n

/-- When `n` bytes are given back, the producer makes this block of them, with
audio for all of it, and goes on as if it had not gone back. -/
structure Producer.Reproduces {υ : Type} [Producer υ] (producer : υ) (n : Nat) (block : Block) :
    Prop where
  block_eq : (Producer.render (Producer.giveBack producer n) n).1.block = block
  size_eq : block.size = n
  underrun_eq : (Producer.render (Producer.giveBack producer n) n).1.underrun = 0
  alike : Producer.Alike producer (Producer.render (Producer.giveBack producer n) n).2

namespace RawSource

variable {recording : RawSource} {n : Nat}

/-- A recording makes the same audio again, if that does not go back beyond its
start (`hn`): it is `Producer.Reproduces` for the last `n` bytes. -/
theorem reproduces (hn : n ≤ recording.position)
    (hposition : recording.position ≤ recording.data.size) :
    Producer.Reproduces recording n
      (.ofBytes (recording.data.slice (recording.position - n) recording.position).bytes) := by
  have hagain : recording.position - n + n = recording.position := by omega
  have hback : Producer.giveBack recording n
      = { recording with position := recording.position - n } := by
    unfold Producer.giveBack
    split
    · next hzero => rw [hzero, Nat.sub_zero]
    · rfl
  have hmade : Producer.render (Producer.giveBack recording n) n
      = (⟨.ofBytes (recording.data.slice (recording.position - n) recording.position).bytes, 0⟩,
        recording) := by
    rw [hback]
    refine (render_of_le ?_).trans ?_
    · show recording.position - n + n ≤ recording.data.size
      omega
    · simp only [hagain]
  refine ⟨?_, ?_, ?_, ?_⟩
  · rw [hmade]
  · rw [Block.size_ofBytes, size_bytes, Block.size_slice]
    omega
  · rw [hmade]
  · rw [hmade]
    exact Producer.alike_refl _

end RawSource

namespace PlaybackScene

variable {υ : Type} [Producer υ] {x : PlaybackScene υ}

/-- With room in the mailbox, audio that is given back is taken back from what
was sent, by a message `rewound`. -/
theorem rewind_of_hasRoom (hroom : x.data.hasRoom = true) (n : Nat) :
    x.rewind n
      = { x with
          playback := { x.playback with
            producer := Producer.rewind x.playback.producer n
            sent := x.playback.sent - Word.signed n }
          data := (x.data.post (.rewound n)).2 } := by
  simp only [rewind, post, Mailbox.post_fst, hroom, if_true]

/-- With room in the mailbox (`hroom`), no resync pending and no underrun before
(`hsteady`) or in the audio, it is sent and nothing else happens. -/
theorem render_of_calm (hpending : x.link.resyncPending = false)
    (hsteady : x.playback.inUnderrun = false) (hroom : x.data.hasRoom = true) {n : Nat}
    (hunderrun : (Producer.render x.playback.producer n).1.underrun = 0) :
    let rendered := Producer.render x.playback.producer n
    x.render n
      = (rendered.1.block,
        { x with
          playback := { x.playback with
            producer := rendered.2, sent := x.playback.sent + rendered.1.block.size }
          data := (x.data.post (.rendered rendered.1.block)).2 }) := by
  simp only [render, Playback.noteUnderrun, hunderrun, hsteady, Nat.lt_irrefl, if_false,
    Bool.false_eq_true, send, post, Mailbox.post_fst, hroom, if_true, sendTiming, hpending,
    Bool.not_false, Bool.true_or]

end PlaybackScene

namespace Session

variable {κ υ : Type} [Canceller κ] [Producer υ] {s : Session κ υ} {p : Playback υ} {n : Nat}
  {block : Block}

/-- The playback side can give back `n` bytes and render them once more. There
is room for what the capture side is told, nothing else is due, and the producer
makes the block again. -/
structure CanRetake (s : Session κ υ) (p : Playback υ) (n : Nat) (block : Block) : Prop where
  playback_eq : s.playback? = some p
  settled : s.link.resyncPending = false
  steady : p.inUnderrun = false
  control_nil : s.playbackControl.items = []
  room : s.data.RoomFor (if n = 0 then 1 else 2)
  reproduces : Producer.Reproduces p.producer n block

omit [Canceller κ] in
/-- With room in the mailbox, the capture side is told of what is given back,
unless that is nothing. The message is `rewound`, and what the producer gives
back is taken off `Playback.sent`. -/
theorem rewindPlayback_of_room (hp : s.playback? = some p) (hlinked : s.link.linked = true)
    (hroom : s.data.RoomFor (if n = 0 then 1 else 2)) (hn : n ≤ Word.maxSigned) :
    ∃ data, s.rewindPlayback n
        = { s with
            playback? := some { p with
              producer := Producer.giveBack p.producer n, sent := p.sent - n }
            data }
      ∧ data.RoomFor 1 ∧ data.dropped = s.data.dropped ∧ data.capacity = s.data.capacity
      ∧ data.items = s.data.items ++ (if n = 0 then [] else [.rewound n]) := by
  -- A rewind by nothing posts no message.
  by_cases hzero : n = 0
  · subst hzero
    have hsent : p.sent - ((0 : Nat) : Int) = p.sent := by omega
    refine ⟨s.data, ?_, hroom, rfl, rfl, ?_⟩
    · rw [hsent, Producer.giveBack, if_pos rfl]
      show s.rewindPlayback 0 = { s with playback? := some p }
      simp only [rewindPlayback, hp, beq_self_eq_true, Bool.or_true, if_true]
      rw [← hp]
    · rw [if_pos rfl, List.append_nil]
  · rw [if_neg hzero] at hroom
    refine ⟨(s.data.post (.rewound n)).2, ?_, hroom.post _, ?_, Mailbox.capacity_post _ _, ?_⟩
    · have hscene := (s.scene p).rewind_of_hasRoom hroom.hasRoom n
      rw [Word.signed_natCast hn] at hscene
      simp only [rewindPlayback, hp, hlinked, Bool.not_true, Bool.false_or,
        beq_eq_false_iff_ne.mpr hzero, Bool.false_eq_true, if_false, Producer.giveBack,
        if_neg hzero]
      show s.withScene ((s.scene p).rewind n) = _
      rw [hscene]
      rfl
    · rw [Mailbox.dropped_post, hroom.hasRoom, if_pos rfl]
    · rw [Mailbox.items_post, hroom.hasRoom, if_pos rfl, if_neg hzero]

/-- Audio that is given back and rendered once more leaves the session as it
was, but for the messages that wait (`Parallel` up to `Mailbox.Inserts`). -/
theorem CanRetake.parallel (h : s.CanRetake p n block) (hlinked : s.link.linked = true)
    (hn : n ≤ Word.maxSigned) (hsound : s.CaptureIs fun c => c.pairing.played.Sound)
    (horizon : Int) :
    s.Parallel (Mailbox.Inserts s.data.items (retakeMessages n block)) horizon
      (s.run [.rewindPlayback n, .render n]).2 := by
  obtain ⟨hp, hsettled, hsteady, hcontrol, hroom, hagain⟩ := h
  obtain ⟨data, hback, hroom', hdropped, hcapacity, hitems⟩ :=
    rewindPlayback_of_room hp hlinked hroom hn
  have hmade := PlaybackScene.render_of_calm (x := ⟨{ p with
      producer := Producer.giveBack p.producer n, sent := p.sent - n }, s.link, data⟩)
    hsettled hsteady hroom'.hasRoom hagain.underrun_eq
  have hcount : p.sent - (n : Int) + block.size = p.sent := by
    rw [hagain.size_eq]
    omega
  have hrendered : (s.run [.rewindPlayback n, .render n]).2
      = { s with
          playback? := some { p with
            producer := (Producer.render (Producer.giveBack p.producer n) n).2 }
          data := (data.post (.rendered block)).2 } := by
    obtain ⟨hnone, -⟩ := Mailbox.drain_of_nil hcontrol s.drainLimit
    show ((s.rewindPlayback n).render n).2 = _
    rw [hback]
    simp only [render, hlinked, Bool.not_true, Bool.false_eq_true, if_false, hmade, drainPlayback,
      hnone, Mailbox.drain_eq_self hcontrol, Playback.handleAll, Playback.replies, List.foldl_nil,
      DriftController.hearPlayback_nil, hagain.block_eq, hcount]
  -- No tick has come yet, so the capture side is still the same.
  rw [hrendered]
  refine ⟨_, s.capture?, _, s.dumps?, rfl, ?_, ?_, ?_⟩
  · refine ⟨?_, ?_, ?_, fun _ => ⟨[], ?_, ?_⟩⟩
    · rw [Mailbox.capacity_post, hcapacity]
    · rw [Mailbox.closed_post, hroom'.closed_eq, hroom.closed_eq]
    · rw [Mailbox.dropped_post, hroom'.hasRoom, if_pos rfl, hdropped]
    · rw [List.append_nil]
    · rw [Mailbox.items_post, hroom'.hasRoom, if_pos rfl, hitems, List.append_nil, retakeMessages,
        List.append_assoc]
  · cases hc : s.capture? with
    | none => exact .none
    | some c => exact .some (Capture.alike_refl (hsound c hc) horizon)
  · rw [hp]
    exact .some ⟨_, rfl, hagain.alike⟩

/-! ### The capture tick in which the messages are handled -/

variable {t : Session κ υ} {c c' : Capture κ} {horizon : Int} {limit base : Nat}
  {ahead : List CaptureMessage} {before : List Entry}

omit [Canceller κ] in
/-- Behind the messages that were `ahead`, the audio is taken back and received
once more. Then all others are handled as they would have been. -/
theorem Parallel.attend_retake
    (h : s.Parallel (Mailbox.Inserts ahead (retakeMessages block.size block)) horizon t)
    (hwired : s.Wired limit) (hwired' : t.Wired limit) (hc : s.capture? = some c)
    (hc' : t.capture? = some c') (hword : block.size ≤ Word.maxSigned)
    (hframes : block.size % base = 0)
    (hrunning : (c.handleAll s.link
      (s.captureControl.items ++ ahead)).1.pairing.played.Running base)
    (hends : (c.handleAll s.link (s.captureControl.items ++ ahead)).1.EndsWith block) :
    (s.attend c).1.Alike horizon (t.attend c').1 ∧ (t.attend c').2 = (s.attend c).2
      ∧ t.drainReplies c' = s.drainReplies c
      ∧ (t.data.drain t.drainLimit).2 = (s.data.drain s.drainLimit).2 := by
  have hdrain := hwired.data.drain
  have hdrain' := hwired'.data.drain
  have hreplies := hwired.drainReplies_eq c
  have hreplies' := hwired'.drainReplies_eq c'
  obtain ⟨data, capture?, playback?, dumps?, rfl, hdata, hcapture, -⟩ := h
  have hc'' : capture? = some c' := hc'
  rw [hc, hc''] at hcapture
  have halike : c.Alike horizon c' := by
    cases hcapture
    assumption
  obtain ⟨later, hitems, hitems'⟩ := hdata.items (hwired.closed_eq (hc ▸ rfl))
  -- Both sides handle the same messages first.
  obtain ⟨hcaught, hlink⟩ := halike.handleAll s.link (s.captureControl.items ++ ahead)
  obtain ⟨hretaken, hlink'⟩ := hcaught.retake hrunning hword hframes hends
    (c.handleAll s.link (s.captureControl.items ++ ahead)).2
  obtain ⟨hlast, hlink''⟩ := hretaken.handleAll
    (c.handleAll s.link (s.captureControl.items ++ ahead)).2 later
  have hattend : s.attend c
      = (c.handleAll s.link (s.captureControl.items ++ ahead)).1.handleAll
          (c.handleAll s.link (s.captureControl.items ++ ahead)).2 later := by
    rw [attend_eq, hwired.drainLimit_eq, hwired.control.drain.1, hdrain.1, hitems,
      ← List.append_assoc, Capture.handleAll_append]
  have hattend' : ({ s with data, capture?, playback?, dumps? } : Session κ υ).attend c'
      = ((c'.handleAll s.link (s.captureControl.items ++ ahead)).1.handleAll
          (c.handleAll s.link (s.captureControl.items ++ ahead)).2
            (retakeMessages block.size block)).1.handleAll
          (c.handleAll s.link (s.captureControl.items ++ ahead)).2 later := by
    rw [attend_eq]
    show c'.handleAll s.link ((s.captureControl.drain s.drainLimit).1
      ++ (data.drain s.drainLimit).1) = _
    rw [hwired.drainLimit_eq, hwired.control.drain.1, show (data.drain limit).1 = data.items from
      hdrain'.1, hitems', List.append_assoc ahead, ← List.append_assoc, Capture.handleAll_append,
      Capture.handleAll_append, hlink, hlink']
  refine ⟨?_, ?_, ?_, ?_⟩
  · rw [hattend, hattend']
    exact hlast
  · rw [hattend, hattend']
    exact hlink''
  · rw [hreplies, hreplies']
    exact halike.replies_eq _ _
  · show (data.drain s.drainLimit).2 = (s.data.drain s.drainLimit).2
    rw [hwired.drainLimit_eq]
    exact hdata.drain_eq hwired.data hwired'.data

/-- Between the messages that were `ahead` and all others, the tape of playback
is in order. -/
theorem IsNew.running_ahead {new : Session κ υ} (hnew : new.IsNew)
    (hsteps : Steps FitsWord new before s)
    (hbytes : renderedBytesOf (before.filterMap Entry.event?) ≤ Word.maxSigned)
    (hc : s.capture? = some c) {later : List CaptureMessage} (hdata : s.data.items = ahead ++ later) :
    (c.handleAll s.link (s.captureControl.items ++ ahead)).1.pairing.played.Running
      new.spec.frameSize := by
  have hsounds := hnew.sounds_midTick hsteps hbytes hc s.captureControl.items.length ahead.length
  have hcontrol : (s.captureControl.drain s.captureControl.items.length).1
      = s.captureControl.items := List.take_length
  have hahead : (s.data.drain ahead.length).1 = ahead := by
    show s.data.items.take ahead.length = ahead
    rw [hdata, List.take_left]
  rw [hcontrol, hahead] at hsounds
  exact hsounds.played

/-- From the tick on in which the audio is taken back and received once more,
the sessions are in unison, as `GoesOn` says. -/
theorem Parallel.goesOn_retake {new : Session κ υ} (hnew : new.IsNew)
    (hsteps : Steps FitsWord new before s)
    (hbytes : renderedBytesOf (before.filterMap Entry.event?) ≤ Word.maxSigned)
    (h : s.Parallel (Mailbox.Inserts ahead (retakeMessages block.size block)) horizon t)
    (hwired' : t.Wired new.data.capacity) (hc : s.capture? = some c)
    (hlinked : s.link.linked = true) (hword : block.size ≤ Word.maxSigned)
    (hframes : block.size % new.spec.frameSize = 0)
    (hends : (c.handleAll s.link (s.captureControl.items ++ ahead)).1.EndsWith block)
    (hread : horizon ≤ c.pairing.played.readHead) {tick : Block} {rest : List Operation}
    (hlater : ∀ place ∈ s.headsAlong (.push tick :: rest), horizon ≤ place.2)
    (hstays : s.StaysInHistory (.push tick :: rest)) : GoesOn (.push tick) rest s t := by
  have hwired := hnew.wired.steps hsteps
  obtain ⟨later, hitems⟩ : ∃ later, s.data.items = ahead ++ later := by
    obtain ⟨_, _, _, _, -, hdata, -⟩ := h
    obtain ⟨later, hitems, -⟩ := hdata.items (hwired.closed_eq (hc ▸ rfl))
    exact ⟨later, hitems⟩
  obtain ⟨hnone, -⟩ | ⟨_, c', hsame, hc', -⟩ := h.capture_cases
  · cases hc.symm.trans hnone
  · cases hc.symm.trans hsame
    obtain ⟨hattend, hlink, hreplies, hdrain⟩ := h.attend_retake hwired hwired' hc hc' hword
      hframes (hnew.running_ahead hsteps hbytes hc hitems) hends
    exact h.goesOn_push hnew hsteps hbytes hc hc' hlinked hattend hlink hreplies hdrain hread hlater
      hstays

/-- Audio that is given back and rendered once more leaves no trace: from the
next capture tick on, the same audio is cancelled and passed downstream
(`Event.Same`), and the counters, the unread playback and all timings are the
same as without it (`Matches`). The playback side must be able to make the audio
again (`CanRetake`). What is given back must be the last audio on the tape once
the messages ahead are handled (`EndsWith`), no message may be lost until the
tick (`Lossless`), and nothing is taken up again later from below the history
that was kept (`StaysInHistory`). -/
theorem rerender_leaves_no_trace {new s u : Session κ υ} (hnew : new.IsNew)
    {before between later : List Operation} (hs : (new.run before).2 = s)
    (hu : (s.run between).2 = u) {tick : Block} (hretakes : s.CanRetake p n block)
    (hframes : n % new.spec.frameSize = 0) (hbetween : ∀ other, .push other ∉ between)
    (hkept : Lossless ((s.run [.rewindPlayback n, .render n]).2.journalOf between))
    (hc : u.capture? = some c) (hlinked : u.link.linked = true)
    (hends : (c.handleAll u.link (u.captureControl.items ++ s.data.items)).1.EndsWith block)
    (hstays : u.StaysInHistory (.push tick :: later))
    (hword : ∀ m, .rewindPlayback m ∈ before ++ .rewindPlayback n :: (between ++ later) →
      m ≤ Word.maxSigned)
    (hbytes : renderedBytesOf (new.run (before ++ between ++ .push tick :: later)).1
      ≤ Word.maxSigned) :
    let plain := u.run (.push tick :: later)
    let again := (s.run ([.rewindPlayback n, .render n] ++ between)).2.run (.push tick :: later)
    List.Forall₂ Event.Same plain.1 again.1 ∧ plain.2.Matches again.2 := by
  intro plain again
  obtain rfl := hretakes.reproduces.size_eq
  have hn : block.size ≤ Word.maxSigned := hword _ (List.mem_append_right _ List.mem_cons_self)
  have hfits : ∀ operation ∈ before ++ (between ++ later), FitsWord operation := by
    intro operation hmem m hm
    refine hword m (hm ▸ ?_)
    exact (List.mem_append.mp hmem).elim (List.mem_append_left _)
      fun hmem => List.mem_append_right _ (List.mem_cons_of_mem _ hmem)
  have hlinked' : s.link.linked = true := by
    refine Bool.not_eq_false _ ▸ fun hended => ?_
    have hstill : (s.run between).2.Ended := Ended.run hended between
    rw [hu] at hstill
    exact nomatch hstill.symm.trans hlinked
  -- The run without the rewind, up to the tick.
  have hbefore : Steps FitsWord new (new.journalOf before) s :=
    hs ▸ new.steps_run fun operation hmem => hfits operation (List.mem_append_left _ hmem)
  have hmiddle : Steps FitsWord s (s.journalOf between) u :=
    hu ▸ s.steps_run fun operation hmem =>
      hfits operation (List.mem_append_right _ (List.mem_append_left _ hmem))
  have hsteps := hbefore.trans hmiddle
  have hevents : (new.journalOf before ++ s.journalOf between).filterMap Entry.event?
      ++ plain.1 = (new.run (before ++ between ++ .push tick :: later)).1 := by
    rw [List.filterMap_append, events_journalOf, events_journalOf, run_append, run_append, hs, hu]
  rw [← hevents] at hbytes
  have hbytes' := renderedBytesOf_append
    ((new.journalOf before ++ s.journalOf between).filterMap Entry.event?) plain.1
  have hfewer := renderedBytesOf_append ((new.journalOf before).filterMap Entry.event?)
    ((s.journalOf between).filterMap Entry.event?)
  rw [← List.filterMap_append] at hfewer
  -- Until the tick, the sessions differ in the two messages only.
  have hinOrder := hnew.inOrder_steps hbefore (by omega)
  obtain ⟨horizon, hread, hplaces⟩ :=
    exists_le_places (u.headsAlong (.push tick :: later)) c.pairing.played.readHead
  have hstart := hretakes.parallel hlinked' hn
    (fun c hc => (hinOrder.sounds c hc).played.sound) horizon
  have hparallel := hstart.run (Mailbox.keptBy_inserts _ _) hbetween (Or.inr hkept)
  have hagain : ((s.run [.rewindPlayback block.size, .render block.size]).2.run between).2
      = (s.run ([.rewindPlayback block.size, .render block.size] ++ between)).2 := by
    rw [run_append]
  rw [hu, hagain] at hparallel
  have hwired := (hnew.wired.steps hbefore).steps
    (s.steps_any ([.rewindPlayback block.size, .render block.size] ++ between))
  -- From the tick on, they are in unison.
  have hgoesOn := hparallel.goesOn_retake hnew hsteps (by omega) hwired hc hlinked hn hframes hends
    hread hplaces hstays
  refine hgoesOn.run hnew hsteps ?_ hbytes hstays
  exact List.forall_mem_cons.mpr ⟨nofun, fun operation hmem =>
    hfits operation (List.mem_append_right _ (List.mem_append_right _ hmem))⟩

/-- The hypotheses of `rerender_leaves_no_trace` are met: half of what was
rendered is given back and rendered once more, before more is rendered. Later
on, the last block is captured and cancelled again. -/
theorem rerender_leaves_no_trace_trial :
    let s := (trial.run [.render 8]).2
    let u := (s.run [.render 4]).2
    let tick : Block := .ofBytes ⟨#[101, 102, 103, 104, 105, 106, 107, 108]⟩
    let later : List Operation := [.rewindCapture 4, .push (.ofBytes ⟨#[105, 106, 107, 108]⟩)]
    let plain := u.run (.push tick :: later)
    let again := (s.run [.rewindPlayback 4, .render 4, .render 4]).2.run (.push tick :: later)
    pairsOf plain.1 = [([101, 102, 103, 104], [1, 2, 3, 4]), ([105, 106, 107, 108], [5, 6, 7, 8]),
        ([105, 106, 107, 108], [5, 6, 7, 8])]
      ∧ pairsOf again.1 = pairsOf plain.1 ∧ plain.2.Matches again.2 := by
  intro s u tick later plain again
  have hs : (trial.run [.render 8]).2 = s := rfl
  have hu : (s.run [.render 4]).2 = u := rfl
  obtain ⟨p, hp, hstate⟩ : ∃ p, s.playback? = some p
      ∧ (p.inUnderrun, p.producer.position, p.producer.data.size,
        (p.producer.data.slice (p.producer.position - 4) p.producer.position).toList)
        = (false, 8, 8, [5, 6, 7, 8]) :=
    Option.map_eq_some_iff.mp (by decide +kernel)
  simp only [Prod.mk.injEq] at hstate
  obtain ⟨hsteady, hposition, hsize, hblock⟩ := hstate
  have hretakes : s.CanRetake p 4 _ :=
    ⟨hp, by decide +kernel, hsteady, by decide +kernel, ⟨by decide +kernel, by decide +kernel⟩,
      RawSource.reproduces (by omega) (by omega)⟩
  obtain ⟨c, hc, hstate'⟩ : ∃ c, u.capture? = some c
      ∧ (let caught := (c.handleAll u.link (u.captureControl.items ++ s.data.items)).1
        (caught.suspended, caught.pairing.played.unread, caught.pairing.played.length))
        = (false, [1, 2, 3, 4, 5, 6, 7, 8], 8) :=
    Option.map_eq_some_iff.mp (by decide +kernel)
  simp only [Prod.mk.injEq] at hstate'
  obtain ⟨hawake, hunread, hlength⟩ := hstate'
  have hends : (c.handleAll u.link (u.captureControl.items ++ s.data.items)).1.EndsWith
      (.ofBytes (p.producer.data.slice (p.producer.position - 4) p.producer.position).bytes) := by
    refine ⟨fun _ => ⟨?_, ?_⟩, fun hsuspended => nomatch hawake.symm.trans hsuspended⟩
    · rw [Block.toList_ofBytes, hunread]
      exact ⟨[1, 2, 3, 4], congrArg ([1, 2, 3, 4] ++ ·) hblock⟩
    · rw [hlength]
      decide +kernel
  have hstays : u.StaysInHistory (.push tick :: later) := by decide +kernel
  have hword : ∀ m, .rewindPlayback m ∈ [.render 8] ++ .rewindPlayback 4 :: ([.render 4] ++ later)
      → m ≤ Word.maxSigned := by
    intro m hmem
    have hm : m = 4 := by simpa [later] using hmem
    rw [hm]
    decide +kernel
  obtain ⟨hsame, hmatches⟩ := rerender_leaves_no_trace isNew_trial hs hu hretakes
    (by decide +kernel) (by simp) (by decide +kernel) hc (by decide +kernel) hends hstays hword
    (by decide +kernel)
  exact ⟨by decide +kernel, pairsOf_of_same hsame, hmatches⟩

/-- A second of this stream is four bytes. Audio is taken up again twice, and
the second time there is only one of the two sessions in which it is still on
the tape. -/
example :
    let recording : RawSource := .ofBlock (.ofBytes ⟨#[1, 2, 3, 4, 5, 6, 7, 8]⟩) true
    let new : Session NullCanceller RawSource :=
      create ⟨.s16le, 2, 1⟩ 4 ⟨2⟩ recording (Link.create (.showing 0) ⟨0, 0⟩ ⟨0, 0⟩) none
    let s := (new.run [.render 8]).2
    let operations : List Operation :=
      [.push (.silence 8), .rewindCapture 4, .rewindCapture 4, .push (.silence 4)]
    ¬ s.StaysInHistory operations
      ∧ ((pairsOf (s.run operations).1).map Prod.snd)
        = [[1, 2, 3, 4], [5, 6, 7, 8], [1, 2, 3, 4]]
      ∧ ((pairsOf ((s.run [.rewindPlayback 4, .render 4]).2.run operations).1).map Prod.snd)
        = [[1, 2, 3, 4], [5, 6, 7, 8], [0, 0, 0, 0]] := by
  decide +kernel

/-- The third block finds no room in the mailbox and is lost. When it is given
back and rendered once more, the second one is taken off the tape for it. This
is why `EndsWith` and `Lossless` are asked for. -/
theorem rerender_replaces :
    let recording : RawSource :=
      .ofBlock (.ofBytes ⟨#[1, 2, 3, 4, 5, 6, 7, 8, 9, 10, 11, 12]⟩) true
    let new : Session NullCanceller RawSource :=
      create trial.spec 2 ⟨2⟩ recording (Link.create (.showing 0) ⟨0, 0⟩ ⟨0, 0⟩) none
    let before : List Operation := [.render 4, .render 4, .render 4, .push (.silence 0)]
    let s := (new.run before).2
    let retake : List Operation := [.rewindPlayback 4, .render 4]
    let tick : Block := .ofBytes ⟨#[101, 102, 103, 104, 105, 106, 107, 108]⟩
    let plain := s.run [.push tick]
    let again := (s.run retake).2.run [.push tick]
    new.IsNew
      ∧ (s.link.linked = true ∧ s.captureControl.items = [] ∧ s.data.items = []
        ∧ s.capture?.map (fun c => (c.suspended, c.pairing.played.length)) = some (false, 8))
      ∧ (∃ p block, s.CanRetake p 4 block ∧ block.toList = [9, 10, 11, 12])
      ∧ ((new.run before).1.filterMap Event.rendered?).map Block.toList
        = [[1, 2, 3, 4], [5, 6, 7, 8], [9, 10, 11, 12]]
      ∧ Lossless (s.journalOf retake)
      ∧ pairsOf plain.1 = [([101, 102, 103, 104], [1, 2, 3, 4]),
        ([105, 106, 107, 108], [5, 6, 7, 8])]
      ∧ pairsOf again.1 = [([101, 102, 103, 104], [1, 2, 3, 4]),
        ([105, 106, 107, 108], [9, 10, 11, 12])] := by
  intro recording new before s retake tick plain again
  have hnew : new.IsNew :=
    ⟨{ Settings.standard with rate := 8000, messageCapacity := 2 }, ⟨2⟩, _, _, .fresh, by decide,
      ⟨_, _, _, _, rfl⟩, rfl⟩
  obtain ⟨p, hp, hstate⟩ : ∃ p, s.playback? = some p
      ∧ (p.inUnderrun, p.producer.position, p.producer.data.size,
        (p.producer.data.slice (p.producer.position - 4) p.producer.position).toList)
        = (false, 12, 12, [9, 10, 11, 12]) :=
    Option.map_eq_some_iff.mp (by decide +kernel)
  simp only [Prod.mk.injEq] at hstate
  obtain ⟨hsteady, hposition, hsize, hblock⟩ := hstate
  have hretakes : s.CanRetake p 4 _ :=
    ⟨hp, by decide +kernel, hsteady, by decide +kernel, ⟨by decide +kernel, by decide +kernel⟩,
      RawSource.reproduces (by omega) (by omega)⟩
  exact ⟨hnew, ⟨by decide +kernel, by decide +kernel, by decide +kernel, by decide +kernel⟩,
    ⟨p, _, hretakes, (Block.toList_ofBytes _).trans hblock⟩, by decide +kernel, by decide +kernel,
    by decide +kernel, by decide +kernel⟩

end Session

end EchoAlign
