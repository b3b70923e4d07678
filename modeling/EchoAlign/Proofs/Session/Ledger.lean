import EchoAlign.Proofs.Session.Suspension

/-!
# `EchoAlign.Proofs.Session.Ledger`: what becomes of every captured byte

Captured audio that is accepted is handed on, or dropped to realign, or
thrown away unread, or it still waits. A ledger lists the bytes in the order
in which they came, each with its lot.

* `Accounts` says that a ledger is about a run: its bytes are those that
  were accepted (`acceptedOf`), what is handed on and what is dropped are
  read off the trace (`Event.lots`), and what an operation throws away is
  read off the session that it finds (`discardedBy`).
* `captured_ledger`: every run of a new session has such a ledger. All that
  is handed on are blocks, and the counters know how many.

An operation throws bytes away, then takes bytes in, and then works some
off (`balances_perform`). `Accounts.cons` puts what it throws away into the
ledger of the operations that follow.
-/

set_option autoImplicit false

namespace EchoAlign

/-- What became of a captured byte. Every byte that `Tape.append` took has
exactly one lot at the end of a run. -/
inductive Lot where
  /-- It was handed on, as it was or as what the canceller made of it. -/
  | forwarded
  /-- It was dropped to realign. -/
  | skipped
  /-- It was thrown away unread in the operation of this number. -/
  | discarded (operation : Nat)
  /-- It still waits. -/
  | waiting
  deriving DecidableEq, Repr

namespace Lot

/-- The lot as it is told when one more operation comes first, so that the
number in `discarded` goes up by one. -/
def later : Lot → Lot
  | discarded operation => discarded (operation + 1)
  | lot => lot

/-- Whether the byte was not thrown away unread, that is, whether its lot is not
`discarded`. -/
def isKept : Lot → Bool
  | discarded _ => false
  | _ => true

/-- Whether the byte was dropped to realign, as `Counters.sourceSkipped` counts
it. -/
def isSkipped : Lot → Bool
  | skipped => true
  | _ => false

/-- Whether the byte was thrown away (`discarded`) in the operation of this
number, counted from 0. -/
def isDiscardedIn (number : Nat) : Lot → Bool
  | discarded operation => operation == number
  | _ => false

/-- What is kept (`isKept`) does not depend on how operations are numbered. -/
theorem isKept_later (lot : Lot) : lot.later.isKept = lot.isKept := by
  cases lot <;> rfl

/-- No operation comes before the first, so that none of the `later` lots tells
of number 0. -/
theorem isDiscardedIn_zero_later (lot : Lot) : lot.later.isDiscardedIn 0 = false := by
  cases lot <;> rfl

/-- What operation `number` throws away is told of by `number + 1` when one more
operation comes first. -/
theorem isDiscardedIn_succ_later (number : Nat) (lot : Lot) :
    lot.later.isDiscardedIn (number + 1) = lot.isDiscardedIn number := by
  cases lot with
  | discarded operation =>
      show (operation + 1 == number + 1) = (operation == number)
      rw [Bool.eq_iff_iff, beq_iff_eq, beq_iff_eq, Nat.add_right_cancel_iff]
  | _ => rfl

end Lot

/-- The captured bytes an event takes off the tape, with their lots: `skipped`
in `Event.skipped`, and `forwarded` in a run of the canceller and in a pass. -/
def Event.lots : Event → List (UInt8 × Lot)
  | skipped captured => captured.toList.map (·, .skipped)
  | cancelled captured _ _ => captured.toList.map (·, .forwarded)
  | passed captured _ => captured.toList.map (·, .forwarded)
  | _ => []

/-- Whether the capture side handled a suspension, which flushes
`Pairing.captured`. -/
def Entry.isSuspension : Entry → Bool
  | handled (.device .suspended) _ => true
  | _ => false

/-! ### Lots of events -/

namespace Event

/-- The bytes with `lots` in an event are the captured bytes that it takes off
the tape. -/
theorem map_fst_lots (event : Event) :
    event.lots.map Prod.fst = bytesOfBlocks (event.captured?.toList) := by
  have hpaired : ∀ (block : Block) (lot : Lot),
      (block.toList.map (·, lot)).map Prod.fst = bytesOfBlocks [block] := by
    intro block lot
    rw [List.map_map, bytesOfBlocks, List.flatMap_cons, List.flatMap_nil, List.append_nil]
    exact List.map_id _
  cases event with
  | skipped captured => exact hpaired captured _
  | cancelled captured played cleaned => exact hpaired captured _
  | passed captured dropped => exact hpaired captured _
  | _ => rfl

/-- The bytes with `lots` are those taken off the tape, over any number of
events. -/
theorem map_fst_flatMap_lots (events : List Event) :
    (events.flatMap lots).map Prod.fst = bytesOfBlocks (events.filterMap captured?) := by
  induction events with
  | nil => rfl
  | cons event events ih =>
      rw [List.flatMap_cons, List.map_append, ih, map_fst_lots, filterMap_cons_toList,
        bytesOfBlocks_append]

/-- The bytes of events that are dropped to realign are those that
`sourceSkippedOf` counts. -/
theorem countP_isSkipped_lots (events : List Event) :
    (events.flatMap lots).countP (·.2.isSkipped) = sourceSkippedOf events := by
  have hpaired : ∀ (block : Block) (lot : Lot),
      (block.toList.map (·, lot)).countP (·.2.isSkipped)
        = if lot.isSkipped then block.size else 0 := by
    intro block lot
    rw [List.countP_map]
    cases hlot : lot.isSkipped with
    | true => exact (List.countP_eq_length.mpr fun _ _ => hlot).trans (Block.length_toList _)
    | false => exact List.countP_eq_zero.mpr fun _ _ => Bool.eq_false_iff.mp hlot
  induction events with
  | nil => rfl
  | cons event events ih =>
      rw [List.flatMap_cons, List.countP_append, ih]
      refine congrArg (· + _) ?_
      cases event with
      | skipped captured => exact hpaired captured .skipped
      | cancelled captured played cleaned => exact hpaired captured .forwarded
      | passed captured dropped => exact hpaired captured .forwarded
      | _ => rfl

/-- A block is handed on by each run of the canceller and with each block that
is passed on; `countP isCall` and `passesOf` count these. -/
theorem length_forwarded (events : List Event) :
    (events.filterMap forwarded?).length = events.countP isCall + passesOf events := by
  unfold passesOf
  induction events with
  | nil => rfl
  | cons event events ih =>
      rw [List.countP_cons, List.countP_cons]
      cases event with
      | cancelled captured played cleaned =>
          exact (congrArg (· + 1) ih).trans (Nat.add_right_comm _ _ 1)
      | passed captured dropped => exact congrArg (· + 1) ih
      | _ => exact ih

/-- An event tells of nothing that is thrown away, so that all of its lots are
kept (`isKept`). -/
theorem isKept_of_mem_lots {event : Event} {byte : UInt8 × Lot} (h : byte ∈ event.lots) :
    byte.2.isKept = true := by
  cases event <;> first
    | cases h
    | (obtain ⟨_, -, rfl⟩ := List.mem_map.mp h; rfl)

end Event

/-! ### What one operation does -/

namespace Capture

variable {κ : Type} (c : Capture κ) (link : Link)

/-- Only a suspension touches the captured audio, and throws it away. All other
messages concern the played tape, the skip or the state of the side. By cases on
the message; `handleEntries` has an entry `isSuspension` in the one case only. -/
theorem unread_handle (message : CaptureMessage) :
    (c.handle link message).1.pairing.captured.unread
      = if (c.handleEntries link message).any Entry.isSuspension then []
        else c.pairing.captured.unread := by
  -- Besides the message itself, the entries tell of a resync that is asked for
  -- or carried out, or of audio that is refused.
  have hothers : (∀ state, message ≠ .device state) →
      (c.handleEntries link message).any Entry.isSuspension = false := by
    intro hmessage
    rw [List.any_eq_false]
    intro entry hentry
    rcases mem_handleEntries hentry with rfl | rfl | ⟨_, -, rfl⟩ | ⟨_, _, -, rfl⟩
    · cases message with
      | device state => exact absurd rfl (hmessage state)
      | _ => exact Bool.false_ne_true
    all_goals exact Bool.false_ne_true
  cases message with
  | device state =>
      cases state with
      | suspended =>
          exact List.eq_nil_of_length_eq_zero
            ((Tape.length_unread _).trans (Tape.length_flush _))
      | running =>
          show (c.follow .running).pairing.captured.unread = _
          simp only [follow]
          split <;> rfl
  | playbackTiming epoch timing =>
      rw [hothers fun state h => by cases h]
      show (c.resync link epoch timing).1.pairing.captured.unread = _
      unfold resync
      split <;> rfl
  | _ =>
      rw [hothers fun state h => by cases h]
      rfl

/-- If one of the messages is a suspension, nothing of the captured audio is
left after all of them, and otherwise all of it. By induction on the messages
with `unread_handle`, since what is thrown away once stays away. -/
theorem unread_handleAll (messages : List CaptureMessage) :
    (c.handleAll link messages).1.pairing.captured.unread
      = if (c.handleAllEntries link messages).any Entry.isSuspension then []
        else c.pairing.captured.unread := by
  induction messages generalizing c link with
  | nil => rfl
  | cons message messages ih =>
      show ((c.handle link message).1.handleAll (c.handle link message).2
        messages).1.pairing.captured.unread = _
      rw [ih, unread_handle]
      show _ = if (c.handleEntries link message ++ (c.handle link message).1.handleAllEntries
        (c.handle link message).2 messages).any Entry.isSuspension then [] else _
      rw [List.any_append]
      cases (c.handleEntries link message).any Entry.isSuspension <;>
        cases ((c.handle link message).1.handleAllEntries (c.handle link message).2
          messages).any Entry.isSuspension <;> rfl

end Capture

namespace Session

variable {κ υ : Type} [Canceller κ] [Producer υ] {s t : Session κ υ}
  {allowed : Operation → Prop} {entries : List Entry}

/-- The captured bytes that wait on `Pairing.captured`, and none where the
capture side has gone away. -/
def waiting (s : Session κ υ) : List UInt8 :=
  match s.capture? with
  | none => []
  | some c => c.pairing.captured.unread

/-- The captured bytes that an operation brings and that the tape takes: those
of a `.push` while the endpoints are linked, unless `Tape.append` refuses them. -/
def acceptedBy (s : Session κ υ) : Operation → List UInt8
  | .push block =>
      match s.capture? with
      | none => []
      | some c =>
          if !s.link.linked then []
          else
            match (s.drainCapture c).1.pairing.captured.append block with
            | .ok _ => block.toList
            | .error _ => []
  | _ => []

/-- The captured bytes that an operation throws away unread: those that come
again (`rewindCapture`), all that wait when a suspension is handled, and all
that wait when the capture side goes away. -/
def discardedBy (s : Session κ υ) : Operation → List UInt8
  | .rewindCapture n => if s.link.linked then s.waiting.drop (s.waiting.length - n) else []
  | .dropCapture => s.waiting
  | operation => if (s.journal operation).any Entry.isSuspension then s.waiting else []

/-- The captured bytes that are taken in a run, `acceptedBy` each operation in
the state it meets. -/
def acceptedOf : Session κ υ → List Operation → List UInt8
  | _, [] => []
  | s, operation :: rest => s.acceptedBy operation ++ (s.perform operation).2.acceptedOf rest

/-- The captured bytes that the operation of a number throws away, `discardedBy`
it in the state it meets, and none past the end of the run. -/
def discardedAt : Session κ υ → List Operation → Nat → List UInt8
  | _, [], _ => []
  | s, operation :: _, 0 => s.discardedBy operation
  | s, operation :: rest, number + 1 => (s.perform operation).2.discardedAt rest number

/-- Away from capture ticks (`hpush`), from bytes that come again (`hrewind`)
and from the end of the capture side (`hdrop`), what waits goes on to wait
unless a suspension is handled. -/
theorem Step.waiting_eq (h : Step allowed s entries t) (hpush : ∀ block, ¬ allowed (.push block))
    (hrewind : ∀ n, ¬ allowed (.rewindCapture n)) (hdrop : ¬ allowed .dropCapture)
    (hidle : ∀ event, .event event ∈ entries → event.isWorked = false) :
    t.waiting = if entries.any Entry.isSuspension then [] else s.waiting := by
  -- Most steps leave the capture side as it is, and handle no message.
  have hquiet : t.capture? = s.capture? → (∀ entry ∈ entries, entry.isSuspension = false) →
      t.waiting = if entries.any Entry.isSuspension then [] else s.waiting := by
    intro hsame hnone
    rw [List.any_eq_false.mpr fun entry hentry => by simp [hnone entry hentry]]
    unfold waiting
    rw [hsame]
    rfl
  cases h with
  | read => exact hquiet rfl fun entry hentry => by rw [mem_readEntries hentry]; rfl
  | reportCapture running ha hnew =>
      rw [postCapture_eq] at hquiet ⊢
      exact hquiet rfl nofun
  | reportPlayback running ha hnew =>
      rw [postPlayback_eq] at hquiet ⊢
      exact hquiet rfl nofun
  | postCapture message hm =>
      rw [postCapture_eq] at hquiet ⊢
      exact hquiet rfl nofun
  | @handleControl c message rest hc hrest =>
      unfold waiting
      rw [hc]
      exact c.unread_handle s.link message
  | @handleData c message rest hc hrest =>
      unfold waiting
      rw [hc]
      exact c.unread_handle s.link message
  | handlePlayback message hp hrest =>
      exact hquiet rfl fun entry hentry => by rw [Playback.mem_handleEntries hentry]; rfl
  | resume hc hresuming ha => exact absurd ha (hpush _)
  | accept block hc ha => exact absurd ha (hpush block)
  | @pair c event pairing hc hstep =>
      have hnone := hidle event List.mem_cons_self
      obtain ⟨-, ⟨-, heq⟩ | ⟨-, -, heq⟩ | ⟨-, -, heq⟩⟩ := Pairing.step?_cases hstep
      all_goals
        rw [show event = _ from congrArg Prod.fst heq] at hnone
        cases hnone
  | rewindCapture n hc ha => exact absurd ha (hrewind n)
  | @correct c usec hc ha =>
      unfold waiting
      rw [hc]
      rfl
  | play n hp hlinked ha =>
      refine hquiet rfl fun entry hentry => ?_
      rcases PlaybackScene.mem_playEntries hentry with rfl | ⟨_, rfl | rfl | rfl⟩ <;> rfl
  | sendTiming hp =>
      refine hquiet rfl fun entry hentry => ?_
      rcases PlaybackScene.mem_sendTimingEntries hentry with rfl | ⟨_, _, rfl | rfl | rfl⟩ <;> rfl
  | rewindPlayback n hp ha =>
      refine hquiet rfl fun entry hentry => ?_
      rcases PlaybackScene.mem_postEntries hentry with rfl | rfl <;> rfl
  | dropCapture hc ha => exact absurd ha hdrop
  | request => exact hquiet rfl (List.forall_mem_singleton.mpr rfl)
  | answer event he => exact hquiet rfl (List.forall_mem_singleton.mpr rfl)
  | idle n hp hlinked ha => exact hquiet rfl (List.forall_mem_singleton.mpr rfl)
  | _ => exact hquiet rfl nofun

/-- What waits goes on to wait over any number of such steps, unless a
suspension is handled in one of them. By induction on `Steps` with
`Step.waiting_eq`. -/
theorem Steps.waiting_eq (h : Steps allowed s entries t)
    (hpush : ∀ block, ¬ allowed (.push block)) (hrewind : ∀ n, ¬ allowed (.rewindCapture n))
    (hdrop : ¬ allowed .dropCapture)
    (hidle : ∀ event, .event event ∈ entries → event.isWorked = false) :
    t.waiting = if entries.any Entry.isSuspension then [] else s.waiting := by
  revert hidle
  refine h.induct (motive := fun t entries =>
    (∀ event, .event event ∈ entries → event.isWorked = false) →
      t.waiting = if entries.any Entry.isSuspension then [] else s.waiting) (fun _ => rfl) ?_
  intro t u before entries ih hstep hidle
  rw [hstep.waiting_eq hpush hrewind hdrop fun event hevent =>
      hidle event (List.mem_append_right _ hevent),
    ih fun event hevent => hidle event (List.mem_append_left _ hevent), List.any_append]
  cases entries.any Entry.isSuspension <;> cases before.any Entry.isSuspension <;> rfl

/-- An operation throws some of the bytes away that wait (`waiting_eq`), and
takes bytes in behind the others. Then it works off bytes from the front
(`kept_eq`), as its trace tells. -/
structure Balances (s : Session κ υ) (operation : Operation) (kept : List UInt8) : Prop where
  waiting_eq : s.waiting = kept ++ s.discardedBy operation
  kept_eq : kept ++ s.acceptedBy operation
    = bytesOfBlocks ((s.perform operation).1.filterMap Event.captured?)
      ++ (s.perform operation).2.waiting

omit [Canceller κ] [Producer υ] in
/-- What waits when the messages of a capture tick are handled:
`drainCaptureEntries` tells whether a suspension was among them. -/
theorem unread_drainCapture (s : Session κ υ) (c : Capture κ) :
    (s.drainCapture c).1.pairing.captured.unread
      = if (s.drainCaptureEntries c).any Entry.isSuspension then []
        else c.pairing.captured.unread := by
  obtain ⟨control, hcontrol⟩ :
      ∃ control, control = c.handleAll s.link (s.captureControl.drain s.drainLimit).1 := ⟨_, rfl⟩
  obtain ⟨data, hdata⟩ :
      ∃ data, data = control.1.handleAll control.2 (s.data.drain s.drainLimit).1 := ⟨_, rfl⟩
  -- A suspension in either mailbox empties the tape, and nothing that comes
  -- behind it in the same tick fills it again.
  have hresume : (data.1.resume data.2).1.pairing = data.1.pairing
      ∧ data.1.resumeEntries.any Entry.isSuspension = false := by
    unfold Capture.resume Capture.resumeEntries
    split
    · exact ⟨rfl, rfl⟩
    · exact ⟨rfl, rfl⟩
  have hentries : s.drainCaptureEntries c
      = c.handleAllEntries s.link (s.captureControl.drain s.drainLimit).1
        ++ control.1.handleAllEntries control.2 (s.data.drain s.drainLimit).1
        ++ data.1.resumeEntries := by
    rw [hdata, hcontrol]
    rfl
  have hdrained : (s.drainCapture c).1 = (data.1.resume data.2).1 := by
    rw [hdata, hcontrol]
    rfl
  rw [hdrained, hresume.1, hentries, List.any_append, List.any_append, hresume.2, hdata,
    Capture.unread_handleAll, hcontrol, Capture.unread_handleAll]
  cases (c.handleAllEntries s.link (s.captureControl.drain s.drainLimit).1).any Entry.isSuspension
  · rw [Bool.false_or, Bool.or_false]
    rfl
  · rw [Bool.true_or, Bool.true_or, if_pos rfl]
    exact ite_self _

/-- A capture tick that finds the side there works off what waits once the
messages are handled, and what is accepted behind it. `hrecords` says that the
captured tape is in order. -/
theorem path_push {size base : Nat} (hpos : 0 < size) {c : Capture κ} (hc : s.capture? = some c)
    (hlinked : s.link.linked = true) (hrecords : c.Records size base) (block : Block) :
    ∃ taken c', taken.blockBytes = size
      ∧ taken.captured.Holds base
        ((s.drainCapture c).1.pairing.captured.unread ++ s.acceptedBy (.push block))
      ∧ Pairing.Path taken (s.push block).1 c'.pairing ∧ (s.push block).2.capture? = some c' := by
  have hdrains : Steps (· = .push block) s _ _ := steps_drainCapture hc rfl
  have hrecorded : s.CaptureIs (Capture.Records size base) := fun c' hc' => by
    cases hc.symm.trans hc'
    exact hrecords
  obtain ⟨hsize, bytes, hbytes⟩ :=
    hrecorded.steps (Capture.stable_records _ _ _) hdrains (s.drainCapture c).1 rfl
  obtain ⟨hsize', htaken⟩ : ((s.drainCapture c).1.accept block).pairing.blockBytes = size
      ∧ ((s.drainCapture c).1.accept block).pairing.captured.Holds base
        ((s.drainCapture c).1.pairing.captured.unread ++ s.acceptedBy (.push block)) := by
    rw [hbytes.unread_eq]
    simp only [acceptedBy, hc, hlinked, Bool.not_true, Bool.false_eq_true, if_false]
    -- A block that is rejected leaves the tape as it was.
    unfold Capture.accept
    cases happend : (s.drainCapture c).1.pairing.captured.append block with
    | ok captured => exact ⟨hsize, hbytes.of_append_eq_ok happend⟩
    | error e =>
        simp only [List.append_nil]
        exact ⟨hsize, hbytes⟩
  obtain ⟨hevents, hcapture, -⟩ := push_eq hc hlinked block
  obtain ⟨hpath, -⟩ := Pairing.path_drive (hsize' ▸ hpos) htaken
  rw [← hevents] at hpath
  exact ⟨_, _, hsize', htaken, hpath, hcapture⟩

/-- Messages are handled (`drainCapture`), audio is taken in (`accept`), and
audio is worked off: these are the three parts of the journal of a capture tick. -/
theorem journal_push {c : Capture κ} (hc : s.capture? = some c) (hlinked : s.link.linked = true)
    (block : Block) :
    s.journal (.push block) = s.drainCaptureEntries c
      ++ ((s.drainCapture c).1.acceptEntries block ++ (s.push block).1.map Entry.event) := by
  show s.pushEntries block = _
  simp only [pushEntries, hc, hlinked, Bool.not_true, Bool.false_eq_true, if_false,
    List.append_assoc]

/-- The journal of a capture tick tells of a suspension exactly where its
`drainCaptureEntries` do. -/
theorem any_isSuspension_push {c : Capture κ} (hc : s.capture? = some c)
    (hlinked : s.link.linked = true) (block : Block) :
    (s.journal (.push block)).any Entry.isSuspension
      = (s.drainCaptureEntries c).any Entry.isSuspension := by
  have hrest : ((s.drainCapture c).1.acceptEntries block
      ++ (s.push block).1.map Entry.event).any Entry.isSuspension = false := by
    refine List.any_eq_false.mpr fun entry hentry => Bool.eq_false_iff.mp ?_
    rcases List.mem_append.mp hentry with hentry | hentry
    · rw [Capture.mem_appendEntries hentry]
      rfl
    · obtain ⟨event, -, rfl⟩ := List.mem_map.mp hentry
      rfl
  rw [journal_push hc hlinked, List.any_append, hrest, Bool.or_false]

/-- A capture tick balances, where what is kept is what waits once its messages
are handled. What `Session.push` works off is a `Pairing.Path` from there, by
`path_push`. -/
theorem balances_push {size base : Nat} (hpos : 0 < size) {c : Capture κ}
    (hc : s.capture? = some c) (hlinked : s.link.linked = true) (hrecords : c.Records size base)
    (block : Block) :
    s.Balances (.push block) (s.drainCapture c).1.pairing.captured.unread := by
  obtain ⟨taken, c', -, htaken, hpath, hcapture⟩ := path_push hpos hc hlinked hrecords block
  obtain ⟨-, rest, hsplit, hrest⟩ := hpath.captured htaken
  refine ⟨?_, ?_⟩
  · simp only [discardedBy, any_isSuspension_push hc hlinked, s.unread_drainCapture c, waiting, hc]
    split
    · rfl
    · exact (List.append_nil _).symm
  · show _ = bytesOfBlocks ((s.push block).1.filterMap Event.captured?) ++ (s.push block).2.waiting
    unfold waiting
    rw [hcapture, hsplit]
    exact congrArg _ hrest.unread_eq.symm

/-- An operation to which nothing happens throws nothing away, and so it
`Balances`. -/
theorem balances_of_nothing {operation : Operation} (hjournal : s.journal operation = [])
    (hperform : s.perform operation = ([], s)) (haccepted : s.acceptedBy operation = [])
    (hdiscarded : s.discardedBy operation
      = if (s.journal operation).any Entry.isSuspension then s.waiting else []) :
    s.Balances operation s.waiting := by
  rw [hjournal] at hdiscarded
  refine ⟨?_, ?_⟩
  · rw [hdiscarded]
    exact (List.append_nil _).symm
  · rw [haccepted, hperform, List.append_nil]
    rfl

/-- Bytes that come again are taken from the end of what waits, at most as many
as a word can count. `Tape.seek` takes them off the end of the captured tape,
and the `Word.maxSigned` bound sees that it moves back and not forward. -/
theorem balances_rewindCapture {size base : Nat}
    (hrecords : s.CaptureIs (Capture.Records size base)) {n : Nat} (hn : n ≤ Word.maxSigned) :
    s.Balances (.rewindCapture n)
      (if s.link.linked then s.waiting.take (s.waiting.length - n) else s.waiting) := by
  cases hlinked : s.link.linked with
  | false =>
      have hperform : s.perform (.rewindCapture n) = ([], s) := by
        simp only [perform, rewindCapture, hlinked]
        split <;> rfl
      refine ⟨?_, ?_⟩
      · simp only [discardedBy, hlinked, Bool.false_eq_true, if_false, List.append_nil]
      · simp only [acceptedBy, hperform, Bool.false_eq_true, if_false, List.append_nil]
        rfl
  | true =>
      refine ⟨?_, ?_⟩
      · simp only [discardedBy, hlinked, if_true, List.take_append_drop]
      · cases hc : s.capture? with
        | none => simp [acceptedBy, perform, rewindCapture, waiting, hc, bytesOfBlocks]
        | some c =>
            obtain ⟨-, bytes, hbytes⟩ := hrecords c hc
            have hback := (hbytes.seekBack hn).unread_eq
            rw [← hbytes.unread_eq] at hback
            simp only [acceptedBy, perform, rewindCapture, waiting, hc, hlinked]
            exact (List.append_nil _).trans hback.symm

/-- When the capture side goes away, nothing is kept: all that waits is
discarded by `dropCapture`. -/
theorem balances_dropCapture : s.Balances .dropCapture [] := by
  refine ⟨rfl, ?_⟩
  show [] = bytesOfBlocks (s.dropCapture.1.filterMap Event.captured?) ++ s.dropCapture.2.waiting
  unfold dropCapture
  cases hc : s.capture? with
  | none =>
      simp only [waiting, hc]
      rfl
  | some c => rfl

/-- No other operation than `.push`, `.rewindCapture` and `.dropCapture` works
captured audio off, and a suspension is handled in none of them. -/
theorem balances_of_quiet {operation : Operation} (hpush : ∀ block, operation ≠ .push block)
    (hrewind : ∀ n, operation ≠ .rewindCapture n) (hdrop : operation ≠ .dropCapture) :
    s.Balances operation (s.perform operation).2.waiting := by
  have hidle : ∀ event ∈ (s.perform operation).1, event.isWorked = false :=
    fun _ => isWorked_of_mem_perform hpush
  have hsteps : Steps (· = operation) s _ _ := s.steps_perform rfl
  have hwaiting := hsteps.waiting_eq (fun block hblock => hpush block hblock.symm)
    (fun n hn => hrewind n hn.symm) (fun hsame => hdrop hsame.symm) fun event hevent => by
      refine hidle event ?_
      rw [← s.events_journal operation]
      exact List.mem_filterMap.mpr ⟨_, hevent, rfl⟩
  -- A drift check hands messages out, too, so that even here a suspension may
  -- be handled.
  have hdiscarded : s.discardedBy operation
      = if (s.journal operation).any Entry.isSuspension then s.waiting else [] := by
    cases operation <;> first
      | rfl
      | exact absurd rfl (hrewind _)
      | exact absurd rfl hdrop
  have haccepted : s.acceptedBy operation = [] := by
    cases operation <;> first
      | rfl
      | exact absurd rfl (hpush _)
  have hnone : (s.perform operation).1.filterMap Event.captured? = [] :=
    List.filterMap_eq_nil_iff.mpr fun event hevent =>
      (Event.of_not_isWorked (hidle event hevent)).1
  refine ⟨?_, ?_⟩
  · rw [hdiscarded, hwaiting]
    split
    · rfl
    · exact (List.append_nil _).symm
  · rw [haccepted, hnone, List.append_nil]
    rfl

/-- Every operation balances, for some bytes that are kept; one case for each
operation that touches the captured tape. The other operations are dealt with by
`balances_of_quiet`. -/
theorem balances_perform {size base : Nat} (hpos : 0 < size)
    (hrecords : s.CaptureIs (Capture.Records size base)) {operation : Operation}
    (hword : ∀ n, operation = .rewindCapture n → n ≤ Word.maxSigned) :
    ∃ kept, s.Balances operation kept := by
  by_cases hpush : ∃ block, operation = .push block
  · obtain ⟨block, rfl⟩ := hpush
    cases hc : s.capture? with
    | none =>
        refine ⟨_, balances_of_nothing ?_ ?_ ?_ rfl⟩
        · simp only [journal, pushEntries, hc]
        · simp only [perform, push, hc]
        · simp only [acceptedBy, hc]
    | some c =>
        cases hlinked : s.link.linked with
        | false =>
            refine ⟨_, balances_of_nothing ?_ ?_ ?_ rfl⟩
            · simp only [journal, pushEntries, hc, hlinked, Bool.not_false, if_true]
            · simp only [perform, push, hc, hlinked, Bool.not_false, if_true]
            · simp only [acceptedBy, hc, hlinked, Bool.not_false, if_true]
        | true => exact ⟨_, balances_push hpos hc hlinked (hrecords c hc) block⟩
  · have hpush : ∀ block, operation ≠ .push block := fun block hblock => hpush ⟨block, hblock⟩
    by_cases hrewind : ∃ n, operation = .rewindCapture n
    · obtain ⟨n, rfl⟩ := hrewind
      exact ⟨_, balances_rewindCapture hrecords (hword n rfl)⟩
    · have hrewind : ∀ n, operation ≠ .rewindCapture n := fun n hn => hrewind ⟨n, hn⟩
      by_cases hdrop : operation = .dropCapture
      · rw [hdrop]
        exact ⟨_, balances_dropCapture⟩
      · exact ⟨_, balances_of_quiet hpush hrewind hdrop⟩

/-! ### The ledger of a run -/

/-- A ledger tells what became of the captured bytes that waited before a run or
were taken in during it (`bytes_eq`). The fields say what its lots add up to:
which bytes were discarded when, what the events took off, and what waits at the
end. -/
structure Accounts (s : Session κ υ) (operations : List Operation)
    (ledger : List (UInt8 × Lot)) : Prop where
  /-- It lists these bytes in the order in which they came. -/
  bytes_eq : ledger.map Prod.fst = s.waiting ++ s.acceptedOf operations
  /-- Those that are handed on or dropped are those that the trace tells of,
  in the same order. Those that wait come behind them. -/
  kept_eq : ledger.filter (·.2.isKept)
    = (s.run operations).1.flatMap Event.lots ++ (s.run operations).2.waiting.map (·, .waiting)
  /-- The others are those that operations throw away. -/
  discarded_eq : ∀ number, (ledger.filter (·.2.isDiscardedIn number)).map Prod.fst
    = s.discardedAt operations number

/-- What waits before nothing happens goes on to wait: a ledger of `waiting`
lots. -/
theorem accounts_nil (s : Session κ υ) : s.Accounts [] (s.waiting.map (·, .waiting)) := by
  refine ⟨?_, ?_, ?_⟩
  · rw [List.map_map]
    exact (List.map_id _).trans (List.append_nil _).symm
  · rw [List.filter_eq_self.mpr]
    · rfl
    · intro byte hbyte
      obtain ⟨_, -, rfl⟩ := List.mem_map.mp hbyte
      rfl
  · intro number
    rw [List.filter_eq_nil_iff.mpr]
    · rfl
    · intro byte hbyte
      obtain ⟨_, -, rfl⟩ := List.mem_map.mp hbyte
      exact Bool.false_ne_true

/-- The lots of what an operation works off, before those of later operations,
which are told of by the next number (`Lot.later`). -/
def enter (events : List Event) (ledger : List (UInt8 × Lot)) : List (UInt8 × Lot) :=
  events.flatMap Event.lots ++ ledger.map (Prod.map id Lot.later)

/-- What an operation throws away is entered behind `kept` bytes. -/
def insertDiscarded (kept : Nat) (discarded : List UInt8) (ledger : List (UInt8 × Lot)) :
    List (UInt8 × Lot) :=
  ledger.take kept ++ discarded.map (·, .discarded 0) ++ ledger.drop kept

/-- Only bytes that are thrown away are told of by a number, so that `Lot.later`
leaves the others as they are. -/
theorem map_later {ledger : List (UInt8 × Lot)} (h : ∀ byte ∈ ledger, byte.2.isKept = true) :
    ledger.map (Prod.map id Lot.later) = ledger := by
  refine (List.map_congr_left fun byte hbyte => ?_).trans (List.map_id ledger)
  obtain ⟨byte, lot⟩ := byte
  have hkept := h _ hbyte
  cases lot with
  | discarded number => cases hkept
  | _ => rfl

omit [Canceller κ] [Producer υ] in
/-- Lots that are told of do not change when an operation comes first: looking
through `enter` for a lot is looking through the events and, for what `before`
says, through the ledger. -/
theorem filter_enter (lot before : Lot → Bool) (hlater : ∀ l, lot (Lot.later l) = before l)
    (events : List Event) (ledger : List (UInt8 × Lot)) :
    (enter events ledger).filter (lot ·.2)
      = (events.flatMap Event.lots).filter (lot ·.2)
        ++ (ledger.filter (before ·.2)).map (Prod.map id Lot.later) := by
  rw [enter, List.filter_append, List.filter_map]
  refine congrArg (_ ++ List.map _ ·) (List.filter_congr fun byte _ => ?_)
  exact hlater byte.2

omit [Canceller κ] [Producer υ] in
/-- What is thrown away makes no difference to other lots than `discarded 0`. -/
theorem filter_insertDiscarded (lot : Lot → Bool) (hnone : lot (.discarded 0) = false) (kept : Nat)
    (discarded : List UInt8) (ledger : List (UInt8 × Lot)) :
    (insertDiscarded kept discarded ledger).filter (lot ·.2) = ledger.filter (lot ·.2) := by
  have hnothing : (discarded.map fun byte => (byte, Lot.discarded 0)).filter (lot ·.2) = [] := by
    refine List.filter_eq_nil_iff.mpr fun byte hbyte => ?_
    obtain ⟨_, -, rfl⟩ := List.mem_map.mp hbyte
    exact Bool.eq_false_iff.mp hnone
  rw [insertDiscarded, List.filter_append, List.filter_append, hnothing, List.append_nil,
    ← List.filter_append, List.take_append_drop]

omit [Canceller κ] [Producer υ] in
/-- What is thrown away by the first operation is what is entered, as no lot of
the ledger before told of number 0. The bytes in front of it are `kept`, and
`insertDiscarded` puts the others behind these. -/
theorem filter_insertDiscarded_zero {ledger : List (UInt8 × Lot)} (kept : Nat)
    (discarded : List UInt8) (h : ledger.filter (·.2.isDiscardedIn 0) = []) :
    ((insertDiscarded kept discarded ledger).filter (·.2.isDiscardedIn 0)).map Prod.fst
      = discarded := by
  rw [← List.take_append_drop kept ledger, List.filter_append] at h
  obtain ⟨hbefore, hbehind⟩ := List.append_eq_nil_iff.mp h
  have hall : (discarded.map fun byte => (byte, Lot.discarded 0)).filter (·.2.isDiscardedIn 0)
      = discarded.map fun byte => (byte, Lot.discarded 0) := by
    refine List.filter_eq_self.mpr fun byte hbyte => ?_
    obtain ⟨_, -, rfl⟩ := List.mem_map.mp hbyte
    rfl
  rw [insertDiscarded, List.filter_append, List.filter_append, hbefore, hbehind, hall,
    List.nil_append, List.append_nil, List.map_map]
  exact List.map_id _

/-- One operation and then the others: from what the operation keeps and a
ledger of the rest, the ledger of the whole run is made by `insertDiscarded` and
`enter`. -/
theorem Accounts.cons {operation : Operation} {rest : List Operation} {kept : List UInt8}
    {ledger : List (UInt8 × Lot)} (h : s.Balances operation kept)
    (hrest : (s.perform operation).2.Accounts rest ledger) :
    s.Accounts (operation :: rest)
      (insertDiscarded kept.length (s.discardedBy operation)
        (enter (s.perform operation).1 ledger)) := by
  have hlots : ∀ byte ∈ (s.perform operation).1.flatMap Event.lots, byte.2.isKept = true := by
    intro byte hbyte
    obtain ⟨event, -, hbyte⟩ := List.mem_flatMap.mp hbyte
    exact Event.isKept_of_mem_lots hbyte
  -- The bytes without those thrown away are the kept ones and the new ones.
  have hbytes : (enter (s.perform operation).1 ledger).map Prod.fst
      = kept ++ (s.acceptedBy operation ++ (s.perform operation).2.acceptedOf rest) := by
    have hsame : (ledger.map (Prod.map id Lot.later)).map Prod.fst = ledger.map Prod.fst := by
      rw [List.map_map]
      rfl
    rw [enter, List.map_append, Event.map_fst_flatMap_lots, hsame, hrest.bytes_eq,
      ← List.append_assoc, ← h.kept_eq, List.append_assoc]
  refine ⟨?_, ?_, ?_⟩
  · rw [insertDiscarded, List.map_append, List.map_append, List.map_take, List.map_drop, hbytes,
      List.take_left, List.drop_left, h.waiting_eq, List.map_map, List.append_assoc,
      List.append_assoc]
    exact congrArg (fun bytes => kept ++ (bytes ++ _)) (List.map_id _)
  · rw [filter_insertDiscarded Lot.isKept rfl, filter_enter Lot.isKept Lot.isKept Lot.isKept_later,
      List.filter_eq_self.mpr hlots, map_later fun byte hbyte => (List.mem_filter.mp hbyte).2,
      hrest.kept_eq, ← List.append_assoc, ← List.flatMap_append]
    rfl
  · intro number
    have hnone : ∀ number, ((s.perform operation).1.flatMap Event.lots).filter
        (·.2.isDiscardedIn number) = [] := by
      refine fun number => List.filter_eq_nil_iff.mpr fun ⟨byte, lot⟩ hbyte hlot => ?_
      have hkept := hlots _ hbyte
      cases lot with
      | discarded number => cases hkept
      | _ => cases hlot
    -- The later operations have moved up by one, so that number zero is free.
    cases number with
    | zero =>
        have hnever : (enter (s.perform operation).1 ledger).filter (·.2.isDiscardedIn 0) = [] := by
          rw [filter_enter (Lot.isDiscardedIn 0) (fun _ => false) Lot.isDiscardedIn_zero_later,
            hnone, List.filter_eq_nil_iff.mpr fun _ _ => Bool.false_ne_true]
          rfl
        rw [filter_insertDiscarded_zero kept.length _ hnever]
        rfl
    | succ number =>
        rw [filter_insertDiscarded (Lot.isDiscardedIn (number + 1)) rfl,
          filter_enter (Lot.isDiscardedIn (number + 1)) (Lot.isDiscardedIn number)
            (Lot.isDiscardedIn_succ_later number), hnone, List.nil_append, List.map_map]
        exact hrest.discarded_eq number

/-- Every run has a ledger. By induction on the operations, with
`balances_perform` for the first and `Accounts.cons` to go on. -/
theorem exists_accounts {size base : Nat} (hpos : 0 < size)
    (hrecords : s.CaptureIs (Capture.Records size base)) {operations : List Operation}
    (hword : ∀ n, .rewindCapture n ∈ operations → n ≤ Word.maxSigned) :
    ∃ ledger, s.Accounts operations ledger := by
  induction operations generalizing s with
  | nil => exact ⟨_, s.accounts_nil⟩
  | cons operation rest ih =>
      have hsteps : Steps (fun _ => True) s (s.journal operation) (s.perform operation).2 :=
        s.steps_perform trivial
      obtain ⟨kept, hkept⟩ := balances_perform hpos hrecords fun n hn =>
        hword n (hn ▸ List.mem_cons_self)
      obtain ⟨ledger, hledger⟩ := ih (hrecords.steps (Capture.stable_records _ _ _) hsteps)
        fun n hn => hword n (List.mem_cons_of_mem _ hn)
      exact ⟨_, Accounts.cons hkept hledger⟩

/-- The bytes that a ledger gives up to realign are those that the trace tells
of, `sourceSkippedOf` its events. -/
theorem Accounts.skipped_eq {operations : List Operation} {ledger : List (UInt8 × Lot)}
    (h : s.Accounts operations ledger) :
    ledger.countP (·.2.isSkipped) = sourceSkippedOf (s.run operations).1 := by
  have hkept : ledger.countP (·.2.isSkipped)
      = (ledger.filter (·.2.isKept)).countP (·.2.isSkipped) := by
    rw [List.countP_filter]
    refine List.countP_congr fun byte _ => ?_
    obtain ⟨byte, lot⟩ := byte
    cases lot <;> simp [Lot.isSkipped, Lot.isKept]
  have hwaiting : ((s.run operations).2.waiting.map (·, Lot.waiting)).countP (·.2.isSkipped)
      = 0 := by
    rw [List.countP_map]
    exact List.countP_eq_zero.mpr fun _ _ => Bool.false_ne_true
  rw [hkept, h.kept_eq, List.countP_append, Event.countP_isSkipped_lots, hwaiting, Nat.add_zero]

/-! ### What the counters know -/

/-- All that an operation hands on are blocks of the `size` that the capture
side works with. -/
theorem size_forwarded_perform {size base : Nat} (hpos : 0 < size)
    (hrecords : s.CaptureIs (Capture.Records size base)) {operation : Operation} {block : Block}
    (hblock : block ∈ (s.perform operation).1.filterMap Event.forwarded?) : block.size = size := by
  obtain ⟨event, hevent, hforwarded⟩ := List.mem_filterMap.mp hblock
  -- Only a capture tick works captured audio off.
  by_cases hpush : ∃ captured, operation = .push captured
  · obtain ⟨captured, rfl⟩ := hpush
    have hevent : event ∈ (s.push captured).1 := hevent
    cases hc : s.capture? with
    | none =>
        simp only [push, hc] at hevent
        cases hevent
    | some c =>
        cases hlinked : s.link.linked with
        | false =>
            simp only [push, hc, hlinked, Bool.not_false, if_true] at hevent
            cases hevent
        | true =>
            obtain ⟨taken, c', hsize, htaken, hpath, -⟩ :=
              path_push hpos hc hlinked (hrecords c hc) captured
            exact (hpath.size_forwarded htaken hblock).trans hsize
  · obtain ⟨-, hnone, -⟩ := Event.of_not_isWorked
      (isWorked_of_mem_perform (fun block hblock => hpush ⟨block, hblock⟩) hevent)
    cases hnone.symm.trans hforwarded

/-- All that a run hands on (`Event.forwarded?`) are blocks of this `size`. -/
theorem size_forwarded_run {size base : Nat} (hpos : 0 < size)
    (hrecords : s.CaptureIs (Capture.Records size base)) {operations : List Operation}
    {block : Block} (hblock : block ∈ (s.run operations).1.filterMap Event.forwarded?) :
    block.size = size := by
  induction operations generalizing s with
  | nil => cases hblock
  | cons operation rest ih =>
      have hsteps : Steps (fun _ => True) s (s.journal operation) (s.perform operation).2 :=
        s.steps_perform trivial
      simp only [run, List.filterMap_append] at hblock
      rcases List.mem_append.mp hblock with hblock | hblock
      · exact size_forwarded_perform hpos hrecords hblock
      · exact ih (hrecords.steps (Capture.stable_records _ _ _) hsteps) hblock

end Session

/-- The counters of a link have followed some events: they count, modulo the
word (`Word.unsigned`), the runs of the canceller, the blocks passed on, and the
captured bytes dropped. -/
structure Link.Tallies (before : Link) (events : List Event) (after : Link) : Prop where
  cancelled_eq : ∀ n, before.counters.cancelled = Word.unsigned n →
    after.counters.cancelled = Word.unsigned (n + events.countP Event.isCall)
  passed_eq : ∀ n, before.counters.passed = Word.unsigned n →
    after.counters.passed = Word.unsigned (n + passesOf events)
  sourceSkipped_eq : ∀ n, before.counters.sourceSkipped = Word.unsigned n →
    after.counters.sourceSkipped = Word.unsigned (n + sourceSkippedOf events)

namespace Link

variable {l l' l'' : Link} {events first rest : List Event}

/-- Counters that follow some events and then others follow all of them:
`Tallies` is transitive. -/
theorem Tallies.trans (h : l.Tallies first l') (h' : l'.Tallies rest l'') :
    l.Tallies (first ++ rest) l'' := by
  refine ⟨fun n hn => ?_, fun n hn => ?_, fun n hn => ?_⟩
  · rw [h'.cancelled_eq _ (h.cancelled_eq n hn), List.countP_append, Nat.add_assoc]
  · rw [h'.passed_eq _ (h.passed_eq n hn), passesOf, passesOf, passesOf, List.countP_append,
      Nat.add_assoc]
  · rw [h'.sourceSkipped_eq _ (h.sourceSkipped_eq n hn), sourceSkippedOf, sourceSkippedOf,
      sourceSkippedOf, Event.total_append, Nat.add_assoc]

/-- Where no captured audio is worked off, nothing is counted, and so the
counters follow by standing still. The three equations say that `cancelled`,
`passed` and `sourceSkipped` are as before. -/
theorem tallies_of_idle (hidle : ∀ event ∈ events, event.isWorked = false)
    (hcancelled : l'.counters.cancelled = l.counters.cancelled)
    (hpassed : l'.counters.passed = l.counters.passed)
    (hskipped : l'.counters.sourceSkipped = l.counters.sourceSkipped) : l.Tallies events l' := by
  have hnone : ∀ event ∈ events, event.isCall = false ∧ event.isPass = false
      ∧ event.sourceSkipped = 0 := by
    intro event hevent
    obtain ⟨-, -, hcall, hpass, hsource, -⟩ := Event.of_not_isWorked (hidle event hevent)
    exact ⟨hcall, hpass, hsource⟩
  refine ⟨fun n hn => ?_, fun n hn => ?_, fun n hn => ?_⟩
  · rw [List.countP_eq_zero.mpr fun event hevent => Bool.eq_false_iff.mp (hnone event hevent).1]
    exact hcancelled.trans hn
  · rw [passesOf, List.countP_eq_zero.mpr fun event hevent =>
      Bool.eq_false_iff.mp (hnone event hevent).2.1]
    exact hpassed.trans hn
  · rw [sourceSkippedOf, Event.total_eq_zero fun event hevent => (hnone event hevent).2.2]
    exact hskipped.trans hn

/-- A link that `Keeps` its counters has followed no events. -/
theorem Keeps.tallies (h : l.Keeps l') : l.Tallies [] l' :=
  tallies_of_idle (fun _ hevent => absurd hevent List.not_mem_nil) h.cancelled_eq h.passed_eq
    h.sourceSkipped_eq

/-- An event is counted by what it does with captured audio, by
`Counters.record`. -/
theorem tallies_record (l : Link) (event : Event) :
    l.Tallies [event] (l.count (·.record event)) := by
  have hcount : ∀ {count n : Nat}, count = Word.unsigned n → ∀ more,
      Word.unsigned (count + more) = Word.unsigned (n + more) := by
    intro count n hn more
    rw [hn, Word.unsigned_add]
  cases event with
  | skipped captured => exact ⟨fun _ hn => hn, fun _ hn => hn, fun _ hn => hcount hn _⟩
  | cancelled captured played cleaned =>
      exact ⟨fun _ hn => hcount hn 1, fun _ hn => hn, fun _ hn => hn⟩
  | passed captured dropped => exact ⟨fun _ hn => hn, fun _ hn => hcount hn 1, fun _ hn => hn⟩
  | _ => exact ⟨fun _ hn => hn, fun _ hn => hn, fun _ hn => hn⟩

end Link

namespace Session

variable {κ υ : Type} [Canceller κ] [Producer υ] {allowed : Operation → Prop} {s t : Session κ υ}
  {entries : List Entry}

/-- The counters follow every step: only a step that works a block off counts
one of the three. For `Step.pair` the event is counted by `Counters.record`, and
in all other steps the three numbers are kept (`Link.Keeps`). -/
theorem Step.tallies (h : Step allowed s entries t) :
    s.link.Tallies (entries.filterMap Entry.event?) t.link := by
  have hquiet : entries.filterMap Entry.event? = [] → s.link.Keeps t.link →
      s.link.Tallies (entries.filterMap Entry.event?) t.link := by
    intro hnothing hkeeps
    rw [hnothing]
    exact hkeeps.tallies
  have hevent : ∀ event, event.isWorked = false → s.link.Tallies [event] s.link :=
    fun event hidle => Link.tallies_of_idle (List.forall_mem_singleton.mpr hidle) rfl rfl rfl
  -- A message that is lost is counted as a loss only.
  have hoffered : ∀ (kept : Bool) {link : Link},
      link.counters = s.link.counters → s.link.Tallies [] (if kept then link
        else link.count (·.addPostsDropped 1)) := by
    intro kept link hsame
    have hlost := link.keeps_lost kept
    exact Link.tallies_of_idle nofun
      (hlost.cancelled_eq.trans (congrArg Counters.cancelled hsame))
      (hlost.passed_eq.trans (congrArg Counters.passed hsame))
      (hlost.sourceSkipped_eq.trans (congrArg Counters.sourceSkipped hsame))
  cases h with
  | request => exact hquiet rfl s.link.keeps_requestResync
  | read => exact hquiet (events_readEntries s.link) s.link.keeps_readClock
  | world clock captureLatency playbackLatency => exact Link.tallies_of_idle nofun rfl rfl rfl
  | unlink ha => exact Link.tallies_of_idle nofun rfl rfl rfl
  | answer event he => exact hevent event (by cases event <;> first | rfl | cases he)
  | reportCapture running ha hnew =>
      rw [postCapture_eq]
      exact hoffered _ rfl
  | reportPlayback running ha hnew =>
      rw [postPlayback_eq]
      exact hoffered _ rfl
  | postCapture message hm =>
      rw [postCapture_eq]
      exact hoffered _ rfl
  | @handleControl c message rest hc hrest =>
      exact hquiet (c.events_handleEntries s.link message) (c.keeps_handle s.link message)
  | @handleData c message rest hc hrest =>
      exact hquiet (c.events_handleEntries s.link message) (c.keeps_handle s.link message)
  | @handlePlayback p message rest hp hrest =>
      exact hquiet (Playback.events_handleEntries s.link message) (p.keeps_handle s.link message)
  | resume hc hresuming ha => exact hquiet rfl s.link.keeps_requestResync
  | @accept c block hc ha =>
      exact hquiet (Capture.events_appendEntries _ _ block) (Link.Keeps.refl s.link)
  | @pair c event pairing hc hstep => exact s.link.tallies_record event
  | rewindCapture n hc ha => exact hevent _ rfl
  | @correct c usec hc ha => exact hquiet rfl (c.keeps_correct s.link usec)
  | @play p n hp hlinked ha =>
      rw [PlaybackScene.events_playEntries]
      have hkeeps := (s.scene p).keeps_play n
      exact Link.tallies_of_idle (List.forall_mem_singleton.mpr rfl) hkeeps.cancelled_eq
        hkeeps.passed_eq hkeeps.sourceSkipped_eq
  | @sendTiming p hp =>
      exact hquiet (PlaybackScene.events_sendTimingEntries _) (s.scene p).keeps_sendTiming
  | @rewindPlayback p n hp ha =>
      exact hquiet (PlaybackScene.events_postEntries _ _) ((s.scene p).keeps_rewind n)
  | idle n hp hlinked ha => exact hevent _ rfl
  | dropCapture hc ha => exact hevent _ rfl
  | _ => exact hquiet rfl (Link.Keeps.refl s.link)

/-- The counters follow any number of steps, by induction on `Steps`. -/
theorem Steps.tallies (h : Steps allowed s entries t) :
    s.link.Tallies (entries.filterMap Entry.event?) t.link := by
  refine h.induct (motive := fun t entries =>
    s.link.Tallies (entries.filterMap Entry.event?) t.link) (Link.Keeps.refl s.link).tallies ?_
  intro t u before entries hbefore hstep
  rw [List.filterMap_append]
  exact hbefore.trans hstep.tallies

omit [Producer υ] in
/-- In a new session nothing is counted (`Counters.zero`), and nothing waits. -/
theorem IsNew.untouched (h : s.IsNew) : s.link.counters = .zero ∧ s.waiting = [] := by
  obtain ⟨spec, capacity, canceller, producer, link, dumps?, rfl, ⟨_, _, _, _, rfl⟩, -⟩ := h.opened
  exact ⟨rfl, rfl⟩

/-- Whatever happens to a new session, as long as no rewind goes beyond the word
(`hword`), each captured byte that is taken (`acceptedOf`) has one lot, in the
order in which the bytes came: it was handed on, it was dropped to realign, it
was thrown away unread by an operation of a known number (`discardedAt`), or it
waits. All that is handed on are blocks of `blockBytes`. The counters
`cancelled` and `passed` together know how many there are, and `sourceSkipped`
how many bytes were dropped, as far as a word can tell (`Word.unsigned`). -/
theorem captured_ledger (hnew : s.IsNew) {operations : List Operation}
    (hword : ∀ n, .rewindCapture n ∈ operations → n ≤ Word.maxSigned) :
    let forwarded := (s.run operations).1.filterMap Event.forwarded?
    let counters := (s.run operations).2.link.counters
    ∃ ledger, s.Accounts operations ledger
      ∧ ledger.map Prod.fst = s.acceptedOf operations
      ∧ (∀ block ∈ forwarded, block.size = s.blockBytes)
      ∧ Word.unsigned forwarded.length = Word.unsigned (counters.cancelled + counters.passed)
      ∧ (forwarded.length ≤ Word.maxUnsigned →
        forwarded.length = counters.cancelled + counters.passed)
      ∧ Word.unsigned (ledger.countP (·.2.isSkipped)) = counters.sourceSkipped := by
  intro forwarded counters
  obtain ⟨-, hpos, hrecords⟩ := hnew.recording
  -- The counters start at zero, so that they have counted the whole trace.
  obtain ⟨hzero, hnothing⟩ := hnew.untouched
  obtain ⟨ledger, hledger⟩ := exists_accounts hpos hrecords hword
  have htallies := (s.steps_any operations).tallies
  rw [events_journalOf] at htallies
  have hcancelled := htallies.cancelled_eq 0 (congrArg Counters.cancelled hzero)
  have hpassed := htallies.passed_eq 0 (congrArg Counters.passed hzero)
  have hskipped := htallies.sourceSkipped_eq 0 (congrArg Counters.sourceSkipped hzero)
  have hlength : forwarded.length = _ := Event.length_forwarded (s.run operations).1
  rw [Nat.zero_add] at hcancelled hpassed hskipped
  refine ⟨ledger, hledger, ?_, fun block hblock => size_forwarded_run hpos hrecords hblock, ?_,
    fun hfew => ?_, ?_⟩
  · rw [hledger.bytes_eq, hnothing, List.nil_append]
  · rw [hlength, hcancelled, hpassed, Word.unsigned_add, Nat.add_comm _ (Word.unsigned _),
      Word.unsigned_add, Nat.add_comm]
  · rw [hlength] at hfew ⊢
    rw [hcancelled, hpassed, Word.unsigned_of_le (Nat.le_trans (Nat.le_add_right _ _) hfew),
      Word.unsigned_of_le (Nat.le_trans (Nat.le_add_left _ _) hfew)]
  · rw [hledger.skipped_eq, hskipped]

/-- The hypotheses of `captured_ledger` are met where two bytes come again, two
are dropped to realign, two are thrown away when the device is suspended, and
the last two wait. -/
theorem captured_ledger_trial :
    let operations : List Operation :=
      [.render 8, .push (.ofBytes ⟨#[100, 101, 102, 103, 104, 105]⟩), .rewindCapture 2,
        .correct 125, .push (.ofBytes ⟨#[106, 107, 108, 109, 110, 111, 112, 113]⟩),
        .reportDevice .input true, .reportDevice .input false, .push (.ofBytes ⟨#[114, 115]⟩)]
    (trial.run operations).1.flatMap Event.lots
        = [100, 101, 102, 103].map (·, .forwarded) ++ [106, 107].map (·, .skipped)
          ++ [108, 109, 110, 111].map (·, .forwarded)
      ∧ trial.discardedAt operations 2 = [104, 105] ∧ trial.discardedAt operations 7 = [112, 113]
      ∧ (trial.run operations).2.waiting = [114, 115]
      ∧ ∃ ledger, trial.Accounts operations ledger
        ∧ ledger.map Prod.fst = (List.range 16).map (UInt8.ofNat <| 100 + ·)
        ∧ ledger.countP (·.2.isSkipped) = 2 := by
  intro operations
  have hword : ∀ n, .rewindCapture n ∈ operations → n ≤ Word.maxSigned := by
    intro n hn
    simp only [operations, List.mem_cons, Operation.rewindCapture.injEq, reduceCtorEq, false_or,
      List.not_mem_nil, or_false] at hn
    subst hn
    decide
  obtain ⟨ledger, hledger, hbytes, -, -, -, -⟩ := captured_ledger isNew_trial hword
  refine ⟨by decide +kernel, by decide +kernel, by decide +kernel, by decide +kernel, ledger,
    hledger, hbytes.trans (by decide +kernel), ?_⟩
  rw [hledger.skipped_eq]
  decide +kernel

end Session

end EchoAlign
