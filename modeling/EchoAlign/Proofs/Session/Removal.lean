import EchoAlign.Proofs.Session.Ledger
import EchoAlign.Proofs.Session.Leftover
import EchoAlign.Proofs.Session.Teardown

/-!
# `EchoAlign.Proofs.Session.Removal`: a skip takes the bytes in front

A skip is used up in portions, by the block on the tape of captured audio and
by whatever lies unread on the tape of playback. `Skip.Removes` says what all
portions together come to: of the bytes that leave a tape, the first ones are
dropped, as many as the skip asks for, and all others are made use of.

* `Skip.Removes.append`: what is left of the skip goes on where the first
  events end.
* `Pairing.removes_step?`: a single step takes its portion from the front.
* `Removing.step`: so does a step of a session, if no other skip comes up.
* `taken_prefix`: the bytes that leave the tape of captured audio are those
  that wait and those that are taken in, in this order.
* `Step.supplies`, `Supplied.step`: the bytes that leave the tape of playback
  are those that lie on it, those that are on their way to it, and those that
  are sent later, in this order.
-/

set_option autoImplicit false

namespace EchoAlign

/-! ### What becomes of the bytes that leave a tape -/

/-- What became of a byte of playback that left its tape. For captured audio
this is `Lot`. -/
inductive Use where
  /-- The canceller got to hear it. -/
  | heard
  /-- It was dropped to realign. -/
  | dropped
  deriving DecidableEq, Repr

/-- The playback bytes an event takes off the tape, with their uses: `heard` in
a run of the canceller, `dropped` where a captured block is passed on. -/
def Event.uses : Event → List (UInt8 × Use)
  | cancelled _ played _ => played.toList.map (·, .heard)
  | passed _ dropped => dropped.toList.map (·, .dropped)
  | _ => []

/-- The captured bytes that events take off the tape, in order, by
`Event.captured?`. -/
def takenOf (events : List Event) : List UInt8 := bytesOfBlocks (events.filterMap Event.captured?)

/-- The playback bytes that events take off the tape, in order, by
`Event.played?`. -/
def usedOf (events : List Event) : List UInt8 := bytesOfBlocks (events.filterMap Event.played?)

/-- The captured bytes of events in two parts are those of the first part and
then of the second, as `takenOf` puts blocks one behind the other. -/
@[simp]
theorem takenOf_append (first rest : List Event) :
    takenOf (first ++ rest) = takenOf first ++ takenOf rest := by
  simp only [takenOf, List.filterMap_append, bytesOfBlocks_append]

/-- The playback bytes of events in two parts are those of the first part and
then of the second, as `usedOf` puts blocks one behind the other. -/
@[simp]
theorem usedOf_append (first rest : List Event) :
    usedOf (first ++ rest) = usedOf first ++ usedOf rest := by
  simp only [usedOf, List.filterMap_append, bytesOfBlocks_append]

/-- Only work on captured audio takes bytes off the tapes, so that idle events
come with no bytes, lots or uses. Told of `takenOf`, `usedOf`, `Event.lots` and
`Event.uses`, which all look at worked events only. -/
theorem Event.of_idle {events : List Event} (h : ∀ event ∈ events, event.isWorked = false) :
    takenOf events = [] ∧ usedOf events = [] ∧ events.flatMap lots = []
      ∧ events.flatMap uses = [] := by
  have hnone : ∀ event ∈ events, event.captured? = none ∧ event.played? = none
      ∧ event.lots = [] ∧ event.uses = [] := by
    intro event hevent
    have hidle := h event hevent
    cases event with
    | skipped captured => cases hidle
    | cancelled captured played cleaned => cases hidle
    | passed captured dropped => cases hidle
    | _ => exact ⟨rfl, rfl, rfl, rfl⟩
  refine ⟨?_, ?_, ?_, ?_⟩
  · rw [takenOf, List.filterMap_eq_nil_iff.mpr fun event hevent => (hnone event hevent).1]
    rfl
  · rw [usedOf, List.filterMap_eq_nil_iff.mpr fun event hevent => (hnone event hevent).2.1]
    rfl
  · exact List.flatMap_eq_nil_iff.mpr fun event hevent => (hnone event hevent).2.2.1
  · exact List.flatMap_eq_nil_iff.mpr fun event hevent => (hnone event hevent).2.2.2

/-- The first `n` bytes have one label and the others another. -/
def labelled {α : Type} (n : Nat) (early late : α) (bytes : List UInt8) : List (UInt8 × α) :=
  (bytes.take n).map (·, early) ++ (bytes.drop n).map (·, late)

section Labelled

variable {α : Type} {n : Nat} {early late : α} {bytes : List UInt8}

/-- No bytes have no labels, so that `labelled` has nothing to say of an event
without audio. -/
@[simp]
theorem labelled_nil : labelled n early late [] = [] := by
  simp [labelled]

/-- Where no byte is to be dropped, all have the later label (`late`). -/
@[simp]
theorem labelled_zero : labelled 0 early late bytes = bytes.map (·, late) := by
  simp [labelled]

/-- Where as many bytes are to be dropped as there are, all have the early label
(`early`). -/
theorem labelled_of_length_le (h : bytes.length ≤ n) :
    labelled n early late bytes = bytes.map (·, early) := by
  simp [labelled, List.take_of_length_le h, List.drop_of_length_le h]

/-- The labels of the bytes behind count on from those in front: of the `n`
bytes with the early label, the front has as many as it is long. -/
theorem labelled_append (front back : List UInt8) :
    labelled n early late (front ++ back)
      = labelled n early late front ++ labelled (n - front.length) early late back := by
  rcases Nat.le_total front.length n with hle | hle
  · simp [labelled, List.take_append, List.drop_append, List.take_of_length_le hle,
      List.drop_of_length_le hle]
  · simp [labelled, List.take_append, List.drop_append, Nat.sub_eq_zero_of_le hle]

end Labelled

/-! ### A skip is used up -/

namespace Skip

/-- Of the bytes that these events take off a tape, the first ones are dropped,
as many as the skip that was found asks for, and the others are not: `lots_eq`
says so of the captured ones, and the next field of the played ones. So much of
the skip is `left`. -/
structure Removes (found : Skip) (events : List Event) (left : Skip) : Prop where
  lots_eq : events.flatMap Event.lots
    = labelled found.source .skipped .forwarded (takenOf events)
  uses_eq : events.flatMap Event.uses = labelled found.sink .dropped .heard (usedOf events)
  source_eq : left.source = found.source - (takenOf events).length
  sink_eq : left.sink = found.sink - (usedOf events).length
  /-- Blocks are passed on as they are until all bytes of playback that are to
  be dropped have left the tape. -/
  passes : found.source = 0 → ∀ first event last, events = first ++ event :: last →
    event.isWorked = true → (usedOf first).length < found.sink → event.isPass = true

variable {found middle left : Skip} {first rest events : List Event}

/-- Where nothing is worked off, all of the skip is left: `Removes` leads from
the skip to itself. -/
theorem removes_of_idle (skip : Skip) (h : ∀ event ∈ events, event.isWorked = false) :
    skip.Removes events skip := by
  obtain ⟨htaken, hused, hlots, huses⟩ := Event.of_idle h
  refine ⟨?_, ?_, ?_, ?_, ?_⟩
  · rw [hlots, htaken, labelled_nil]
  · rw [huses, hused, labelled_nil]
  · rw [htaken]
    rfl
  · rw [hused]
    rfl
  · intro _ first event last hsplit hworked
    have hidle := h event (hsplit ▸ List.mem_append_right _ List.mem_cons_self)
    exact nomatch hidle.symm.trans hworked

/-- What is left of a skip is used up by the events that follow, by
`labelled_append` on either side. -/
theorem Removes.append (h : found.Removes first middle) (h' : middle.Removes rest left) :
    found.Removes (first ++ rest) left := by
  refine ⟨?_, ?_, ?_, ?_, ?_⟩
  · rw [List.flatMap_append, h.lots_eq, h'.lots_eq, h.source_eq, takenOf_append, labelled_append]
  · rw [List.flatMap_append, h.uses_eq, h'.uses_eq, h.sink_eq, usedOf_append, labelled_append]
  · rw [h'.source_eq, h.source_eq, takenOf_append, List.length_append, Nat.sub_sub]
  · rw [h'.sink_eq, h.sink_eq, usedOf_append, List.length_append, Nat.sub_sub]
  · intro hnone before event last hsplit hworked hshort
    -- The event is one of the first, or it comes behind all of them.
    rcases List.append_eq_append_iff.mp hsplit with ⟨between, rfl, hrest⟩ | ⟨between, hfirst, hrest⟩
    · rw [usedOf_append, List.length_append] at hshort
      have hsource : middle.source = 0 := by rw [h.source_eq, hnone, Nat.zero_sub]
      have hsink := h.sink_eq
      exact h'.passes hsource between event last hrest hworked (by omega)
    · cases between with
      | nil =>
          have hsource : middle.source = 0 := by rw [h.source_eq, hnone, Nat.zero_sub]
          have hsink := h.sink_eq
          rw [List.append_nil] at hfirst
          rw [List.nil_append] at hrest
          refine h'.passes hsource [] event last hrest.symm hworked ?_
          show 0 < middle.sink
          rw [hfirst] at hsink
          omega
      | cons other between =>
          obtain ⟨rfl, -⟩ := List.cons.inj hrest
          exact h.passes hnone before event between hfirst hworked hshort

/-- An event that comes alone has nothing before it, which is what `passes` of
`Removes` asks about. -/
theorem eq_of_singleton_eq {event other : Event} {last : List Event}
    (h : [event] = first ++ other :: last) : first = [] ∧ other = event := by
  cases first with
  | nil => exact ⟨rfl, (List.cons.inj h).1.symm⟩
  | cons head first =>
      have hlength := congrArg List.length h
      simp at hlength

/-- Captured audio is dropped while some is to be dropped (`hpos`), and `hle`
keeps a block from being dropped in part. -/
theorem removes_skipped {skip : Skip} {captured : Block} (hpos : 0 < skip.source)
    (hle : captured.size ≤ skip.source) :
    skip.Removes [.skipped captured] { skip with source := skip.source - captured.size } := by
  have htaken : takenOf [.skipped captured] = captured.toList := List.append_nil _
  refine ⟨?_, labelled_nil.symm, ?_, rfl, fun hnone => absurd hpos (by omega)⟩
  · rw [htaken, labelled_of_length_le (by rw [Block.length_toList]; exact hle)]
    exact List.append_nil _
  · rw [htaken, Block.length_toList]

/-- The canceller runs when nothing is to be dropped on either side (`hsource`,
`hsink`). -/
theorem removes_cancelled {skip : Skip} {captured played cleaned : Block}
    (hsource : skip.source = 0) (hsink : skip.sink = 0) :
    skip.Removes [.cancelled captured played cleaned] skip := by
  have htaken : takenOf [.cancelled captured played cleaned] = captured.toList :=
    List.append_nil _
  have hused : usedOf [.cancelled captured played cleaned] = played.toList := List.append_nil _
  refine ⟨?_, ?_, ?_, ?_, fun _ first event last _ _ hshort => absurd hshort (by omega)⟩
  · rw [htaken, hsource, labelled_zero]
    exact List.append_nil _
  · rw [hused, hsink, labelled_zero]
    exact List.append_nil _
  · rw [hsource, Nat.zero_sub]
  · rw [hsink, Nat.zero_sub]

/-- Playback is dropped while some is to be dropped, once no captured audio is.
A block of captured audio goes with it, as `Event.passed` says. -/
theorem removes_passed {skip : Skip} {captured dropped : Block} (hsource : skip.source = 0)
    (hle : dropped.size ≤ skip.sink) :
    skip.Removes [.passed captured dropped] { skip with sink := skip.sink - dropped.size } := by
  have htaken : takenOf [.passed captured dropped] = captured.toList := List.append_nil _
  have hused : usedOf [.passed captured dropped] = dropped.toList := List.append_nil _
  refine ⟨?_, ?_, ?_, ?_, fun _ first event last hsplit _ _ => ?_⟩
  · rw [htaken, hsource, labelled_zero]
    exact List.append_nil _
  · rw [hused, labelled_of_length_le (by rw [Block.length_toList]; exact hle)]
    exact List.append_nil _
  · show skip.source = _
    rw [hsource, Nat.zero_sub]
  · rw [hused, Block.length_toList]
  · rw [(eq_of_singleton_eq hsplit).2]
    rfl

end Skip

namespace Pairing

variable {κ : Type} [Canceller κ] {p next : Pairing κ} {event : Event} {frame base : Nat}
  {bytes : List UInt8}

/-- A step drops its portion of the skip, or makes use of what it takes: one
case for each kind of step, by `removes_skipped`, `removes_cancelled` and
`removes_passed`. -/
theorem removes_step? (hcaptured : p.captured.Holds frame bytes) (hplayed : p.played.Running base)
    (hword : p.played.writeHead ≤ (Word.maxSigned : Int)) (hstep : p.step? = some (event, next)) :
    p.skip.Removes [event] next.skip := by
  have hlength := hcaptured.length_le
  have heq := hcaptured.length_eq
  have hlength' := hplayed.length_le
  obtain ⟨hle, ⟨hsource, hcase⟩ | ⟨hsource, hcan, hcase⟩ | ⟨hsource, hcan, hcase⟩⟩ :=
    step?_cases hstep
  · cases hcase
    have hsize : (p.captured.peek (min p.skip.source p.blockBytes)).size
        = min p.skip.source p.blockBytes := hcaptured.sound.size_peek (by omega)
    have hremoves := Skip.removes_skipped hsource (hsize ▸ Nat.min_le_left _ _)
    rw [hsize] at hremoves
    exact hremoves
  · cases hcase
    exact Skip.removes_cancelled hsource (ready_of_canCancel hcan).2
  · cases hcase
    have hsize : (p.played.peek (min p.skip.sink p.played.length)).size
        = min p.skip.sink p.played.length := hplayed.sound.size_peek (by omega)
    have hremoves : p.skip.Removes [.passed (p.captured.peek p.blockBytes) _] _ :=
      Skip.removes_passed hsource (hsize ▸ Nat.min_le_left _ _)
    rw [hsize] at hremoves
    exact hremoves

/-- A step takes the playback it uses off the front of the tape, and leaves what
is behind. A call and a pass take some, and what they take is `Event.played?`. -/
theorem used_step? (hplayed : p.played.Running base)
    (hword : p.played.writeHead ≤ (Word.maxSigned : Int)) (hstep : p.step? = some (event, next)) :
    usedOf [event] ++ next.played.unread = p.played.unread := by
  have hlength := hplayed.length_le
  have hused : ∀ {n : Nat}, n ≤ p.played.length →
      (p.played.peek n).toList ++ [] ++ (p.played.advance n).unread = p.played.unread := by
    intro n hn
    rw [List.append_nil, hplayed.sound.toList_peek_unread (by omega) hn,
      hplayed.sound.unread_advance (by omega) hn, List.take_append_drop]
  obtain ⟨-, ⟨-, hcase⟩ | ⟨-, hcan, hcase⟩ | ⟨-, -, hcase⟩⟩ := step?_cases hstep
  · cases hcase
    rfl
  · cases hcase
    exact hused (ready_of_canCancel hcan).1
  · cases hcase
    exact hused (Nat.min_le_right _ _)

end Pairing

/-! ### What comes in -/

/-- Another skip may come up (`replacesSkip`), the device is suspended
(`isSuspension`), playback is taken back, or the tape refuses some. -/
def Entry.disturbs (entry : Entry) : Bool :=
  entry.replacesSkip || entry.isSuspension ||
    match entry with
    | handled (.rewound _) _ => true
    | refused .output _ => true
    | _ => false

/-- An entry that `disturbs` nothing neither replaces the skip nor is a
suspension. -/
theorem Entry.of_not_disturbs {entry : Entry} (h : entry.disturbs = false) :
    entry.replacesSkip = false ∧ entry.isSuspension = false := by
  simp only [disturbs, Bool.or_eq_false_iff] at h
  exact h.1

/-- The audio that the data mailbox took, in an `Entry.sent`. -/
def Entry.sentAudio? : Entry → Option Block
  | sent message => message.rendered?
  | _ => none

/-- The bytes of playback that the data mailbox took, in order, by
`Entry.sentAudio?`. -/
def sentOf (entries : List Entry) : List UInt8 :=
  bytesOfBlocks (entries.filterMap Entry.sentAudio?)

/-- What was sent in two parts is what was sent in the first and then in the
second, as `sentOf` puts blocks one behind the other. -/
@[simp]
theorem sentOf_append (first rest : List Entry) :
    sentOf (first ++ rest) = sentOf first ++ sentOf rest := by
  simp only [sentOf, List.filterMap_append, bytesOfBlocks_append]

/-- Nothing was sent where no entry tells of audio (`sentAudio?`). -/
theorem sentOf_eq_nil {entries : List Entry} (h : ∀ entry ∈ entries, entry.sentAudio? = none) :
    sentOf entries = [] := by
  rw [sentOf, List.filterMap_eq_nil_iff.mpr h]
  rfl

namespace Capture

variable {κ : Type} {c : Capture κ} {base : Nat}

/-- The audio in a message is put behind what lies unread, and nothing else
touches that, on a side that is awake (`hawake`) and undisturbed (`hcalm`). -/
theorem unread_played_handle (hplayed : c.pairing.played.Running base)
    (hawake : c.suspended = false) {link : Link} {message : CaptureMessage}
    (hcalm : ∀ entry ∈ c.handleEntries link message, entry.disturbs = false) :
    (c.handle link message).1.suspended = false
      ∧ (c.handle link message).1.pairing.played.unread
        = c.pairing.played.unread ++ bytesOfBlocks message.rendered?.toList := by
  have hsame : c.pairing.played.unread = c.pairing.played.unread ++ [] :=
    (List.append_nil _).symm
  cases message with
  | rendered block =>
      refine ⟨hawake, ?_⟩
      show (c.receive block).pairing.played.unread = _ ++ (block.toList ++ [])
      rw [List.append_nil]
      cases happend : c.pairing.played.append block with
      | ok played =>
          simp only [receive, hawake, happend]
          exact hplayed.sound.unread_append hplayed.heads happend
      | error e =>
          -- The refusal would be among the entries.
          have hrefused : .refused .output block ∈ c.handleEntries link (.rendered block) := by
            refine List.mem_cons_of_mem _ ?_
            simp [receiveEntries, appendEntries, hawake, happend]
          cases hcalm _ hrefused
  | rewound bytes => cases hcalm _ List.mem_cons_self
  | playbackTiming epoch timing =>
      show (c.resync link epoch timing).1.suspended = false
        ∧ (c.resync link epoch timing).1.pairing.played.unread = _
      unfold resync
      split
      · exact ⟨hawake, hsame⟩
      · exact ⟨hawake, hsame⟩
  | device state =>
      cases state with
      | suspended => cases hcalm _ List.mem_cons_self
      | running =>
          show (c.follow .running).suspended = false
            ∧ (c.follow .running).pairing.played.unread = _
          simp only [follow, hawake]
          exact ⟨hawake, hsame⟩
  | _ => exact ⟨hawake, hsame⟩

/-- Nothing is sent while a message is handled on the capture side: none of its
entries is `sent`. -/
theorem sentOf_handleEntries (c : Capture κ) (link : Link) (message : CaptureMessage) :
    sentOf (c.handleEntries link message) = [] := by
  refine sentOf_eq_nil fun entry hentry => ?_
  rcases mem_handleEntries hentry with rfl | rfl | ⟨_, -, rfl⟩ | ⟨_, _, -, rfl⟩ <;> rfl

end Capture

/-- The block that is made is sent, if the mailbox has room (`hasRoom`). The
underrun that is noted on the way sends nothing. -/
theorem PlaybackScene.sentOf_playEntries {υ : Type} [Producer υ] (s : PlaybackScene υ) (n : Nat) :
    sentOf (s.playEntries n)
      = if s.data.hasRoom then bytesOfBlocks [(s.play n).1] else [] := by
  have hunderrun : ∀ underrun, sentOf (s.playback.noteUnderrunEntries underrun) = [] := by
    intro underrun
    unfold Playback.noteUnderrunEntries
    split
    · rfl
    · rfl
  have hposted : ∀ block, sentOf (.event (.rendered block) :: s.postEntries (.rendered block))
      = if s.data.hasRoom then bytesOfBlocks [block] else [] := by
    intro block
    unfold postEntries
    cases s.data.hasRoom with
    | true => rfl
    | false => rfl
  rw [playEntries, sentOf_append, hunderrun]
  exact hposted _

namespace Session

variable {κ υ : Type} [Canceller κ] [Producer υ] {allowed : Operation → Prop} {s t : Session κ υ}
  {entries : List Entry} {size base : Nat}

/-! ### The skip through a run -/

/-- The capture side has what is left of a skip when these events have used some
of it up, as `Skip.Removes` tells. -/
def Removing (found : Skip) (s : Session κ υ) (events : List Event) : Prop :=
  ∃ left, found.Removes events left ∧ s.CaptureIs fun c => c.pairing.skip = left

/-- A step in which no other skip comes up goes on using the skip up. `hcorrect`
rules out a realignment from outside, `hkept` one from a message. -/
theorem Removing.step {found : Skip} {events : List Event} (h : s.Removing found events)
    (hinOrder : s.InOrder size base) (hcorrect : ∀ usec, ¬ allowed (.correct usec))
    (hstep : Step allowed s entries t) (hkept : ∀ entry ∈ entries, entry.replacesSkip = false) :
    t.Removing found (events ++ entries.filterMap Entry.event?) := by
  obtain ⟨left, hremoves, hleft⟩ := h
  rcases hstep.work_cases hcorrect hkept with ⟨hidle, hskip⟩ | ⟨c, event, pairing, hc, hpair,
    hentries, hnext⟩
  · refine ⟨left, hremoves.append (Skip.removes_of_idle left hidle), fun c' hc' => ?_⟩
    obtain ⟨c, hc, hskip⟩ := hskip c' hc'
    exact hskip.trans (hleft c hc)
  · obtain ⟨bytes, hcaptured⟩ := (hinOrder.records c hc).captured
    have hsounds := hinOrder.sounds c hc
    have hportion := Pairing.removes_step? hcaptured hsounds.played hsounds.written_le hpair
    rw [hleft c hc] at hportion
    refine ⟨pairing.skip, ?_, fun c' hc' => ?_⟩
    · rw [hentries]
      exact hremoves.append hportion
    · cases hc'.symm.trans hnext
      rfl

/-! ### Captured audio through a run -/

/-- Without a capture side, nothing is worked off, and so nothing is taken. By
induction on the operations with `Event.of_idle` for each. -/
theorem takenOf_gone (hgone : s.capture? = none) (operations : List Operation) :
    takenOf (s.run operations).1 = [] := by
  induction operations generalizing s with
  | nil => rfl
  | cons operation rest ih =>
      have hidle : ∀ event ∈ (s.perform operation).1, event.isWorked = false := by
        intro event hevent
        by_cases hpush : ∃ block, operation = .push block
        · obtain ⟨block, rfl⟩ := hpush
          have hnothing : (s.perform (.push block)).1 = [] := by
            simp only [perform, push, hgone]
          rw [hnothing] at hevent
          cases hevent
        · exact isWorked_of_mem_perform (fun block hblock => hpush ⟨block, hblock⟩) hevent
      have hstill : (s.perform operation).2.capture? = none := by
        have hsome := s.isSome_capture?_run [operation]
        rw [hgone] at hsome
        exact Option.not_isSome_iff_eq_none.mp (Bool.eq_false_iff.mp hsome)
      show takenOf ((s.perform operation).1 ++ ((s.perform operation).2.run rest).1) = []
      rw [takenOf_append, (Event.of_idle hidle).1, ih hstill]
      rfl

/-- While no captured audio comes again (`hback`) and none is thrown away by a
suspension (`hawake`), what is taken off the tape is what waits and then what is
taken in. -/
theorem taken_prefix (hpos : 0 < size) (hrecords : s.CaptureIs (Capture.Records size base))
    {operations : List Operation} (hback : ∀ n, .rewindCapture n ∉ operations)
    (hawake : ∀ entry ∈ s.journalOf operations, entry.isSuspension = false) :
    takenOf (s.run operations).1 <+: s.waiting ++ s.acceptedOf operations := by
  induction operations generalizing s with
  | nil => exact List.nil_prefix
  | cons operation rest ih =>
      show takenOf ((s.perform operation).1 ++ ((s.perform operation).2.run rest).1)
        <+: s.waiting ++ (s.acceptedBy operation ++ (s.perform operation).2.acceptedOf rest)
      rw [takenOf_append]
      have hsteps : Steps (fun _ => True) s (s.journal operation) (s.perform operation).2 :=
        s.steps_perform trivial
      obtain ⟨kept, hbalances⟩ : ∃ kept, s.Balances operation kept :=
        balances_perform hpos hrecords fun n hn => absurd (hn ▸ List.mem_cons_self) (hback n)
      by_cases hdrop : operation = .dropCapture
      · -- What waits goes away with the capture side.
        subst hdrop
        have hgone : (s.perform .dropCapture).2.capture? = none := by
          show s.dropCapture.2.capture? = none
          unfold dropCapture
          split
          · assumption
          · rfl
        have hnothing : takenOf (s.perform .dropCapture).1 = [] :=
          (Event.of_idle fun event => isWorked_of_mem_perform fun block hblock => by cases hblock).1
        rw [takenOf_gone hgone, hnothing]
        exact List.nil_prefix
      · have hdiscarded : s.discardedBy operation = [] := by
          have hnone : (s.journal operation).any Entry.isSuspension = false :=
            List.any_eq_false.mpr fun entry hentry =>
              Bool.eq_false_iff.mp (hawake entry (List.mem_append_left _ hentry))
          cases operation with
          | rewindCapture n => exact absurd List.mem_cons_self (hback n)
          | dropCapture => exact absurd rfl hdrop
          | _ => simp only [discardedBy, hnone, Bool.false_eq_true, if_false]
        have hwaiting := hbalances.waiting_eq
        rw [hdiscarded, List.append_nil] at hwaiting
        have hrest := ih (hrecords.steps (Capture.stable_records _ _ _) hsteps)
          (fun n hn => hback n (List.mem_cons_of_mem _ hn))
          fun entry hentry => hawake entry (List.mem_append_right _ hentry)
        rw [hwaiting, ← List.append_assoc, hbalances.kept_eq, List.append_assoc]
        exact (List.prefix_append_right_inj _).mpr hrest

/-! ### Playback through a run -/

/-- The bytes of playback that wait in the data mailbox, in order, by
`CaptureMessage.rendered?`. -/
def waitingAudio (s : Session κ υ) : List UInt8 :=
  bytesOfBlocks (s.data.items.filterMap CaptureMessage.rendered?)

omit [Canceller κ] [Producer υ] in
/-- The message that is taken out first brings its audio, if it is a `rendered`
one. -/
theorem waitingAudio_eq {message : CaptureMessage} (h : s.data.items = message :: t.data.items) :
    s.waitingAudio = bytesOfBlocks message.rendered?.toList ++ t.waitingAudio := by
  rw [waitingAudio, h, filterMap_cons_toList, bytesOfBlocks_append, waitingAudio]

omit [Canceller κ] [Producer υ] in
/-- What is posted waits if the mailbox takes it, behind all that waits already.
`h` is what `items_play`, `items_rewind` and the like say. -/
theorem waitingAudio_withScene {scene : PlaybackScene υ} {message : CaptureMessage}
    (h : scene.data.items
      = if s.data.hasRoom then s.data.items ++ [message] else s.data.items) :
    (s.withScene scene).waitingAudio
      = s.waitingAudio
        ++ if s.data.hasRoom then bytesOfBlocks message.rendered?.toList else [] := by
  show bytesOfBlocks (scene.data.items.filterMap CaptureMessage.rendered?) = _
  rw [h]
  cases s.data.hasRoom with
  | false => exact (List.append_nil _).symm
  | true =>
      simp only [if_true, List.filterMap_append, bytesOfBlocks_append, waitingAudio]
      cases message <;> rfl

/-- In a step, the playback that leaves the tape was in front. Behind it is what
else was on the tape or on its way, and what is sent in the step (`rest`). -/
structure Supplies (s : Session κ υ) (entries : List Entry) (t : Session κ υ) : Prop where
  gone : t.capture? = none → usedOf (entries.filterMap Entry.event?) = []
  rest : ∀ c', t.capture? = some c' → ∃ c, s.capture? = some c ∧ (c.suspended = false →
    c'.suspended = false ∧ usedOf (entries.filterMap Entry.event?)
        ++ (c'.pairing.played.unread ++ t.waitingAudio)
      = c.pairing.played.unread ++ (s.waitingAudio ++ sentOf entries))

omit [Canceller κ] [Producer υ] in
/-- A message that waits brings its audio from the mailbox to the tape. `hcalm`
says that it is no rewind and that its audio is not refused. -/
theorem supplies_handle {c : Capture κ} {message : CaptureMessage} (hc : s.capture? = some c)
    (hplayed : c.pairing.played.Running base)
    (hcalm : ∀ entry ∈ c.handleEntries s.link message, entry.disturbs = false)
    (hnext : t.capture? = some (c.handle s.link message).1)
    (hdata : s.waitingAudio = bytesOfBlocks message.rendered?.toList ++ t.waitingAudio) :
    s.Supplies (c.handleEntries s.link message) t := by
  refine ⟨fun hnone => (nomatch hnone.symm.trans hnext), fun c' hc' => ⟨c, hc, fun hawake => ?_⟩⟩
  cases hc'.symm.trans hnext
  obtain ⟨hstill, hunread⟩ := Capture.unread_played_handle hplayed hawake hcalm
  refine ⟨hstill, ?_⟩
  rw [Capture.events_handleEntries, Capture.sentOf_handleEntries, hunread, hdata, List.append_nil,
    List.append_assoc]
  rfl

/-- While no audio is taken back and none is thrown away, every step supplies
the tape in order: `hcapture` and `hplayback` rule out the rewinds. -/
theorem Step.supplies (hstep : Step allowed s entries t) (hinOrder : s.InOrder size base)
    (hcapture : ∀ n, ¬ allowed (.rewindCapture n)) (hplayback : ∀ n, ¬ allowed (.rewindPlayback n))
    (hcalm : ∀ entry ∈ entries, entry.disturbs = false) : s.Supplies entries t := by
  -- Most steps touch neither the tape nor the audio that waits.
  have hsame : t.capture? = s.capture? → usedOf (entries.filterMap Entry.event?) = [] →
      t.waitingAudio = s.waitingAudio ++ sentOf entries → s.Supplies entries t := by
    intro hc hused haudio
    refine ⟨fun _ => hused, fun c hc' => ⟨c, hc ▸ hc', fun hawake => ⟨hawake, ?_⟩⟩⟩
    rw [hused, haudio, List.nil_append]
  have hquiet : entries.filterMap Entry.event? = [] → (∀ entry ∈ entries,
      entry.sentAudio? = none) → t.capture? = s.capture? → t.waitingAudio = s.waitingAudio →
      s.Supplies entries t := by
    intro hevents hsent hc haudio
    refine hsame hc (by rw [hevents]; rfl) ?_
    rw [sentOf_eq_nil hsent, haudio, List.append_nil]
  -- The capture side does many things without touching them, either.
  have hacts : ∀ {c next : Capture κ}, s.capture? = some c → t.capture? = some next →
      (c.suspended = false → next.suspended = false) →
      next.pairing.played = c.pairing.played → entries.filterMap Entry.event? = [] →
      (∀ entry ∈ entries, entry.sentAudio? = none) → t.waitingAudio = s.waitingAudio →
      s.Supplies entries t := by
    intro c next hc hnext hstill hplayed hevents hsent haudio
    refine ⟨fun hnone => (nomatch hnone.symm.trans hnext), fun c' hc' => ⟨c, hc, fun hawake => ?_⟩⟩
    cases hc'.symm.trans hnext
    refine ⟨hstill hawake, ?_⟩
    rw [hevents, sentOf_eq_nil hsent, hplayed, haudio, List.append_nil]
    rfl
  cases hstep with
  | read =>
      refine hquiet (events_readEntries s.link) (fun entry hentry => ?_) rfl rfl
      rw [mem_readEntries hentry]
      rfl
  | answer event he =>
      refine hsame rfl ?_ (List.append_nil _).symm
      cases event <;> first | rfl | cases he
  | reportCapture running ha hnew =>
      rw [postCapture_eq] at hquiet ⊢
      exact hquiet rfl nofun rfl rfl
  | reportPlayback running ha hnew =>
      rw [postPlayback_eq] at hquiet ⊢
      exact hquiet rfl nofun rfl rfl
  | postCapture message hm =>
      rw [postCapture_eq] at hquiet ⊢
      exact hquiet rfl nofun rfl rfl
  | repack hcontrol hdata hbox =>
      refine hquiet rfl nofun rfl ?_
      unfold waitingAudio
      rw [hdata.items]
      rfl
  | @handleControl c message rest hc hrest =>
      have hmessage : message.isData = false :=
        hinOrder.control message (hrest.items ▸ List.mem_cons_self)
      refine supplies_handle hc (hinOrder.sounds c hc).played hcalm rfl ?_
      rw [CaptureMessage.rendered?_of_not_isData hmessage]
      rfl
  | @handleData c message rest hc hrest =>
      exact supplies_handle hc (hinOrder.sounds c hc).played hcalm rfl
        (waitingAudio_eq hrest.items)
  | @handlePlayback p message rest hp hrest =>
      refine hquiet (Playback.events_handleEntries s.link message) (fun entry hentry => ?_) rfl rfl
      rw [Playback.mem_handleEntries hentry]
      rfl
  | resume hc hresuming ha =>
      exact hacts hc rfl (fun _ => rfl) rfl rfl (List.forall_mem_singleton.mpr rfl) rfl
  | @accept c block hc ha =>
      have hsame : (c.accept block).suspended = c.suspended
          ∧ (c.accept block).pairing.played = c.pairing.played := by
        unfold Capture.accept
        split
        · exact ⟨rfl, rfl⟩
        · exact ⟨rfl, rfl⟩
      refine hacts hc rfl hsame.1.trans hsame.2 (Capture.events_appendEntries ..)
        (fun entry hentry => ?_) rfl
      rw [Capture.mem_appendEntries hentry]
      rfl
  | @pair c event pairing hc hpair =>
      -- The one step that takes playback off.
      have hsounds := hinOrder.sounds c hc
      have hused := Pairing.used_step? hsounds.played hsounds.written_le hpair
      refine ⟨nofun, fun c' hc' => ⟨c, hc, fun hawake => ?_⟩⟩
      cases hc'
      refine ⟨hawake, ?_⟩
      show usedOf [event] ++ (pairing.played.unread ++ s.waitingAudio) = _ ++ (s.waitingAudio ++ [])
      rw [← hused, List.append_nil, List.append_assoc]
  | rewindCapture n hc ha => exact absurd ha (hcapture n)
  | correct usec hc ha => exact hacts hc rfl id rfl rfl nofun rfl
  | @play p n hp hlinked ha =>
      refine hsame rfl (by rw [PlaybackScene.events_playEntries]; rfl) ?_
      rw [waitingAudio_withScene ((s.scene p).items_play n), PlaybackScene.sentOf_playEntries]
      rfl
  | @sendTiming p hp =>
      refine hquiet (PlaybackScene.events_sendTimingEntries _) (fun entry hentry => ?_) rfl ?_
      · rcases PlaybackScene.mem_sendTimingEntries hentry with rfl | ⟨_, _, rfl | rfl | rfl⟩ <;> rfl
      · cases howes : (s.scene p).owesTiming with
        | false =>
            rw [((s.scene p).sendTiming_of_not_owesTiming howes).1]
            rfl
        | true =>
            have hposted := ((s.scene p).sendTiming_of_owesTiming howes).1
            rw [waitingAudio_withScene hposted, show CaptureMessage.rendered? (.playbackTiming _ _)
              = none from rfl, show bytesOfBlocks (none : Option Block).toList = [] from rfl,
              ite_self, List.append_nil]
  | rewindPlayback n hp ha => exact absurd ha (hplayback n)
  | idle n hp hlinked ha => exact hsame rfl rfl (List.append_nil _).symm
  | @dropCapture c hc ha =>
      refine ⟨fun _ => ?_, fun c' hc' => ?_⟩
      · exact (Event.of_idle (List.forall_mem_singleton.mpr rfl)).2.1
      · cases hc'
  | request => exact hquiet rfl (List.forall_mem_singleton.mpr rfl) rfl rfl
  | _ => exact hquiet rfl nofun rfl rfl

/-- The capture side is at work. The playback that left the tape, what is on it
and what is on its way make up a `stream` and what was sent behind that. -/
structure Supplied (stream : List UInt8) (s : Session κ υ) (entries : List Entry) : Prop where
  used_prefix : usedOf (entries.filterMap Entry.event?) <+: stream ++ sentOf entries
  rest : ∀ c, s.capture? = some c → c.suspended = false
    ∧ usedOf (entries.filterMap Entry.event?) ++ (c.pairing.played.unread ++ s.waitingAudio)
      = stream ++ sentOf entries

omit [Canceller κ] [Producer υ] in
/-- Every step takes from the stream what comes next, so that `Supplied` goes
on. -/
theorem Supplied.step {stream : List UInt8} {before : List Entry} (h : s.Supplied stream before)
    (hsupplies : s.Supplies entries t) : t.Supplied stream (before ++ entries) := by
  have hrest : ∀ c', t.capture? = some c' → c'.suspended = false
      ∧ usedOf ((before ++ entries).filterMap Entry.event?)
          ++ (c'.pairing.played.unread ++ t.waitingAudio)
        = stream ++ sentOf (before ++ entries) := by
    intro c' hc'
    obtain ⟨c, hc, hflows⟩ := hsupplies.rest c' hc'
    obtain ⟨hawake, hbefore⟩ := h.rest c hc
    obtain ⟨hstill, hstep⟩ := hflows hawake
    refine ⟨hstill, ?_⟩
    rw [List.filterMap_append, usedOf_append, sentOf_append, List.append_assoc, hstep,
      ← List.append_assoc stream, ← hbefore]
    simp only [List.append_assoc]
  refine ⟨?_, hrest⟩
  cases hgone : t.capture? with
  | some c' => exact ⟨_, (hrest c' hgone).2⟩
  | none =>
      rw [List.filterMap_append, usedOf_append, hsupplies.gone hgone, List.append_nil,
        sentOf_append, ← List.append_assoc]
      exact h.used_prefix.trans (List.prefix_append _ _)

end Session

end EchoAlign
