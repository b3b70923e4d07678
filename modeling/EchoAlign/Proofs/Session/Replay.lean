import EchoAlign.Proofs.Session.Cuts
import EchoAlign.Proofs.Session.Intake
import EchoAlign.Proofs.Session.Past

/-!
# `EchoAlign.Proofs.Session.Replay`: captured audio that comes again

The consumer of the cleaned stream may ask for its last bytes again. The same
captured audio then comes a second time, and has to meet the playback it met
the first time.

* `rewind_replays`: with nothing to be dropped and nothing waiting, the
  canceller is given the same blocks in the same order, whatever pieces the
  audio comes in. Then the tape of playback stands where it stood before.
* `rewind_refuses`: a piece that is longer than a tape is lost.

Going back puts the playback of the last blocks in front of what lies unread
(`Tape.Remembers.rewind`). A side that is `Primed` has as much playback as
captured audio and nothing to drop, so that all it does is to run the
canceller on the blocks in front of both (`Primed.push`, `Primed.replay`).
-/

set_option autoImplicit false

namespace EchoAlign

/-! ### Pairs of blocks by their bytes -/

/-- Pairs of blocks of one size are told by the bytes of all of them: where both
sides flatten to the same bytes, the pairs are the same. By induction on the
first list, taking `size` bytes off either side each time. -/
theorem eq_of_flatten_eq {α β : Type} {size : Nat} (hpos : 0 < size)
    {pairs pairs' : List (List α × List β)}
    (hsizes : ∀ pair ∈ pairs, pair.1.length = size ∧ pair.2.length = size)
    (hsizes' : ∀ pair ∈ pairs', pair.1.length = size ∧ pair.2.length = size)
    (hfirst : (pairs.map Prod.fst).flatten = (pairs'.map Prod.fst).flatten)
    (hsecond : (pairs.map Prod.snd).flatten = (pairs'.map Prod.snd).flatten) : pairs = pairs' := by
  induction pairs generalizing pairs' with
  | nil =>
      cases pairs' with
      | nil => rfl
      | cons pair pairs' =>
          obtain ⟨hsize, -⟩ := hsizes' pair List.mem_cons_self
          have hlength := congrArg List.length hfirst
          simp only [List.map_nil, List.flatten_nil, List.length_nil, List.map_cons,
            List.flatten_cons, List.length_append] at hlength
          omega
  | cons pair pairs ih =>
      obtain ⟨hsize, hsizes⟩ := List.forall_mem_cons.mp hsizes
      cases pairs' with
      | nil =>
          have hlength := congrArg List.length hfirst
          simp only [List.map_nil, List.flatten_nil, List.length_nil, List.map_cons,
            List.flatten_cons, List.length_append] at hlength
          omega
      | cons pair' pairs' =>
          obtain ⟨hsize', hsizes'⟩ := List.forall_mem_cons.mp hsizes'
          simp only [List.map_cons, List.flatten_cons] at hfirst hsecond
          obtain ⟨hone, hrest⟩ := List.append_inj hfirst (hsize.1.trans hsize'.1.symm)
          obtain ⟨hone', hrest'⟩ := List.append_inj hsecond (hsize.2.trans hsize'.2.symm)
          rw [Prod.ext hone hone', ih hsizes hsizes' hrest hrest']

/-- The bytes of all first blocks, those of captured audio, in the runs of the
canceller (`pairsOf`). -/
def capturedIn (events : List Event) : List UInt8 := ((pairsOf events).map Prod.fst).flatten

/-- The bytes of all second blocks, those of playback, in the runs of the
canceller (`pairsOf`). -/
def playedIn (events : List Event) : List UInt8 := ((pairsOf events).map Prod.snd).flatten

/-- The captured bytes in two parts are those of the first part and then of the
second, by `pairsOf_append`. -/
theorem capturedIn_append (first rest : List Event) :
    capturedIn (first ++ rest) = capturedIn first ++ capturedIn rest := by
  simp only [capturedIn, pairsOf_append, List.map_append, List.flatten_append]

/-- The playback bytes in two parts are those of the first part and then of the
second, by `pairsOf_append`. -/
theorem playedIn_append (first rest : List Event) :
    playedIn (first ++ rest) = playedIn first ++ playedIn rest := by
  simp only [playedIn, pairsOf_append, List.map_append, List.flatten_append]

/-- A run of the canceller (`cancelled`) brings its captured block. -/
theorem capturedIn_cancelled (captured played cleaned : Block) :
    capturedIn [.cancelled captured played cleaned] = captured.toList :=
  List.append_nil _

/-- A run of the canceller (`cancelled`) brings its block of playback. -/
theorem playedIn_cancelled (captured played cleaned : Block) :
    playedIn [.cancelled captured played cleaned] = played.toList :=
  List.append_nil _

/-- Blocks of one `size` are as long as there are many, on either side. -/
theorem length_of_sized {size : Nat} {events : List Event}
    (h : ∀ pair ∈ pairsOf events, pair.1.length = size ∧ pair.2.length = size) :
    (capturedIn events).length = (pairsOf events).length * size
      ∧ (playedIn events).length = (pairsOf events).length * size := by
  have hfirst : ∀ piece ∈ (pairsOf events).map Prod.fst, piece.length = size :=
    List.forall_mem_map.mpr fun pair hpair => (h pair hpair).1
  have hsecond : ∀ piece ∈ (pairsOf events).map Prod.snd, piece.length = size :=
    List.forall_mem_map.mpr fun pair hpair => (h pair hpair).2
  constructor
  · rw [capturedIn, length_flatten_of_forall hfirst, List.length_map]
  · rw [playedIn, length_flatten_of_forall hsecond, List.length_map]

/-- Runs of the canceller take off what they are given: `takenOf` and `usedOf`
are `capturedIn` and `playedIn`. -/
theorem taken_of_calls {calls : List Event} (h : ∀ event ∈ calls, event.isCall = true) :
    takenOf calls = capturedIn calls ∧ usedOf calls = playedIn calls
      ∧ (pairsOf calls).length = calls.length := by
  induction calls with
  | nil => exact ⟨rfl, rfl, rfl⟩
  | cons event calls ih =>
      obtain ⟨hcall, hcalls⟩ := List.forall_mem_cons.mp h
      obtain ⟨htaken, hused, hcount⟩ := ih hcalls
      cases event with
      | cancelled captured played cleaned =>
          refine ⟨?_, ?_, ?_⟩
          · show captured.toList ++ takenOf calls = captured.toList ++ capturedIn calls
            rw [htaken]
          · show played.toList ++ usedOf calls = played.toList ++ playedIn calls
            rw [hused]
          · show (pairsOf calls).length + 1 = calls.length + 1
            rw [hcount]
      | _ => cases hcall

/-- Audio is taken off and paired only where captured audio is worked off, so
that the other events may be left out. By induction on the events with
`Event.isWorked` for the case split. -/
theorem worked_filter (events : List Event) :
    takenOf (events.filter Event.isWorked) = takenOf events
      ∧ usedOf (events.filter Event.isWorked) = usedOf events
      ∧ pairsOf (events.filter Event.isWorked) = pairsOf events := by
  induction events with
  | nil => exact ⟨rfl, rfl, rfl⟩
  | cons event events ih =>
      obtain ⟨htaken, hused, hpairs⟩ := ih
      have hsplit : event :: events = [event] ++ events := rfl
      rw [hsplit, List.filter_append]
      simp only [takenOf_append, usedOf_append, pairsOf_append, htaken, hused, hpairs]
      cases hworked : event.isWorked with
      | true =>
          rw [List.filter_cons_of_pos hworked]
          exact ⟨rfl, rfl, rfl⟩
      | false =>
          have hidle : ∀ event' ∈ [event], event'.isWorked = false :=
            List.forall_mem_singleton.mpr hworked
          obtain ⟨hnone, hnone', -, -⟩ := Event.of_idle hidle
          rw [List.filter_cons_of_neg (Bool.eq_false_iff.mp hworked), hnone, hnone',
            pairsOf_of_idle hidle]
          exact ⟨rfl, rfl, rfl⟩

/-- The last blocks that were handed on are these runs of the canceller. Nothing
was skipped between them, though something may have been behind them (`split`). -/
structure EndsIn (events calls : List Event) : Prop where
  isCall : ∀ event ∈ calls, event.isCall = true
  split : ∃ earlier skips, events.filter Event.isWorked = earlier ++ calls ++ skips
    ∧ ∀ event ∈ skips, event.forwarded? = none

/-- If only the canceller ran, all of its runs are the last ones: nothing has to
be left out for `EndsIn`. -/
theorem EndsIn.of_calls {events : List Event}
    (h : ∀ event ∈ events.filter Event.isWorked, event.isCall = true) :
    EndsIn events (events.filter Event.isWorked) :=
  ⟨h, [], [], (List.append_nil _).symm, nofun⟩

/-- If a trace ends in these runs, the playback in them was taken off last, and
their pairs are among those of the trace. What was skipped before and behind the
calls brought no playback, by `EndsIn.split`. -/
theorem EndsIn.used_eq {events calls : List Event} (h : EndsIn events calls) :
    (∃ earlier, usedOf events = earlier ++ playedIn calls)
      ∧ ∀ pair ∈ pairsOf calls, pair ∈ pairsOf events := by
  obtain ⟨earlier, skips, hsplit, hskips⟩ := h.split
  obtain ⟨-, hused, hpairs⟩ := worked_filter events
  obtain ⟨-, hplayed, -⟩ := taken_of_calls h.isCall
  have hnothing : usedOf skips = [] := by
    rw [usedOf, List.filterMap_eq_nil_iff.mpr fun event hevent => ?_]
    · rfl
    · have hnone := hskips event hevent
      cases event <;> first | rfl | cases hnone
  refine ⟨⟨usedOf earlier, ?_⟩, fun pair hpair => ?_⟩
  · rw [← hused, hsplit, usedOf_append, usedOf_append, hnothing, List.append_nil, hplayed]
  · rw [← hpairs, hsplit, pairsOf_append, pairsOf_append]
    exact List.mem_append_left _ (List.mem_append_right _ hpair)

/-! ### Nothing but runs of the canceller -/

/-- In these events the canceller runs on the blocks in front of both streams
(`captured` and `played`), and nothing else is worked off. The primed streams
are what is left. -/
structure Replays (size : Nat) (events : List Event)
    (captured played captured' played' : List UInt8) : Prop where
  calls : ∀ event ∈ events, event.isWorked = true → event.isCall = true
  sized : ∀ pair ∈ pairsOf events, pair.1.length = size ∧ pair.2.length = size
  captured_eq : captured = capturedIn events ++ captured'
  played_eq : played = playedIn events ++ played'

namespace Replays

variable {size : Nat} {first rest events : List Event}
  {captured played captured' played' captured'' played'' more : List UInt8}

/-- No events replay nothing: `Replays` leaves both streams as they are. -/
theorem nil (size : Nat) (captured played : List UInt8) :
    Replays size [] captured played captured played :=
  ⟨nofun, nofun, rfl, rfl⟩

/-- Two stretches of replay in a row make up one. The streams in the middle are
what the first stretch leaves and the second finds (`captured'`, `played'`). -/
theorem append (h : Replays size first captured played captured' played')
    (h' : Replays size rest captured' played' captured'' played'') :
    Replays size (first ++ rest) captured played captured'' played'' := by
  refine ⟨?_, ?_, ?_, ?_⟩
  · intro event hevent
    rcases List.mem_append.mp hevent with hevent | hevent
    · exact h.calls event hevent
    · exact h'.calls event hevent
  · rw [pairsOf_append]
    intro pair hpair
    rcases List.mem_append.mp hpair with hpair | hpair
    · exact h.sized pair hpair
    · exact h'.sized pair hpair
  · rw [h.captured_eq, h'.captured_eq, capturedIn_append, List.append_assoc]
  · rw [h.played_eq, h'.played_eq, playedIn_append, List.append_assoc]

/-- There may be `more` captured audio behind, without a difference to what is
in front. -/
theorem more_captured (h : Replays size events captured played captured' played') :
    Replays size events (captured ++ more) played (captured' ++ more) played' :=
  ⟨h.calls, h.sized, by rw [h.captured_eq, List.append_assoc], h.played_eq⟩

/-- As much is taken off the one stream as off the other, in whole blocks, by
`length_of_sized`. -/
theorem length_eq (h : Replays size events captured played captured' played') :
    (capturedIn events).length = (pairsOf events).length * size
      ∧ (playedIn events).length = (pairsOf events).length * size :=
  length_of_sized h.sized

/-- Where the audio of other runs of the canceller is in front, and less than a
block of captured audio is left (`hshort`), the canceller is given the same
blocks as in these. -/
theorem pairs_eq {calls : List Event} {rest : List UInt8}
    (h : Replays size events (capturedIn calls) (playedIn calls ++ rest) captured' played')
    (hshort : captured'.length < size)
    (hsized : ∀ pair ∈ pairsOf calls, pair.1.length = size ∧ pair.2.length = size) :
    pairsOf events = pairsOf calls ∧ captured' = [] ∧ played' = rest := by
  have hpos : 0 < size := Nat.lt_of_le_of_lt (Nat.zero_le _) hshort
  obtain ⟨hone, hother⟩ := h.length_eq
  obtain ⟨hone', hother'⟩ := length_of_sized hsized
  -- All that was captured is whole blocks, so that nothing is left.
  have hcaptured : (pairsOf calls).length * size
      = (pairsOf events).length * size + captured'.length := by
    rw [← hone', ← hone, ← List.length_append, ← h.captured_eq]
  have hnothing : captured' = [] := by
    have hrest := congrArg (· % size) hcaptured
    simp only [Nat.mul_mod_left, Nat.mul_add_mod_self_right] at hrest
    rw [Nat.mod_eq_of_lt hshort] at hrest
    exact List.eq_nil_of_length_eq_zero hrest.symm
  have hfirst := h.captured_eq
  rw [hnothing, List.append_nil] at hfirst
  rw [hnothing, List.length_nil, Nat.add_zero] at hcaptured
  obtain ⟨hsecond, hrest⟩ :=
    List.append_inj h.played_eq (by rw [hother', hother, hcaptured])
  exact ⟨eq_of_flatten_eq hpos h.sized hsized hfirst.symm hsecond.symm, hnothing, hrest.symm⟩

end Replays

namespace Pairing

variable {κ : Type} [Canceller κ] {p next last : Pairing κ} {event : Event} {events : List Event}
  {size base : Nat} {captured played : List UInt8}

/-- Nothing is to be dropped (`skip_eq`), and there is as much playback as
captured audio (`enough`). The two lists are what the tapes hold. -/
structure Primed (size base : Nat) (captured played : List UInt8) (p : Pairing κ) : Prop where
  blockBytes_eq : p.blockBytes = size
  holds : p.captured.Holds base captured
  running : p.played.Running base
  written_le : p.played.writeHead ≤ (Word.maxSigned : Int)
  unread_eq : p.played.unread = played
  skip_eq : p.skip = .idle
  enough : captured.length ≤ played.length

/-- All that can be done with a block is to cancel it, and the pairing is
`Primed` for what is left. -/
theorem Primed.step? (h : p.Primed size base captured played)
    (hstep : p.step? = some (event, next)) :
    Replays size [event] captured played (captured.drop size) (played.drop size)
      ∧ next.Primed size base (captured.drop size) (played.drop size)
      ∧ next.played.writeHead = p.played.writeHead := by
  obtain ⟨hsize, hcaptured, hrunning, hword, hunread, hskip, henough⟩ := h
  have hlength : p.played.length = played.length := by rw [← hunread, Tape.length_unread]
  have hbelow := hrunning.length_le
  obtain ⟨hle, hcases⟩ := step?_cases hstep
  rw [hcaptured.length_eq, hsize] at hle
  -- There is enough on the tape, so that a block can only be cancelled.
  have hcan : p.canCancel = true := by
    simp only [canCancel, hskip, Skip.idle, hsize, hlength, beq_self_eq_true, Bool.and_true,
      decide_eq_true_iff]
    omega
  rcases hcases with ⟨hsource, -⟩ | ⟨-, -, heq⟩ | ⟨-, hno, -⟩
  · rw [hskip] at hsource
    exact absurd hsource (Nat.lt_irrefl 0)
  · cases heq
    have hsized := sized_step? hcaptured hrunning hword hstep
    have hused := used_step? hrunning hword hstep
    have hpeek := hcaptured.toList_peek hle
    have hpeek' := hrunning.sound.toList_peek_unread (n := size) (by omega) (by omega)
    obtain ⟨hadvanced, hwrite⟩ := hrunning.advance (n := size) (by omega) (by omega)
    have hrest := hrunning.sound.unread_advance (n := size) (by omega) (by omega)
    rw [hunread] at hpeek' hrest
    subst hsize
    refine ⟨⟨fun _ hmem _ => ?_, hsized, ?_, ?_⟩, ?_, hwrite⟩
    · rw [List.mem_singleton.mp hmem]
      rfl
    · rw [capturedIn_cancelled, hpeek, List.take_append_drop]
    · rw [playedIn_cancelled, hpeek', List.take_append_drop]
    · refine ⟨rfl, hcaptured.advance hle, hadvanced, hwrite.symm ▸ hword, hrest, hskip, ?_⟩
      rw [List.length_drop, List.length_drop]
      omega
  · cases hno.symm.trans hcan

/-- So it is with one block after another, by induction on the `Path`. -/
theorem Primed.path (h : p.Primed size base captured played) (hpath : Path p events last) :
    ∃ captured' played', Replays size events captured played captured' played'
      ∧ last.Primed size base captured' played' ∧ last.played.writeHead = p.played.writeHead := by
  induction hpath generalizing captured played with
  | refl => exact ⟨captured, played, .nil size captured played, h, rfl⟩
  | cons hstep _ ih =>
      obtain ⟨hfirst, hnext, hwrite⟩ := h.step? hstep
      obtain ⟨captured', played', hrest, hlast, hwrite'⟩ := ih hnext
      exact ⟨captured', played', hfirst.append hrest, hlast, hwrite'.trans hwrite⟩

/-- Of the captured audio, less than a block is left, as `Pairing.drive` goes on
to where no block is. -/
theorem Primed.drive (h : p.Primed size base captured played) (hpos : 0 < size) :
    ∃ captured' played', Replays size p.drive.1 captured played captured' played'
      ∧ p.drive.2.Primed size base captured' played' ∧ captured'.length < size
      ∧ p.drive.2.played.writeHead = p.played.writeHead := by
  obtain ⟨hpath, hend⟩ := path_drive (h.blockBytes_eq ▸ hpos) h.holds
  obtain ⟨captured', played', hreplays, hlast, hwrite⟩ := h.path hpath
  have hshort := length_lt_of_step?_eq_none hend
  rw [hlast.holds.length_eq, hlast.blockBytes_eq] at hshort
  exact ⟨captured', played', hreplays, hlast, hshort, hwrite⟩

end Pairing

/-! ### Captured audio in pieces -/

namespace Session

variable {κ υ : Type} [Canceller κ] [Producer υ] {s : Session κ υ} {c : Capture κ}
  {size base : Nat} {captured played : List UInt8} {written : Int}

/-- No message waits for the linked capture side (`idle`, `linked`). It has as
much playback as captured audio, nothing to drop, and less than a block of
captured audio (`short`). -/
structure Primed (size base : Nat) (captured played : List UInt8) (written : Int)
    (s : Session κ υ) : Prop where
  idle : s.Idle
  linked : s.link.linked = true
  short : captured.length < size
  capture : ∃ c, s.capture? = some c ∧ c.pairing.Primed size base captured played
    ∧ c.pairing.played.writeHead = written

/-- A tick runs the canceller on all whole blocks, if the side is primed when
the messages are handled (`hprimed`) and there is playback for the audio that
arrives. -/
theorem primed_push (hc : s.capture? = some c) (hlinked : s.link.linked = true)
    (hprimed : (s.drainCapture c).1.pairing.Primed size base captured played) (hpos : 0 < size)
    {piece : Block} (hidle : (s.push piece).2.Idle) (hframes : piece.size % base = 0)
    (hroom : captured.length + piece.size ≤ maxTapeLength)
    (henough : captured.length + piece.size ≤ played.length) :
    ∃ captured' played', (s.push piece).2.Primed size base captured' played'
        (s.drainCapture c).1.pairing.played.writeHead
      ∧ Replays size (s.push piece).1 (captured ++ piece.toList) played captured' played' := by
  obtain ⟨tape, haccept, htape⟩ := Capture.accept_of_fits hprimed.holds hframes hroom
  -- With the piece on the tape, the side is primed still.
  have hready : ((s.drainCapture c).1.accept piece).pairing.Primed size base
      (captured ++ piece.toList) played := by
    rw [haccept]
    refine ⟨hprimed.blockBytes_eq, htape, hprimed.running, hprimed.written_le, hprimed.unread_eq,
      hprimed.skip_eq, ?_⟩
    rw [List.length_append, Block.length_toList]
    exact henough
  obtain ⟨captured', played', hreplays, hlast, hshort, hwrite⟩ := hready.drive hpos
  obtain ⟨hevents, hcapture, -⟩ := push_attend hc hlinked piece
  have hgoesOn : (Operation.push piece).isEnd = false := rfl
  have hlinked' : (s.push piece).2.link.linked = true := (linked_perform hgoesOn).1.trans hlinked
  refine ⟨captured', played', ⟨hidle, hlinked', hshort, _, hcapture, hlast, ?_⟩, ?_⟩
  · refine hwrite.trans ?_
    rw [haccept]
  · rw [hevents]
    exact hreplays

omit [Canceller κ] [Producer υ] in
/-- Without messages (`Idle`), nothing is handled, and the tapes stay as they
are. -/
theorem Idle.pairing_drainCapture (h : s.Idle) (c : Capture κ) :
    (s.drainCapture c).1.pairing = c.pairing := by
  obtain ⟨hcontrol, -⟩ := Mailbox.drain_of_nil h.control s.drainLimit
  obtain ⟨hdata, -⟩ := Mailbox.drain_of_nil h.data s.drainLimit
  have hattend : s.attend c = (c, s.link) := by
    rw [attend_eq, hcontrol, hdata]
    rfl
  show ((s.attend c).1.resume (s.attend c).2).1.pairing = c.pairing
  rw [hattend]
  exact (c.resume_cases s.link).1

/-- A piece of whole frames (`hframes`) is refused only if the tape has no room
for it. -/
theorem Primed.refused_iff (h : s.Primed size base captured played written) {piece : Block}
    (hframes : piece.size % base = 0) :
    (∃ block, .refused .input block ∈ s.journal (.push piece))
      ↔ maxTapeLength < captured.length + piece.size := by
  obtain ⟨c, hc, hprimed, -⟩ := h.capture
  have hsame := h.idle.pairing_drainCapture c
  have haccept : (s.drainCapture c).1.acceptEntries piece
      = Capture.appendEntries c.pairing.captured .input piece := by
    rw [Capture.acceptEntries, hsame]
  rw [journal_push hc h.linked, haccept]
  constructor
  · rintro ⟨block, hrefused⟩
    refine Nat.lt_of_not_le fun hroom => ?_
    obtain ⟨tape, happend, -⟩ := hprimed.holds.append hframes hroom
    rw [Capture.appendEntries, happend] at hrefused
    rcases List.mem_append.mp hrefused with hrefused | hrefused
    · exact not_refused_drainCapture hc block hrefused
    · obtain ⟨_, -, heq⟩ := List.mem_map.mp hrefused
      cases heq
  · intro hover
    have hfull : ¬(piece.size % base = 0 ∧ captured.length + piece.size ≤ maxTapeLength) :=
      fun hfits => absurd hfits.2 (by omega)
    obtain ⟨e, happend⟩ := hprimed.holds.append_eq_error hfull
    refine ⟨piece, List.mem_append_right _ (List.mem_append_left _ ?_)⟩
    rw [Capture.appendEntries, happend]
    exact List.mem_cons_self

/-- A piece that the tape has room for (`hroom`) is worked off in runs of the
canceller. -/
theorem Primed.push (h : s.Primed size base captured played written) {piece : Block}
    (hframes : piece.size % base = 0) (hroom : captured.length + piece.size ≤ maxTapeLength)
    (henough : captured.length + piece.size ≤ played.length) :
    ∃ captured' played', (s.push piece).2.Primed size base captured' played' written
      ∧ Replays size (s.push piece).1 (captured ++ piece.toList) played captured' played' := by
  obtain ⟨c, hc, hprimed, rfl⟩ := h.capture
  have hsame := h.idle.pairing_drainCapture c
  obtain ⟨-, -, -, -, hidle⟩ := h.idle.push hc h.linked piece
  have hpos : 0 < size := Nat.lt_of_le_of_lt (Nat.zero_le _) h.short
  rw [← hsame] at hprimed ⊢
  exact primed_push hc h.linked hprimed hpos hidle hframes hroom henough

/-- As long as there is playback for all of it (`henough`), captured audio is
worked off in runs of the canceller, whatever pieces it comes in, if no piece is
refused. By induction on the pieces with `Primed.push`. -/
theorem Primed.replay (h : s.Primed size base captured played written) {pieces : List Block}
    (hframes : ∀ piece ∈ pieces, piece.size % base = 0)
    (henough : captured.length + (bytesOfBlocks pieces).length ≤ played.length)
    (htaken : ∀ block, .refused .input block ∉ s.journalOf (pieces.map .push)) :
    ∃ captured' played', (s.run (pieces.map .push)).2.Primed size base captured' played' written
      ∧ Replays size (s.run (pieces.map .push)).1 (captured ++ bytesOfBlocks pieces) played
          captured' played' := by
  induction pieces generalizing s captured played with
  | nil =>
      refine ⟨captured, played, h, ?_⟩
      rw [show bytesOfBlocks [] = [] from rfl, List.append_nil]
      exact .nil size captured played
  | cons piece pieces ih =>
      obtain ⟨hfirst, hothers⟩ := List.forall_mem_cons.mp hframes
      have hbytes : bytesOfBlocks (piece :: pieces) = piece.toList ++ bytesOfBlocks pieces := rfl
      have hlength : (bytesOfBlocks (piece :: pieces)).length
          = piece.size + (bytesOfBlocks pieces).length := by
        rw [hbytes, List.length_append, Block.length_toList]
      have hroom : captured.length + piece.size ≤ maxTapeLength := by
        refine Nat.le_of_not_lt fun hover => ?_
        obtain ⟨block, hrefused⟩ := (h.refused_iff hfirst).mpr hover
        exact htaken block (List.mem_append_left _ hrefused)
      obtain ⟨captured', played', hnext, hreplays⟩ := h.push hfirst hroom (by omega)
      -- What one piece leaves has as much playback as before.
      have hleft : captured'.length + (bytesOfBlocks pieces).length ≤ played'.length := by
        obtain ⟨hone, hother⟩ := hreplays.length_eq
        have hcaptured := congrArg List.length hreplays.captured_eq
        have hplayed := congrArg List.length hreplays.played_eq
        rw [List.length_append, List.length_append, Block.length_toList] at hcaptured
        rw [List.length_append] at hplayed
        omega
      obtain ⟨captured'', played'', hlast, hrest⟩ := ih hnext hothers hleft fun block hrefused =>
        htaken block (List.mem_append_right _ hrefused)
      refine ⟨captured'', played'', hlast, ?_⟩
      rw [hbytes, ← List.append_assoc]
      exact hreplays.more_captured.append hrest

/-- No piece is refused where the tape has room for all of them together. By
induction on the pieces, each of which leaves the side `Primed` for the next. -/
theorem Primed.not_refused (h : s.Primed size base captured played written) {pieces : List Block}
    (hframes : ∀ piece ∈ pieces, piece.size % base = 0)
    (henough : captured.length + (bytesOfBlocks pieces).length ≤ played.length)
    (hroom : captured.length + (bytesOfBlocks pieces).length ≤ maxTapeLength) (block : Block) :
    .refused .input block ∉ s.journalOf (pieces.map .push) := by
  induction pieces generalizing s captured played with
  | nil => exact List.not_mem_nil
  | cons piece pieces ih =>
      obtain ⟨hfirst, hothers⟩ := List.forall_mem_cons.mp hframes
      have hlength : (bytesOfBlocks (piece :: pieces)).length
          = piece.size + (bytesOfBlocks pieces).length := by
        show (piece.toList ++ bytesOfBlocks pieces).length = _
        rw [List.length_append, Block.length_toList]
      obtain ⟨captured', played', hnext, hreplays⟩ := h.push hfirst (by omega) (by omega)
      obtain ⟨hone, hother⟩ := hreplays.length_eq
      have hcaptured := congrArg List.length hreplays.captured_eq
      have hplayed := congrArg List.length hreplays.played_eq
      rw [List.length_append, List.length_append, Block.length_toList] at hcaptured
      rw [List.length_append] at hplayed
      intro hrefused
      rcases List.mem_append.mp hrefused with hrefused | hrefused
      · exact absurd ((h.refused_iff hfirst).mp ⟨block, hrefused⟩) (by omega)
      · exact ih hnext hothers (by omega) (by omega) hrefused

/-! ### The last bytes again -/

omit [Canceller κ] [Producer υ] in
/-- What `rewindCapture` does: an event, and two tapes that are rewound by
`Capture.rewind`. -/
theorem rewindCapture_eq (hc : s.capture? = some c) (hlinked : s.link.linked = true) (n : Nat) :
    s.rewindCapture n = ([.rewound n], { s with capture? := some (c.rewind n) }) := by
  simp only [rewindCapture, hc, hlinked, Bool.not_true, Bool.false_eq_true, if_false]

/-- To go back is not to refuse anything, so that `refused` entries only come of
the operations behind it. -/
theorem refused_rewindCapture (n : Nat) (operations : List Operation) (block : Block) :
    .refused .input block ∈ s.journalOf (.rewindCapture n :: operations)
      ↔ .refused .input block ∈ (s.rewindCapture n).2.journalOf operations := by
  show .refused .input block ∈ (s.rewindCapture n).1.map Entry.event ++ _ ↔ _
  rw [List.mem_append]
  constructor
  · intro hrefused
    refine hrefused.resolve_left fun hevent => ?_
    obtain ⟨_, -, heq⟩ := List.mem_map.mp hevent
    cases heq
  · exact Or.inr

omit [Canceller κ] [Producer υ] in
/-- Going back by the last blocks primes the side for them: the tape of playback
remembers them (`IsNew.remembering`), and the captured tape had nothing left to
give back. -/
theorem primed_rewindCapture {history : Nat} {events calls : List Event} (hidle : s.Idle)
    (hlinked : s.link.linked = true) (hc : s.capture? = some c) (hpos : 0 < size)
    (hinOrder : s.InOrder size base) (hremembering : s.Remembering size history events)
    (hskip : c.pairing.skip = .idle) (hempty : c.pairing.captured.length = 0)
    (hcalls : EndsIn events calls) (hkept : calls.length * size ≤ history)
    (hword : calls.length * size ≤ Word.maxSigned) :
    (s.rewindCapture (calls.length * size)).2.Primed size base []
        (playedIn calls ++ c.pairing.played.unread) c.pairing.played.writeHead
      ∧ ∀ pair ∈ pairsOf calls, pair.1.length = size ∧ pair.2.length = size := by
  obtain ⟨⟨earlier, hused⟩, hmem⟩ := hcalls.used_eq
  have hsized : ∀ pair ∈ pairsOf calls, pair.1.length = size ∧ pair.2.length = size :=
    fun pair hpair => hremembering.sized pair (hmem pair hpair)
  have hlength : (playedIn calls).length = calls.length * size := by
    rw [(length_of_sized hsized).2, (taken_of_calls hcalls.isCall).2.2]
  have hsounds := hinOrder.sounds c hc
  have hrecords := hinOrder.records c hc
  obtain ⟨bytes, hbytes⟩ := hrecords.captured
  have hnothing : bytes = [] := List.eq_nil_of_length_eq_zero (hbytes.length_eq ▸ hempty)
  obtain ⟨hrunning, hwrite⟩ := hsounds.played.rewind (calls.length * size)
  have hunread := (hremembering.past c hc).rewind hsounds.played hkept (by
    rw [hused, List.length_append, hlength]
    omega)
  rw [hused, List.length_append, hlength, Nat.add_sub_cancel, List.drop_left] at hunread
  have hseek := hbytes.seekBack hword
  rw [hnothing, List.take_nil] at hseek
  rw [rewindCapture_eq hc hlinked]
  refine ⟨⟨⟨hidle.control, hidle.data⟩, hlinked, hpos, _, rfl, ?_, hwrite⟩, hsized⟩
  exact ⟨hrecords.blockBytes_eq, hseek, hrunning, hwrite.symm ▸ hsounds.written_le, hunread, hskip,
    Nat.zero_le _⟩

/-- In every state that a run of a new session leads to, if the consumer took
nothing back in it (`hback`): let the capture side be linked, with nothing to be
dropped, no captured audio and no message waiting. Let the last blocks that were
handed on be the runs `calls` of the canceller (`EndsIn`), with nothing skipped
between them, and no more than a second of audio. When the consumer takes back
this many bytes, and the same captured audio comes again in `pieces` of whole
frames, the canceller is given the same blocks in the same order, and nothing
else becomes of the audio, if no piece is refused. None is if a tape has room
for all of them (`maxTapeLength`). The heads of the tape of playback are then
where they were before. -/
theorem rewind_replays {new : Session κ υ} (hnew : new.IsNew) {operations : List Operation}
    (hword : ∀ n, .rewindPlayback n ∈ operations → n ≤ Word.maxSigned)
    (hback : ∀ n, .rewindCapture n ∉ operations)
    (hbytes : renderedBytesOf (new.run operations).1 ≤ Word.maxSigned)
    (hc : (new.run operations).2.capture? = some c)
    (hlinked : (new.run operations).2.link.linked = true) (hidle : (new.run operations).2.Idle)
    (hskip : c.pairing.skip = .idle) (hempty : c.pairing.captured.length = 0)
    {calls : List Event} (hcalls : EndsIn (new.run operations).1 calls)
    (hsecond : calls.length * new.blockBytes ≤ new.spec.bytesPerSecond)
    {pieces : List Block} (hframes : ∀ piece ∈ pieces, piece.size % new.spec.frameSize = 0)
    (hpieces : bytesOfBlocks pieces = takenOf calls) :
    let n := calls.length * new.blockBytes
    let again : List Operation := .rewindCapture n :: pieces.map .push
    let replayed := (new.run operations).2.run again
    (n ≤ maxTapeLength →
        ∀ block, .refused .input block ∉ (new.run operations).2.journalOf again)
      ∧ ((∀ block, .refused .input block ∉ (new.run operations).2.journalOf again) →
        pairsOf replayed.1 = pairsOf calls ∧ (pairsOf replayed.1).length = calls.length
          ∧ (∀ event ∈ replayed.1, event.isWorked = true → event.isCall = true)
          ∧ ∃ c', replayed.2.capture? = some c'
            ∧ c'.pairing.played.readHead = c.pairing.played.readHead
            ∧ c'.pairing.played.writeHead = c.pairing.played.writeHead) := by
  intro n again replayed
  have hfits : ∀ operation ∈ operations, FitsWord operation :=
    fun operation hmem n hn => hword n (hn ▸ hmem)
  have hremembering := hnew.remembering hfits hback hbytes
  have hinOrder : (new.run operations).2.InOrder new.blockBytes new.spec.frameSize :=
    hnew.inOrder_steps (new.steps_run hfits) (by rw [new.events_journalOf]; exact hbytes)
  obtain ⟨-, hpos, -⟩ := hnew.recording
  have hshort : n ≤ Word.maxSigned := by
    obtain ⟨spec, _, _, _, _, _, rfl, -, hspec, hrate, -⟩ := hnew.opened
    exact Nat.le_trans hsecond (StreamSpec.bytesPerSecond_le hspec hrate)
  obtain ⟨hprimed, hsized⟩ := primed_rewindCapture hidle hlinked hc hpos hinOrder hremembering
    hskip hempty hcalls hsecond hshort
  -- As much captured audio comes as playback is taken up again.
  obtain ⟨htaken, -, hcount⟩ := taken_of_calls hcalls.isCall
  obtain ⟨hone, hother⟩ := length_of_sized hsized
  rw [hcount] at hone hother
  have hlength : (bytesOfBlocks pieces).length = n := by rw [hpieces, htaken, hone]
  have henough : ([] : List UInt8).length + (bytesOfBlocks pieces).length
      ≤ (playedIn calls ++ c.pairing.played.unread).length := by
    rw [List.length_append, List.length_nil]
    omega
  refine ⟨fun hroom block hrefused => ?_, fun haccepted => ?_⟩
  · refine hprimed.not_refused hframes henough ?_ block
      ((refused_rewindCapture n _ block).mp hrefused)
    rw [hlength, List.length_nil]
    omega
  · obtain ⟨captured', played', hlast, hreplays⟩ := hprimed.replay hframes henough
      fun block hrefused => haccepted block ((refused_rewindCapture n _ block).mpr hrefused)
    rw [List.nil_append, hpieces, htaken] at hreplays
    obtain ⟨hpairs, -, hunread⟩ := hreplays.pairs_eq hlast.short hsized
    have hevents : replayed.1 = [.rewound n]
        ++ (((new.run operations).2.rewindCapture n).2.run (pieces.map .push)).1 := by
      have hback : ((new.run operations).2.rewindCapture n).1 = [.rewound n] := by
        rw [rewindCapture_eq hc hlinked]
      exact congrArg (· ++ _) hback
    have hsame : pairsOf replayed.1 = pairsOf calls := by
      rw [hevents, pairsOf_append, hpairs]
      rfl
    obtain ⟨c', hc', hprimed', hwrite⟩ := hlast.capture
    refine ⟨hsame, by rw [hsame, hcount], ?_, c', hc', ?_, hwrite⟩
    · rw [hevents]
      intro event hevent hworked
      rcases List.mem_cons.mp hevent with rfl | hevent
      · cases hworked
      · exact hreplays.calls event hevent hworked
    · -- As much lies unread as before, in front of the same write head.
      have hplayed := (hinOrder.sounds c hc).played
      have hlength' : c'.pairing.played.length = c.pairing.played.length := by
        rw [← Tape.length_unread, hprimed'.unread_eq, hunread, Tape.length_unread]
      have hheads := hplayed.heads
      have hheads' := hprimed'.running.heads
      unfold Tape.length at hlength'
      omega

/-- The hypotheses of `rewind_replays` are met where a block is passed on before
there is playback, and two are cancelled. The two come again in pieces of one
frame and of three. -/
theorem rewind_replays_trial :
    let operations : List Operation :=
      [.push (.ofBytes ⟨#[96, 97, 98, 99]⟩), .render 12,
        .push (.ofBytes ⟨#[100, 101, 102, 103, 104, 105, 106, 107]⟩)]
    let again : List Operation :=
      [.rewindCapture 8, .push (.ofBytes ⟨#[100, 101]⟩),
        .push (.ofBytes ⟨#[102, 103, 104, 105, 106, 107]⟩)]
    let events := (trial.run operations).1
    let replayed := (trial.run operations).2.run again
    pairsOf events = [([100, 101, 102, 103], [1, 2, 3, 4]), ([104, 105, 106, 107], [5, 6, 7, 8])]
      ∧ pairsOf replayed.1 = pairsOf events
      ∧ (replayed.2.capture?.map fun c => (c.pairing.played.readHead, c.pairing.played.writeHead))
        = some (8, 12) := by
  intro operations again events replayed
  obtain ⟨c, hc, hstate⟩ : ∃ c, (trial.run operations).2.capture? = some c
      ∧ (c.pairing.skip, c.pairing.captured.length, c.pairing.played.readHead,
        c.pairing.played.writeHead) = (.idle, 0, 8, 12) :=
    Option.map_eq_some_iff.mp (by decide +kernel)
  simp only [Prod.mk.injEq] at hstate
  obtain ⟨hskip, hempty, hread, hwrite⟩ := hstate
  have hcalls : EndsIn events ((events.filter Event.isWorked).drop 1) := by
    refine ⟨by decide +kernel, (events.filter Event.isWorked).take 1, [], ?_, nofun⟩
    rw [List.append_nil, List.take_append_drop]
  have hcount : ((events.filter Event.isWorked).drop 1).length = 2 := by decide +kernel
  have hframes : ∀ piece ∈ [Block.ofBytes ⟨#[100, 101]⟩,
      .ofBytes ⟨#[102, 103, 104, 105, 106, 107]⟩], piece.size % trial.spec.frameSize = 0 := by
    decide +kernel
  obtain ⟨haccepted, hreplays⟩ := rewind_replays isNew_trial
    (fun n hmem => by simp [operations] at hmem) (fun n hmem => by simp [operations] at hmem)
    (by decide +kernel) hc (by decide +kernel) ⟨by decide +kernel, by decide +kernel⟩ hskip hempty
    hcalls (by decide +kernel) hframes (by decide +kernel)
  rw [hcount] at haccepted hreplays
  obtain ⟨hpairs, -, -, c', hc', hread', hwrite'⟩ := hreplays (haccepted (by decide +kernel))
  refine ⟨by decide +kernel, hpairs.trans (by decide +kernel), ?_⟩
  rw [show replayed.2.capture? = some c' from hc', Option.map_some, hread', hwrite', hread, hwrite]

/-! ### A piece that is too long -/

/-- Only bytes that come in are taken in, so that `acceptedOf` is about the
blocks that operations push. -/
theorem mem_acceptedOf {operations : List Operation} {byte : UInt8}
    (h : byte ∈ s.acceptedOf operations) :
    ∃ block, .push block ∈ operations ∧ byte ∈ block.toList := by
  induction operations generalizing s with
  | nil => cases h
  | cons operation rest ih =>
      rcases List.mem_append.mp h with hfirst | hrest
      · cases operation with
        | push block =>
            refine ⟨block, List.mem_cons_self, ?_⟩
            simp only [acceptedBy] at hfirst
            split at hfirst
            · cases hfirst
            · split at hfirst
              · cases hfirst
              · split at hfirst
                · exact hfirst
                · cases hfirst
        | _ => cases hfirst
      · obtain ⟨block, hmem, hbyte⟩ := ih hrest
        exact ⟨block, List.mem_cons_of_mem _ hmem, hbyte⟩

end Session

/-- Silence that never ends, as a `Producer` without a state. -/
structure Silence where

namespace Silence

/-- A block of `n` silent bytes. Its size is known without counting its bytes. -/
def block (n : Nat) : Block :=
  ⟨silentBytes n, 0, n, by have hsize := size_silentBytes n; omega⟩

/-- A block of silence holds zeros (`silentBytes`). -/
theorem toList_block (n : Nat) : (block n).toList = List.replicate n 0 := by
  rw [Block.toList_eq]
  show ((silentBytes n).data.toList.drop 0).take n = _
  rw [List.drop_zero, toList_silentBytes, List.take_replicate, Nat.min_self]

/-- The instance hands on a `Silence.block` of any length, and a rewind changes
nothing. -/
instance : Producer Silence := ⟨fun s n => (⟨block n, 0⟩, s), fun s _ => s⟩

end Silence

namespace Session

/-- At a rate of 5 242 880 and with eight channels, a block is as long as a
tape. Two blocks are cancelled, less than half a second of audio. When they come
again in one piece, the tape has no room for it. The canceller is given nothing,
and the read head stays where it was put. What is taken back
fits a tape again only up to `maxTapeLength`. -/
theorem rewind_refuses :
    let settings : Settings :=
      { Settings.standard with
        rate := 5242880, channels := 8, method := .null, tuning := ⟨200, 200⟩ }
    let producer : Silence := ⟨⟩
    let link := Link.create (.showing 0) ⟨0, 0⟩ ⟨0, 0⟩
    let s := create settings.spec.asS16 256 (.null ⟨1048576⟩) producer link none
    let round : List Operation := [.render maxTapeLength, .push (Silence.block maxTapeLength)]
    let t := (s.run (round ++ round)).2
    let calls := (s.run (round ++ round)).1.filter Event.isWorked
    let whole := Silence.block (2 * maxTapeLength)
    let replayed := t.run [.rewindCapture (2 * maxTapeLength), .push whole]
    build settings producer link .fresh = .ok s
      ∧ (t.link.linked = true ∧ t.Idle
        ∧ t.capture?.map (fun c => (c.pairing.skip, c.pairing.captured.length))
          = some (.idle, 0))
      ∧ (EndsIn (s.run (round ++ round)).1 calls ∧ calls.length = 2
        ∧ calls.length * s.blockBytes = 2 * maxTapeLength
        ∧ calls.length * s.blockBytes ≤ s.spec.bytesPerSecond)
      ∧ (whole.size % s.spec.frameSize = 0 ∧ bytesOfBlocks [whole] = takenOf calls)
      ∧ (pairsOf replayed.1).length = 0
      ∧ t.capture?.map (fun c => c.pairing.played.readHead) = some (2 * maxTapeLength : Int)
      ∧ replayed.2.capture?.map (fun c => c.pairing.played.readHead) = some 0 := by
  intro settings producer link s round t calls whole replayed
  have hbuild : build settings producer link .fresh = .ok s := by
    dsimp only [settings, producer, link, s]
    rfl
  have hnew : s.IsNew := isNew_of_build (by decide) ⟨_, _, _, _, rfl⟩ hbuild
  have hends : EndsIn (s.run (round ++ round)).1 calls := .of_calls (by decide +kernel)
  have hcount : calls.length = 2 := by decide +kernel
  have hsize : s.blockBytes = maxTapeLength := by decide +kernel
  have hback : ∀ n, .rewindCapture n ∉ round ++ round := fun n hmem => by simp [round] at hmem
  -- All that is taken off the tape is silence, and it is two blocks.
  have htaken : takenOf calls = List.replicate (2 * maxTapeLength) 0 := by
    refine List.eq_replicate_iff.mpr ⟨?_, fun byte hbyte => ?_⟩
    · have hfits : ∀ operation ∈ round ++ round, FitsWord operation :=
        fun operation hmem n hn => by simp [round, hn] at hmem
      have hremembering := hnew.remembering hfits hback (by decide +kernel)
      obtain ⟨htaken, -, hpairs⟩ := taken_of_calls hends.isCall
      have hsized := fun pair hpair => hremembering.sized pair (hends.used_eq.2 pair hpair)
      rw [htaken, (length_of_sized hsized).1, hpairs, hcount, hsize]
    · obtain ⟨-, hpos, hrecords⟩ := hnew.recording
      have hfront := taken_prefix hpos hrecords hback (by decide +kernel)
      rw [(worked_filter _).1] at hbyte
      rcases List.mem_append.mp (hfront.subset hbyte) with hwaiting | haccepted
      · rw [hnew.untouched.2] at hwaiting
        cases hwaiting
      · obtain ⟨block, hmem, hbyte⟩ := mem_acceptedOf haccepted
        have hblock : block = Silence.block maxTapeLength := by simpa [round] using hmem
        rw [hblock, Silence.toList_block] at hbyte
        exact (List.mem_replicate.mp hbyte).2
  refine ⟨hbuild, ⟨by decide +kernel, ⟨by decide +kernel, by decide +kernel⟩, by decide +kernel⟩,
    ⟨hends, hcount, by rw [hcount, hsize], ?_⟩, ⟨by decide +kernel, ?_⟩, by decide +kernel,
    by decide +kernel, by decide +kernel⟩
  · rw [hcount, hsize]
    decide +kernel
  · rw [bytesOfBlocks, List.flatMap_singleton, htaken]
    exact Silence.toList_block _

end Session

end EchoAlign
