import EchoAlign.Proofs.Session.Correction
import EchoAlign.Proofs.Session.Leading
import EchoAlign.Proofs.Session.Parallel
import EchoAlign.Proofs.Session.Shift

/-!
# `EchoAlign.Proofs.Session.Unison`: parallel sessions go on in unison

From a capture tick on in which their messages come to the same, two parallel
sessions do the same, and what can be told of them is the same (`Matches`).

* `Parallel.goesOn_push`, `Parallel.goesOn`: so it is with the tick, and with
  any operation that follows.
* `GoesOn.run`: so it is with all of them.

The same playback may lie in different clips, and a tape drops its history clip
by clip. So one of the two may keep history that the other has lost. They can
differ when audio is taken up again from below the history that is kept for
sure. `StaysInHistory` rules that out.
-/

set_option autoImplicit false

namespace EchoAlign

/-! ### What a trace tells -/

/-- Events that are the `Same` give the canceller the same. -/
theorem Event.Same.pair_eq {event event' : Event} (h : event.Same event') :
    event'.pair? = event.pair? := by
  cases h with
  | refl => rfl
  | cancelled captured cleaned h => exact congrArg (fun played => some (captured.toList, played)) h
  | passed => rfl

/-- The canceller is given the same in traces of events that are the `Same`, one
by one. -/
theorem pairsOf_of_same {events events' : List Event} (h : List.Forall₂ Event.Same events events') :
    pairsOf events' = pairsOf events := by
  unfold pairsOf
  induction h with
  | nil => rfl
  | cons hfirst _ ih => rw [List.filterMap_cons, List.filterMap_cons, hfirst.pair_eq, ih]

namespace Capture

variable {κ : Type}

/-- No message moves the read head of the played tape. By cases on the message:
audio is put on and taken back at the write head, and `Tape.flush` moves that
one as well. -/
theorem readHead_handle (c : Capture κ) (link : Link) (message : CaptureMessage) :
    (c.handle link message).1.pairing.played.readHead = c.pairing.played.readHead := by
  cases message with
  | rendered block =>
      show (c.receive block).pairing.played.readHead = _
      unfold receive
      split
      · rfl
      · split
        · next played happend => exact Tape.readHead_append happend
        · rfl
  | rewound n =>
      show (c.takeBack n).pairing.played.readHead = _
      unfold takeBack
      split
      · rfl
      · rfl
  | timingRequest ticket => rfl
  | correct usec => rfl
  | playbackTiming epoch timing =>
      show (c.resync link epoch timing).1.pairing.played.readHead = _
      unfold resync
      split
      · rfl
      · rfl
  | device state =>
      cases state with
      | suspended => rfl
      | running =>
          show (c.follow .running).pairing.played.readHead = _
          simp only [follow]
          split
          · rfl
          · rfl

end Capture

namespace Session

variable {κ υ : Type} [Canceller κ] [Producer υ] {s t : Session κ υ} {c c' : Capture κ}
  {horizon : Int} {before : List Entry}

/-! ### The messages of a capture tick -/

/-- At any point of a capture tick, between any `first` messages and the others,
the tape of playback is in order. -/
theorem IsNew.sounds_midTick {new : Session κ υ} (hnew : new.IsNew)
    (hsteps : Steps FitsWord new before s)
    (hbytes : renderedBytesOf (before.filterMap Entry.event?) ≤ Word.maxSigned)
    (hc : s.capture? = some c) (k j : Nat) :
    (c.handleAll s.link ((s.captureControl.drain k).1 ++ (s.data.drain j).1)).1.Sounds
      new.spec.frameSize Word.maxSigned := by
  have hinOrder := hnew.inOrder_steps (hsteps.trans (steps_midTick hc k j)) (by
    rw [List.filterMap_append, events_midTickEntries, List.append_nil]
    exact hbytes)
  exact hinOrder.sounds _ rfl

omit [Canceller κ] in
/-- The same messages come to the same in two parallel sessions: the sides are
`Alike` afterwards, and the answers equal. -/
theorem Parallel.attend (h : s.Parallel Eq horizon t) (halike : c.Alike horizon c') :
    (s.attend c).1.Alike horizon (t.attend c').1 ∧ (t.attend c').2 = (s.attend c).2
      ∧ t.drainReplies c' = s.drainReplies c
      ∧ (t.data.drain t.drainLimit).2 = (s.data.drain s.drainLimit).2 := by
  obtain ⟨data, capture?, playback?, dumps?, rfl, rfl, -⟩ := h
  obtain ⟨hattend, hlink⟩ := halike.handleAll s.link
    ((s.captureControl.drain s.drainLimit).1 ++ (s.data.drain s.drainLimit).1)
  rw [attend_eq, attend_eq]
  exact ⟨hattend, hlink, halike.replies_eq _ _, rfl⟩

/-! ### From a capture tick on -/

/-- Where the history of playback that is kept begins (`historyFloor`), and
where the read head stands. -/
def heads? (s : Session κ υ) : Option (Int × Int) :=
  s.capture?.map fun c => (c.pairing.played.historyFloor, c.pairing.played.readHead)

/-- What `heads?` is after each operation, as long as the capture side is
there. -/
def headsAlong (s : Session κ υ) : List Operation → List (Int × Int)
  | [] => []
  | operation :: rest =>
      (s.perform operation).2.heads?.toList ++ (s.perform operation).2.headsAlong rest

/-- No playback is taken up again from below the history that was kept at any
time before: the read head never goes below an earlier `historyFloor`. -/
def StaysInHistory (s : Session κ υ) (operations : List Operation) : Prop :=
  (s.headsAlong operations).Pairwise fun earlier later => earlier.1 ≤ later.2

/-- Whether `StaysInHistory` holds of a run can be found by performing it. -/
instance (s : Session κ υ) (operations : List Operation) :
    Decidable (s.StaysInHistory operations) :=
  inferInstanceAs (Decidable (List.Pairwise _ _))

/-- What can be told of two sessions is the same: the link (`link_eq`), what the
mirror holds and what was received (`mirror_eq`), and the timings that either
side would give. -/
structure Matches (s t : Session κ υ) : Prop where
  link_eq : t.link = s.link
  mirror_eq : t.capture?.map (fun c => (c.pairing.played.unread, c.received))
    = s.capture?.map fun c => (c.pairing.played.unread, c.received)
  sent_eq : t.playback?.map (·.sent) = s.playback?.map (·.sent)
  captureTiming_eq : t.captureTiming.1 = s.captureTiming.1
  playbackTiming_eq : t.playbackTiming.1 = s.playbackTiming.1

/-- The read head of the played tape stands at the `horizon` or ahead of it. -/
def ReadsFrom (horizon : Int) (s : Session κ υ) : Prop :=
  s.CaptureIs fun c => horizon ≤ c.pairing.played.readHead

omit [Canceller κ] in
/-- Parallel sessions match, if nothing is read from before the horizon. What
`Matches` compares are the link, the mirror and the two timings, by
`Parallel.captureTiming` and `Parallel.playbackTiming`. -/
theorem Parallel.matches {Related : Mailbox CaptureMessage → Mailbox CaptureMessage → Prop}
    (h : s.Parallel Related horizon t) (hreads : s.ReadsFrom horizon) : s.Matches t := by
  obtain ⟨hcapture, -⟩ := h.captureTiming
  obtain ⟨hplayback, -⟩ := h.playbackTiming
  refine ⟨?_, ?_, ?_, hcapture, hplayback⟩
  · obtain ⟨data, capture?, playback?, dumps?, rfl, -⟩ := h
    rfl
  · obtain ⟨hnone, hnone'⟩ | ⟨c, c', hc, hc', _, rfl, played, rfl, hplayed⟩ := h.capture_cases
    · rw [hnone, hnone']
    · have hunread := hplayed.unread_eq (hreads c hc)
      rw [hc, hc', Option.map_some, Option.map_some, hunread]
  · obtain ⟨data, capture?, playback?, dumps?, rfl, -, -, hsides⟩ := h
    obtain ⟨hnone, rfl⟩ | ⟨p, p', hp, rfl, producer, rfl, -⟩ := rel_cases hsides
    · rw [hnone]
    · rw [hp]
      rfl

/-- A session whose later heads (`headsAlong`) are all ahead of the horizon
reads from there after its next operation. -/
theorem ReadsFrom.of_headsAlong {operation : Operation} {rest : List Operation}
    (h : ∀ place ∈ s.headsAlong (operation :: rest), horizon ≤ place.2) :
    (s.perform operation).2.ReadsFrom horizon := by
  intro c hc
  refine h (c.pairing.played.historyFloor, c.pairing.played.readHead)
    (List.mem_append_left _ ?_)
  rw [heads?, hc]
  exact List.mem_singleton.mpr rfl

omit [Producer υ] in
/-- Without a side to do something, or a link that is `linked`, a capture tick
does nothing. -/
theorem push_eq_self (h : s.capture? = none ∨ s.link.linked = false) (block : Block) :
    s.push block = ([], s) := by
  unfold push
  cases hc : s.capture? with
  | none => rfl
  | some c =>
      obtain hnone | hended := h
      · cases hc.symm.trans hnone
      · rw [hended]
        rfl

omit [Canceller κ] [Producer υ] in
/-- The messages of a tick leave the read head alone, by `readHead_handle` for
each. -/
theorem readHead_attend (s : Session κ υ) (c : Capture κ) :
    (s.attend c).1.pairing.played.readHead = c.pairing.played.readHead := by
  rw [attend_eq]
  refine Capture.handleAll_induct
    (motive := fun after => after.pairing.played.readHead = c.pairing.played.readHead) ?_ rfl s.link
  intro after link message _ hafter
  exact (after.readHead_handle link message).trans hafter

/-- Where a capture tick leaves the read head and the history that is kept,
nothing is taken up again from below later on, if the run stays in its history.
This is read off `StaysInHistory`, whose list of heads the tick stands in. -/
theorem later_of_heads {operation : Operation} {rest : List Operation} {last : Capture κ}
    (hlast : (s.perform operation).2.capture? = some last) (hsound : last.pairing.played.Sound)
    (hahead : horizon ≤ last.pairing.played.readHead)
    (hlater : ∀ place ∈ s.headsAlong (operation :: rest), horizon ≤ place.2)
    (hstays : s.StaysInHistory (operation :: rest)) :
    (s.perform operation).2.ReadsFrom (max horizon last.pairing.played.historyFloor)
      ∧ ∀ place ∈ (s.perform operation).2.headsAlong rest,
          max horizon last.pairing.played.historyFloor ≤ place.2 := by
  have hkept := hsound.historyFloor_le
  -- The horizon rises to history that is kept here, and by assumption no later
  -- place lies below it.
  constructor
  · intro c hc
    cases hlast.symm.trans hc
    omega
  · intro place hplace
    have hfloor : last.pairing.played.historyFloor ≤ place.2 := by
      refine (List.pairwise_append.mp hstays).2.2
        (last.pairing.played.historyFloor, last.pairing.played.readHead) ?_ place hplace
      rw [heads?, hlast]
      exact List.mem_singleton.mpr rfl
    have hhorizon := hlater place (List.mem_append_right _ hplace)
    omega

/-- What an operation does to two parallel sessions, and what may happen to both
from there on: the events are the `same`, and the sessions are parallel again
for some horizon. -/
structure GoesOn (operation : Operation) (rest : List Operation) (s t : Session κ υ) : Prop where
  same : List.Forall₂ Event.Same (s.perform operation).1 (t.perform operation).1
  later : ∃ horizon, (s.perform operation).2.Parallel Eq horizon (t.perform operation).2
    ∧ (s.perform operation).2.ReadsFrom horizon
    ∧ ∀ place ∈ (s.perform operation).2.headsAlong rest, horizon ≤ place.2

/-- So it is with a capture tick in which the messages come to the same
(`hattend`). The horizon rises to the history that is kept behind it. -/
theorem Parallel.goesOn_push {Related : Mailbox CaptureMessage → Mailbox CaptureMessage → Prop}
    {new : Session κ υ} (hnew : new.IsNew) (hsteps : Steps FitsWord new before s)
    (hbytes : renderedBytesOf (before.filterMap Entry.event?) ≤ Word.maxSigned)
    (h : s.Parallel Related horizon t) (hc : s.capture? = some c) (hc' : t.capture? = some c')
    (hlinked : s.link.linked = true) (hattend : (s.attend c).1.Alike horizon (t.attend c').1)
    (hlink : (t.attend c').2 = (s.attend c).2)
    (hreplies : t.drainReplies c' = s.drainReplies c)
    (hdrain : (t.data.drain t.drainLimit).2 = (s.data.drain s.drainLimit).2)
    (hread : horizon ≤ c.pairing.played.readHead) {tick : Block} {rest : List Operation}
    (hlater : ∀ place ∈ s.headsAlong (.push tick :: rest), horizon ≤ place.2)
    (hstays : s.StaysInHistory (.push tick :: rest)) : GoesOn (.push tick) rest s t := by
  have hsounds : (s.attend c).1.Sounds new.spec.frameSize Word.maxSigned := by
    rw [attend_eq]
    exact hnew.sounds_midTick hsteps hbytes hc _ _
  obtain ⟨hsame, last, hlast, hahead, hnext⟩ := h.push hc hc' hlinked hattend hlink hreplies hdrain
    hsounds (s.readHead_attend c ▸ hread) tick
  have hsound : last.pairing.played.Sound := by
    obtain ⟨hnone, -⟩ | ⟨last', _, hlast', -, _, -, _, -, hplayed⟩ := hnext.capture_cases
    · cases hlast.symm.trans hnone
    · cases hlast.symm.trans hlast'
      exact hplayed.sound
  exact ⟨hsame, _, hnext, later_of_heads hlast hsound hahead hlater hstays⟩

/-- Whatever happens to two parallel sessions, they go on to do the same, as
long as nothing is taken up again of which one of them may have lost the
history. A capture tick of a linked side is `Parallel.goesOn_push`, and anything
else is `Parallel.perform` with the same horizon. -/
theorem Parallel.goesOn {new : Session κ υ} (hnew : new.IsNew)
    (hsteps : Steps FitsWord new before s)
    (hbytes : renderedBytesOf (before.filterMap Entry.event?) ≤ Word.maxSigned)
    (h : s.Parallel Eq horizon t) (hreads : s.ReadsFrom horizon) {operation : Operation}
    {rest : List Operation} (hlater : ∀ place ∈ s.headsAlong (operation :: rest), horizon ≤ place.2)
    (hstays : s.StaysInHistory (operation :: rest)) : GoesOn operation rest s t := by
  -- The horizon stays where it is unless audio is worked off.
  have hquiet : (t.perform operation).1 = (s.perform operation).1
      ∧ (s.perform operation).2.Parallel Eq horizon (t.perform operation).2 →
      GoesOn operation rest s t := by
    rintro ⟨hsame, hnext⟩
    refine ⟨?_, horizon, hnext, .of_headsAlong hlater,
      fun place hplace => hlater place (List.mem_append_right _ hplace)⟩
    rw [hsame]
    exact Event.same_refl _
  -- Playback is worked off in capture ticks only.
  by_cases hpush : ∃ tick, operation = .push tick
  · obtain ⟨tick, rfl⟩ := hpush
    have hlink : t.link = s.link := (h.matches hreads).link_eq
    have hidle : (s.capture? = none ∨ s.link.linked = false)
        → (t.capture? = none ∨ t.link.linked = false) → GoesOn (.push tick) rest s t := by
      intro hidle hidle'
      refine hquiet ?_
      show (t.push tick).1 = (s.push tick).1 ∧ (s.push tick).2.Parallel Eq horizon (t.push tick).2
      rw [push_eq_self hidle, push_eq_self hidle']
      exact ⟨rfl, h⟩
    obtain ⟨hnone, hnone'⟩ | ⟨c, c', hc, hc', halike⟩ := h.capture_cases
    · exact hidle (Or.inl hnone) (Or.inl hnone')
    · cases hlinked : s.link.linked with
      | false => exact hidle (Or.inr hlinked) (Or.inr (hlink ▸ hlinked))
      | true =>
          obtain ⟨hattend, hlink, hreplies, hdrain⟩ := h.attend halike
          exact h.goesOn_push hnew hsteps hbytes hc hc' hlinked hattend hlink hreplies hdrain
            (hreads c hc) hlater hstays
  · exact hquiet (h.perform Mailbox.keptBy_eq (fun block heq => hpush ⟨block, heq⟩)
      (Or.inl trivial))

/-- So they leave the same trace, and nothing can be told that differs in the
end (`Matches`). By induction on the operations with `Parallel.goesOn`. -/
theorem GoesOn.run {new : Session κ υ} (hnew : new.IsNew) (hsteps : Steps FitsWord new before s)
    {operation : Operation} {rest : List Operation}
    (hfits : ∀ other ∈ operation :: rest, FitsWord other)
    (hbytes : renderedBytesOf (before.filterMap Entry.event? ++ (s.run (operation :: rest)).1)
      ≤ Word.maxSigned)
    (hstays : s.StaysInHistory (operation :: rest)) (h : GoesOn operation rest s t) :
    List.Forall₂ Event.Same (s.run (operation :: rest)).1 (t.run (operation :: rest)).1
      ∧ (s.run (operation :: rest)).2.Matches (t.run (operation :: rest)).2 := by
  -- The horizon may rise from one operation to the next, so it is no part of
  -- what the induction is on.
  induction rest generalizing operation s t before with
  | nil =>
      obtain ⟨hsame, _, hnext, hreads, -⟩ := h
      exact ⟨List.rel_append hsame .nil, hnext.matches hreads⟩
  | cons next rest ih =>
      obtain ⟨hsame, _, hnext, hreads, hlater⟩ := h
      obtain ⟨hfit, hfits'⟩ := List.forall_mem_cons.mp hfits
      have hstays' := (List.pairwise_append.mp hstays).2.1
      have hsteps' := hsteps.trans (s.steps_perform hfit)
      have hevents : (before ++ s.journal operation).filterMap Entry.event?
          ++ ((s.perform operation).2.run (next :: rest)).1
        = before.filterMap Entry.event? ++ (s.run (operation :: next :: rest)).1 := by
        rw [List.filterMap_append, events_journal, List.append_assoc]
        rfl
      rw [← hevents] at hbytes
      have hfewer := renderedBytesOf_append
        ((before ++ s.journal operation).filterMap Entry.event?)
        ((s.perform operation).2.run (next :: rest)).1
      obtain ⟨hsame', hmatches⟩ := ih hsteps' hfits' hbytes hstays'
        (hnext.goesOn hnew hsteps' (by omega) hreads hlater hstays')
      exact ⟨List.rel_append hsame hsame', hmatches⟩

/-- There is a `horizon` that lies behind any places. -/
theorem exists_le_places (places : List (Int × Int)) (first : Int) :
    ∃ horizon, horizon ≤ first ∧ ∀ place ∈ places, horizon ≤ place.2 := by
  induction places with
  | nil => exact ⟨first, Int.le_refl _, nofun⟩
  | cons place places ih =>
      obtain ⟨horizon, hfirst, hplaces⟩ := ih
      refine ⟨min horizon place.2, by omega, List.forall_mem_cons.mpr ⟨by omega, ?_⟩⟩
      intro other hother
      have hle := hplaces other hother
      omega

end Session

end EchoAlign
