import EchoAlign.Proofs.Session.Outage

/-!
# `EchoAlign.Proofs.Session.Leftover`: a skip outlives an outage

A suspension throws the audio of both tapes away. The skip that is pending
then was measured on this audio, but nothing takes it back. It waits for
other audio, until a correction or a resync puts another skip in its place.

* `skip_outlives_outage`: through an outage and behind it, what is left of
  the skip and what was dropped for it make up the skip that was found by
  the suspension.
* `skip_still_pending`: captured audio is dropped for a skip of before the
  outage once the side is back at work.

`Skip.Spends` is the account that is kept (`Spent.step`). Only one kind of
step changes it, that which works a block off (`Step.work_cases`). The account
is about whole events, and so it needs to know that the tapes give out as many
bytes as they are asked for (`InOrder`).
-/

set_option autoImplicit false

namespace EchoAlign

/-! ### The account of a skip -/

/-- What was dropped in these events and what is left make up the skip that was
found, on the captured side (`source_eq`) and on the rendered side (`sink_eq`). -/
structure Skip.Spends (found : Skip) (events : List Event) (left : Skip) : Prop where
  source_eq : found.source = sourceSkippedOf events + left.source
  sink_eq : found.sink = sinkSkippedOf events + left.sink

/-- The skip may give way to another: a correction is handled, or a resync
begun. Nothing else but dropping audio changes `Pairing.skip`. -/
def Entry.replacesSkip : Entry → Bool
  | handled message _ => message.isCorrection
  | resynced _ _ => true
  | _ => false

namespace Skip

variable {found middle left : Skip}

/-- Where nothing has happened, all of the skip is left: `Spends` is reflexive. -/
theorem Spends.refl (skip : Skip) : skip.Spends [] skip :=
  ⟨(Nat.zero_add _).symm, (Nat.zero_add _).symm⟩

/-- Two accounts in a row make up one: what the first leaves is what the second
finds (`middle`). -/
theorem Spends.append {first rest : List Event} (h : found.Spends first middle)
    (h' : middle.Spends rest left) : found.Spends (first ++ rest) left := by
  refine ⟨?_, ?_⟩
  · rw [sourceSkippedOf, Event.total_append, h.source_eq, h'.source_eq, Nat.add_assoc]
    rfl
  · rw [sinkSkippedOf, Event.total_append, h.sink_eq, h'.sink_eq, Nat.add_assoc]
    rfl

/-- Events that drop nothing (`hrest`) leave the account as it is. -/
theorem Spends.idle {first rest : List Event} (h : found.Spends first left)
    (hrest : ∀ event ∈ rest, event.sourceSkipped = 0 ∧ event.sinkSkipped = 0) :
    found.Spends (first ++ rest) left := by
  refine h.append ⟨?_, ?_⟩
  · rw [sourceSkippedOf, Event.total_eq_zero fun event hevent => (hrest event hevent).1,
      Nat.zero_add]
  · rw [sinkSkippedOf, Event.total_eq_zero fun event hevent => (hrest event hevent).2, Nat.zero_add]

end Skip

/-- A step takes off the skip what its event drops. `hcaptured` and `hplayed`
say that the two tapes are in order, so that `Tape.take` gives as many bytes as
the event counts. -/
theorem Pairing.spends_step? {κ : Type} [Canceller κ] {p next : Pairing κ} {event : Event}
    {frame base : Nat} {bytes : List UInt8} (hcaptured : p.captured.Holds frame bytes)
    (hplayed : p.played.Running base) (hword : p.played.writeHead ≤ (Word.maxSigned : Int))
    (hstep : p.step? = some (event, next)) : p.skip.Spends [event] next.skip := by
  have hlength := hcaptured.length_le
  have hlength' := hplayed.length_le
  have heq := hcaptured.length_eq
  obtain ⟨hle, ⟨hsource, hcase⟩ | ⟨hsource, hcan, hcase⟩ | ⟨hsource, hcan, hcase⟩⟩ :=
    step?_cases hstep
  · cases hcase
    have hsize : (p.captured.peek (min p.skip.source p.blockBytes)).size
        = min p.skip.source p.blockBytes := hcaptured.sound.size_peek (by omega)
    refine ⟨?_, (Nat.zero_add _).symm⟩
    show p.skip.source = ((p.captured.peek _).size + 0)
      + (p.skip.source - min p.skip.source p.blockBytes)
    omega
  · cases hcase
    exact ⟨(Nat.zero_add _).symm, (Nat.zero_add _).symm⟩
  · cases hcase
    have hsize : (p.played.peek (min p.skip.sink p.played.length)).size
        = min p.skip.sink p.played.length := hplayed.sound.size_peek (by omega)
    refine ⟨(Nat.zero_add _).symm, ?_⟩
    show p.skip.sink = ((p.played.peek _).size + 0)
      + (p.skip.sink - min p.skip.sink p.played.length)
    omega

namespace Capture

variable {κ : Type} {c : Capture κ}

/-- Handling a message leaves the skip alone, unless it is a correction or
begins a resync, that is, unless an entry `replacesSkip`. -/
theorem skip_handle {link : Link} {message : CaptureMessage}
    (h : ∀ entry ∈ c.handleEntries link message, entry.replacesSkip = false) :
    (c.handle link message).1.pairing.skip = c.pairing.skip := by
  -- What may replace the skip is in the journal.
  cases message with
  | correct usec => cases h (.handled (.correct usec) c.received) List.mem_cons_self
  | playbackTiming epoch timing =>
      show (c.resync link epoch timing).1.pairing.skip = c.pairing.skip
      unfold resync
      split
      · rfl
      · next hdue =>
          have hbegun : .resynced epoch timing ∈ c.resyncEntries link epoch timing := by
            unfold resyncEntries
            rw [if_neg hdue]
            exact List.mem_cons_self
          cases h _ (List.mem_cons_of_mem _ hbegun)
  | device state =>
      cases state with
      | suspended => rfl
      | running =>
          show (c.follow .running).pairing.skip = c.pairing.skip
          simp only [follow]
          split
          · rfl
          · rfl
  | _ => rfl

/-- A suspended side begins no resync, so that only a correction could replace
its skip. The guard on `suspended` comes first in `Capture.resync`. -/
theorem replacesSkip_of_suspended (hsuspended : c.suspended = true) {link : Link}
    {message : CaptureMessage} (hother : message.isCorrection = false) {entry : Entry}
    (hentry : entry ∈ c.handleEntries link message) : entry.replacesSkip = false := by
  rcases mem_handleEntries hentry with rfl | rfl | ⟨block, -, rfl⟩ | ⟨epoch, timing, rfl, rfl⟩
  · exact hother
  · rfl
  · rfl
  · rcases List.mem_cons.mp hentry with hentry | hentry
    · cases hentry
    · have hnone : c.resyncEntries link epoch timing = [] := by
        simp only [resyncEntries, hsuspended, Bool.true_or, if_true]
      have hentry : _ ∈ c.resyncEntries link epoch timing := hentry
      rw [hnone] at hentry
      cases hentry

/-- A suspended side keeps its skip, unless a correction is among the messages
(`hother`). By induction on the messages, as none of them ends a suspension. -/
theorem skip_handleAll (hsuspended : c.suspended = true) (link : Link)
    {messages : List CaptureMessage} (hother : ∀ message ∈ messages, message.isCorrection = false) :
    (c.handleAll link messages).1.pairing.skip = c.pairing.skip := by
  have h : (c.handleAll link messages).1.suspended = true
      ∧ (c.handleAll link messages).1.pairing.skip = c.pairing.skip := by
    -- The suspension has to be carried along: it keeps resyncs away.
    refine handleAll_induct (motive := fun c' => c'.suspended = true
      ∧ c'.pairing.skip = c.pairing.skip) ?_ ⟨hsuspended, rfl⟩ link
    intro c' link message hmessage ⟨hstill, hskip⟩
    refine ⟨suspended_handle link message hstill, ?_⟩
    rw [← hskip]
    exact skip_handle fun entry hentry =>
      replacesSkip_of_suspended hstill (hother message hmessage) hentry
  exact h.2

end Capture

namespace Session

variable {κ υ : Type} [Canceller κ] [Producer υ] {allowed : Operation → Prop} {s t : Session κ υ}
  {entries : List Entry} {found : Skip} {events : List Event}

/-! ### What a step does to the skip -/

/-- A step in which no other skip comes up leaves the skip alone and works
nothing off, or it works a block off. The second case is `Step.pair` with its
`Pairing.step?`; in all others the skip of the side behind the step is one that
it had before. -/
theorem Step.work_cases (hstep : Step allowed s entries t)
    (hcorrect : ∀ usec, ¬ allowed (.correct usec))
    (hkept : ∀ entry ∈ entries, entry.replacesSkip = false) :
    ((∀ event ∈ entries.filterMap Entry.event?, event.isWorked = false)
        ∧ ∀ c', t.capture? = some c' →
          ∃ c, s.capture? = some c ∧ c'.pairing.skip = c.pairing.skip)
      ∨ ∃ c event pairing, s.capture? = some c ∧ c.pairing.step? = some (event, pairing)
        ∧ entries = [.event event] ∧ t.capture? = some { c with pairing } := by
  have hnothing : entries.filterMap Entry.event? = [] →
      ∀ event ∈ entries.filterMap Entry.event?, event.isWorked = false := by
    intro hnone event hevent
    rw [hnone] at hevent
    cases hevent
  have hsame : t.capture? = s.capture? → ∀ c', t.capture? = some c' →
      ∃ c, s.capture? = some c ∧ c'.pairing.skip = c.pairing.skip :=
    fun hsame c' hc' => ⟨c', hsame.symm.trans hc', rfl⟩
  have hacts : ∀ {c next : Capture κ}, s.capture? = some c → t.capture? = some next →
      next.pairing.skip = c.pairing.skip → ∀ c', t.capture? = some c' →
      ∃ c, s.capture? = some c ∧ c'.pairing.skip = c.pairing.skip := by
    intro c next hc hnext hskip c' hc'
    cases hc'.symm.trans hnext
    exact ⟨c, hc, hskip⟩
  -- Only `pair` works a block off. All other acts leave the skip alone, since a
  -- correction is not among them.
  cases hstep.act with
  | quiet hevents hc' hdata =>
      refine Or.inl ⟨fun event hevent => ?_, hsame hc'⟩
      have hanswer := hevents event hevent
      cases event <;> first | rfl | cases hanswer
  | control hc hmessage hentries hnext hdata =>
      subst hentries
      exact Or.inl ⟨hnothing (Capture.events_handleEntries ..),
        hacts hc hnext (Capture.skip_handle hkept)⟩
  | data hc hentries hnext hdata =>
      subst hentries
      exact Or.inl ⟨hnothing (Capture.events_handleEntries ..),
        hacts hc hnext (Capture.skip_handle hkept)⟩
  | resume hc ha hentries hnext hdata =>
      subst hentries
      exact Or.inl ⟨hnothing rfl, hacts hc hnext rfl⟩
  | @accept c block hc ha hentries hnext hdata =>
      subst hentries
      refine Or.inl ⟨hnothing (Capture.events_appendEntries ..), hacts hc hnext ?_⟩
      unfold Capture.accept
      split
      · rfl
      · rfl
  | pair hc hpair hentries hnext hdata => exact Or.inr ⟨_, _, _, hc, hpair, hentries, hnext⟩
  | rewind hc ha hentries hnext hdata =>
      subst hentries
      exact Or.inl ⟨List.forall_mem_singleton.mpr rfl, hacts hc hnext rfl⟩
  | correct hc ha hentries hnext hdata => exact absurd ha (hcorrect _)
  | @post message hevents hword hc' hdata =>
      refine Or.inl ⟨fun event hevent => ?_, hsame hc'⟩
      rw [hevents] at hevent
      obtain ⟨block, -, rfl⟩ := List.mem_map.mp hevent
      rfl
  | idle hentries hc' hdata =>
      subst hentries
      exact Or.inl ⟨List.forall_mem_singleton.mpr rfl, hsame hc'⟩
  | drop hentries hnext hdata =>
      subst hentries
      exact Or.inl ⟨List.forall_mem_singleton.mpr rfl,
        fun c' hc' => nomatch hc'.symm.trans hnext⟩

/-! ### Tapes in order at any point of a run -/

/-- Both tapes of the capture side are in order, and nothing waits in its
control mailbox that only the playback side says. Every state in a run of a new
session is `InOrder`, by `IsNew.inOrder_steps`. -/
structure InOrder (size base : Nat) (s : Session κ υ) : Prop where
  records : s.CaptureIs (Capture.Records size base)
  sounds : s.CaptureIs (Capture.Sounds base Word.maxSigned)
  control : s.ControlOnly

/-- The tapes are in order (`InOrder`) in every state of a run, as long as no
more is rendered than a word can count (`hbytes`). -/
theorem IsNew.inOrder_steps {new : Session κ υ} (hnew : new.IsNew)
    (hsteps : Steps FitsWord new entries s)
    (hbytes : renderedBytesOf (entries.filterMap Entry.event?) ≤ Word.maxSigned) :
    s.InOrder new.blockBytes new.spec.frameSize where
  records := hnew.recording.2.2.steps (Capture.stable_records _ _ _) hsteps
  sounds c hc := (hnew.sounding_steps hsteps hbytes c hc).mono (by omega)
  control := (hnew.balanced_steps hsteps).1.control

/-- What every step keeps that finds the tapes in order is kept by a run, as
long as no more is rendered than a word can count. The induction is on `Steps`,
and carries `InOrder` beside the `motive`, which each step may then use. -/
theorem IsNew.steps_induct {new : Session κ υ} (hnew : new.IsNew) {before : List Entry}
    (hbefore : Steps FitsWord new before s) (hfits : ∀ operation, allowed operation →
      FitsWord operation) (hsteps : Steps allowed s entries t)
    (hbytes : renderedBytesOf ((before ++ entries).filterMap Entry.event?) ≤ Word.maxSigned)
    {motive : Session κ υ → List Entry → Prop} (hstart : motive s [])
    (hstep : ∀ t u first next, t.InOrder new.blockBytes new.spec.frameSize → motive t first →
      Step allowed t next u → (∀ entry ∈ next, entry ∈ entries) → motive u (first ++ next)) :
    motive t entries := by
  induction hsteps with
  | refl => exact hstart
  | @tail t u first next hsteps hlast ih =>
      have hsofar : Steps FitsWord new (before ++ first) t := hbefore.trans (hsteps.mono hfits)
      rw [← List.append_assoc, List.filterMap_append, renderedBytesOf_append] at hbytes
      have hfewer : renderedBytesOf ((before ++ first).filterMap Entry.event?)
          ≤ Word.maxSigned := by omega
      have hfirst := ih hfewer fun t u first' next' hinOrder hmotive hnext hmem =>
        hstep t u first' next' hinOrder hmotive hnext fun entry hentry =>
          List.mem_append_left _ (hmem entry hentry)
      exact hstep t u first next (hnew.inOrder_steps hsofar hfewer) hfirst hlast
        fun entry hentry => List.mem_append_right _ hentry

/-! ### The account through a run -/

/-- The capture side has what is left of a skip after these events, in the sense
of `Skip.Spends`. -/
def Spent (found : Skip) (events : List Event) (s : Session κ υ) : Prop :=
  s.CaptureIs fun c => found.Spends events c.pairing.skip

/-- The account goes on over one step as long as no other skip comes up:
`hcorrect` rules out a realignment from outside, `hkept` one from a message. -/
theorem Spent.step {size base : Nat} (h : s.Spent found events) (hinOrder : s.InOrder size base)
    (hcorrect : ∀ usec, ¬ allowed (.correct usec)) (hstep : Step allowed s entries t)
    (hkept : ∀ entry ∈ entries, entry.replacesSkip = false) :
    t.Spent found (events ++ entries.filterMap Entry.event?) := by
  intro c' hc'
  rcases hstep.work_cases hcorrect hkept with ⟨hidle, hskip⟩ | ⟨c, event, pairing, hc, hpair,
    hentries, hnext⟩
  · obtain ⟨c, hc, hskip⟩ := hskip c' hc'
    rw [hskip]
    refine (h c hc).idle fun event hevent => ?_
    obtain ⟨-, -, -, -, hsource, hsink⟩ := Event.of_not_isWorked (hidle event hevent)
    exact ⟨hsource, hsink⟩
  · -- The one step that uses the skip up.
    cases hc'.symm.trans hnext
    obtain ⟨bytes, hcaptured⟩ := (hinOrder.records c hc).captured
    have hsounds := hinOrder.sounds c hc
    rw [hentries]
    exact (h c hc).append
      (Pairing.spends_step? hcaptured hsounds.played hsounds.written_le hpair)

/-- An operation that does not realign the streams at once with `correct`. -/
def KeepsSkip (operation : Operation) : Prop := ∀ usec, operation ≠ .correct usec

/-- The account goes on through any number of steps, as long as no entry
`replacesSkip`, and as long as no more is rendered than a word can count. -/
theorem Spent.steps {new : Session κ υ} {before : List Entry} (hnew : new.IsNew)
    (hbefore : Steps FitsWord new before s) (h : s.Spent found events)
    (hsteps : Steps (fun operation => FitsWord operation ∧ KeepsSkip operation) s entries t)
    (hbytes : renderedBytesOf ((before ++ entries).filterMap Entry.event?) ≤ Word.maxSigned)
    (hkept : ∀ entry ∈ entries, entry.replacesSkip = false) :
    t.Spent found (events ++ entries.filterMap Entry.event?) := by
  refine hnew.steps_induct hbefore (fun _ ha => ha.1) hsteps hbytes
    (motive := fun t entries => t.Spent found (events ++ entries.filterMap Entry.event?)) ?_ ?_
  · rw [List.filterMap_nil, List.append_nil]
    exact h
  · intro t u first next hinOrder hspent hstep hmem
    rw [List.filterMap_append, ← List.append_assoc]
    exact hspent.step hinOrder (fun usec ha => ha.2 usec rfl) hstep
      fun entry hentry => hkept entry (hmem entry hentry)

/-! ### A suspension and what comes after it -/

/-- A suspension is handled in the next capture tick while `found` is to be
dropped, and no correction behind it: the control messages of the tick split at
`.device .suspended`, the `first` of them leave `found` in `Pairing.skip`, and
none behind replaces it. -/
def Strands (s : Session κ υ) (found : Skip) : Prop :=
  ∃ first later, (s.captureControl.drain s.drainLimit).1 = first ++ .device .suspended :: later
    ∧ s.capture?.map (fun c => (c.handleAll s.link first).1.pairing.skip) = some found
    ∧ ∀ message ∈ later ++ (s.data.drain s.drainLimit).1, message.isCorrection = false

omit [Canceller κ] [Producer υ] in
/-- A skip can be stranded (`Strands`) only where the capture side is there. -/
theorem Strands.isSome (h : s.Strands found) : s.capture?.isSome = true := by
  obtain ⟨first, later, -, hfound, -⟩ := h
  rw [← Option.isSome_map, hfound]
  rfl

omit [Canceller κ] [Producer υ] in
/-- The skip is still there when all messages of the tick are handled, by
`skip_handleAll` for what is behind the suspension. -/
theorem Strands.skip_eq {c : Capture κ} (h : s.Strands found) (hc : s.capture? = some c) :
    (s.drainCapture c).1.pairing.skip = found := by
  obtain ⟨first, later, hsplit, hfound, hother⟩ := h
  rw [hc] at hfound
  cases hfound
  have hresume : (s.drainCapture c).1.pairing.skip = (s.attend c).1.pairing.skip := by
    show ((s.attend c).1.resume (s.attend c).2).1.pairing.skip = _
    unfold Capture.resume
    split
    · rfl
    · rfl
  -- Behind the suspension there are only messages that keep the skip.
  have hattend : s.attend c
      = (c.handleAll s.link first).1.handleAll (c.handleAll s.link first).2
          (.device .suspended :: (later ++ (s.data.drain s.drainLimit).1)) := by
    rw [attend_eq, hsplit, List.append_assoc, Capture.handleAll_append]
    rfl
  rw [hresume, hattend]
  exact Capture.skip_handleAll (c := ((c.handleAll s.link first).1.follow .suspended)) rfl _ hother

/-- From the suspension on, the account goes on until another skip comes up. The
suspension splits the messages of the tick: before it the skip is `found` by
`Strands`, and behind it `Step.work_cases` goes on with the account. -/
theorem Strands.spent {new : Session κ υ} {before : List Entry} (hnew : new.IsNew)
    (hbefore : Steps FitsWord new before s) (h : s.Strands found) (hlinked : s.link.linked = true)
    {block : Block} {more : List Operation}
    (hmore : ∀ operation ∈ more, FitsWord operation ∧ KeepsSkip operation)
    (hbytes : renderedBytesOf (before.filterMap Entry.event? ++ (s.run (.push block :: more)).1)
      ≤ Word.maxSigned)
    (hkept : ∀ entry ∈ (s.push block).2.journalOf more, entry.replacesSkip = false) :
    (s.run (.push block :: more)).2.Spent found (s.run (.push block :: more)).1 := by
  obtain ⟨c, hc⟩ := Option.isSome_iff_exists.mp h.isSome
  have hlegal : FitsWord (.push block) ∧ KeepsSkip (.push block) := by
    constructor
    · intro n hn
      cases hn
    · intro usec hn
      cases hn
  have hdrain := hbefore.trans (steps_drainCapture hc hlegal.1)
  have hstart : Spent found []
      { (s.drainCapture c).2 with capture? := some (s.drainCapture c).1 } := by
    intro c' hc'
    cases hc'
    rw [h.skip_eq hc]
    exact .refl found
  -- What is captured in the tick comes behind the suspension, too.
  have hwork : Steps (fun operation => FitsWord operation ∧ KeepsSkip operation)
      { (s.drainCapture c).2 with capture? := some (s.drainCapture c).1 }
      ((s.drainCapture c).1.acceptEntries block ++ (s.push block).1.map .event)
      (s.push block).2 := by
    simp only [push, hc, hlinked, Bool.not_true, Bool.false_eq_true, if_false]
    exact steps_process rfl block hlegal
  have hrest := hwork.trans ((s.push block).2.steps_run hmore)
  have haccepted : ((s.drainCapture c).1.acceptEntries block).filterMap Entry.event? = [] :=
    Capture.events_appendEntries ..
  have hevents : ((s.drainCapture c).1.acceptEntries block ++ (s.push block).1.map Entry.event
      ++ (s.push block).2.journalOf more).filterMap Entry.event?
        = (s.run (.push block :: more)).1 := by
    rw [List.filterMap_append, List.filterMap_append, haccepted, events_map_event,
      events_journalOf]
    rfl
  have hspent := hstart.steps hnew hdrain hrest ?_ ?_
  · rw [hevents] at hspent
    exact hspent
  · rw [List.filterMap_append, List.filterMap_append, events_drainCaptureEntries, List.append_nil,
      hevents]
    exact hbytes
  · intro entry hentry
    rcases List.mem_append.mp hentry with hentry | hentry
    · rcases List.mem_append.mp hentry with hentry | hentry
      · rw [Capture.mem_appendEntries hentry]
        rfl
      · obtain ⟨event, -, rfl⟩ := List.mem_map.mp hentry
        rfl
    · exact hkept entry hentry

/-- In every run of a new session: a skip `found` that is pending when a
suspension is handled (`Strands`) stays pending, if no correction is handled and
no resync begun behind it (`hkept`). When the side goes back to work at the end
of the `Outage`, what is left of the skip and what has been dropped for it
meanwhile make up the skip that was found. No playback has been dropped, unless
the consumer took bytes back. Later on more is dropped for it, and the account
of `Skip.Spends` goes on until another skip comes up. -/
theorem skip_outlives_outage (hnew : s.IsNew) {before rest after : List Operation} {block : Block}
    (hword : ∀ n, .rewindPlayback n ∈ before ++ rest ++ after → n ≤ Word.maxSigned)
    (hbytes : renderedBytesOf (s.run (before ++ .push block :: rest ++ after)).1 ≤ Word.maxSigned)
    (houtage : (s.run before).2.Outage block rest) (hfound : (s.run before).2.Strands found)
    (hcorrect : ∀ usec, .correct usec ∉ rest ++ after)
    (hkept : ∀ entry ∈ ((s.run before).2.push block).2.journalOf (rest ++ after),
      entry.replacesSkip = false) :
    let outage := (s.run before).2.run (.push block :: rest)
    let resumed := outage.2.run after
    (∃ c, outage.2.capture? = some c ∧ c.suspended = false
        ∧ found.Spends outage.1 c.pairing.skip)
      ∧ ((∀ n, .rewindCapture n ∉ rest) → sinkSkippedOf outage.1 = 0)
      ∧ ∀ c, resumed.2.capture? = some c →
          found.Spends (outage.1 ++ resumed.1) c.pairing.skip := by
  intro outage resumed
  have hfits : ∀ operation ∈ before ++ rest ++ after, FitsWord operation :=
    fun operation hmem n hn => hword n (hn ▸ hmem)
  have hkeeps : ∀ operation ∈ rest ++ after, KeepsSkip operation :=
    fun operation hmem usec hn => hcorrect usec (hn ▸ hmem)
  have hlegal : ∀ operation ∈ rest ++ after, FitsWord operation ∧ KeepsSkip operation := by
    intro operation hmem
    refine ⟨hfits operation ?_, hkeeps operation hmem⟩
    rw [List.append_assoc]
    exact List.mem_append_right _ hmem
  have hbefore : Steps FitsWord s (s.journalOf before) (s.run before).2 :=
    s.steps_run fun operation hmem =>
      hfits operation (List.mem_append_left _ (List.mem_append_left _ hmem))
  -- What happens in and behind the outage happens one after the other.
  have hboth : (s.run before).2.run (.push block :: (rest ++ after))
      = (outage.1 ++ resumed.1, resumed.2) := run_append _ (.push block :: rest) after
  have hrun : (s.run (before ++ .push block :: rest ++ after)).1
      = (s.run before).1 ++ (outage.1 ++ resumed.1) := by
    rw [List.append_assoc, run_append, List.cons_append, hboth]
  rw [hrun, ← s.events_journalOf before] at hbytes
  have hsofar : renderedBytesOf ((s.journalOf before).filterMap Entry.event? ++ outage.1)
      ≤ Word.maxSigned := by
    simp only [renderedBytesOf_append] at hbytes ⊢
    omega
  refine ⟨?_, fun hback => ?_, ?_⟩
  · obtain ⟨c, hc, hawake⟩ := Option.map_eq_some_iff.mp houtage.lasts.awake
    refine ⟨c, hc, hawake, ?_⟩
    refine hfound.spent hnew hbefore houtage.linked
      (fun operation hmem => hlegal operation (List.mem_append_left _ hmem)) hsofar ?_ c hc
    intro entry hentry
    refine hkept entry ?_
    rw [journalOf_append]
    exact List.mem_append_left _ hentry
  · -- Without bytes that are taken back, there is no playback to be dropped.
    have hfirst : renderedBytesOf ((s.journalOf before).filterMap Entry.event?)
        ≤ Word.maxSigned := by
      rw [renderedBytesOf_append] at hsofar
      omega
    have hquiet := (hnew.hushed hbefore hfirst houtage
      fun operation hmem n hn => hback n (hn ▸ hmem)).1
    exact Event.total_eq_zero fun event hevent => (hquiet event hevent).sinkSkipped_eq
  · have hspent := hfound.spent hnew hbefore houtage.linked hlegal
      (by rw [hboth]; exact hbytes) hkept
    rw [hboth] at hspent
    exact hspent

/-- The hypotheses of `skip_outlives_outage` are met: sixteen captured bytes are
to be dropped when the device is suspended. Four go in the tick of the
suspension, four in the tick in which the side goes back to work, and four later
on. -/
theorem skip_outlives_outage_trial :
    let before : List Operation :=
      [.render 8, .correct 1000, .reportDevice .input true, .reportDevice .input false]
    let block := Block.ofBytes ⟨#[100, 101, 102, 103]⟩
    let rest : List Operation := [.reportDevice .input true, .push (.silence 4)]
    let after : List Operation := [.push (.ofBytes ⟨#[104, 105, 106, 107]⟩)]
    let outage := (trial.run before).2.run (.push block :: rest)
    let resumed := outage.2.run after
    outage.1.map Event.fate? = [some (.skipped [100, 101, 102, 103]), some (.skipped [0, 0, 0, 0])]
      ∧ resumed.1.map Event.fate? = [some (.skipped [104, 105, 106, 107])]
      ∧ (∃ c, outage.2.capture? = some c ∧ c.suspended = false
        ∧ Skip.Spends ⟨16, 0⟩ outage.1 c.pairing.skip)
      ∧ sinkSkippedOf outage.1 = 0
      ∧ ∀ c, resumed.2.capture? = some c →
          Skip.Spends ⟨16, 0⟩ (outage.1 ++ resumed.1) c.pairing.skip := by
  intro before block rest after outage resumed
  have hfound : (trial.run before).2.Strands ⟨16, 0⟩ :=
    ⟨[.device .running], [], by decide +kernel, by decide +kernel, by decide +kernel⟩
  have houtage : (trial.run before).2.Outage block rest :=
    ⟨by decide +kernel, by decide +kernel, by decide +kernel, by decide +kernel⟩
  have hword : ∀ n, .rewindPlayback n ∈ before ++ rest ++ after → n ≤ Word.maxSigned :=
    fun n hmem => by simp [before, rest, after] at hmem
  obtain ⟨hawake, hnone, hlater⟩ := skip_outlives_outage isNew_trial hword (by decide +kernel)
    houtage hfound (fun usec hmem => by simp [rest, after] at hmem) (by decide +kernel)
  exact ⟨by decide +kernel, by decide +kernel, hawake,
    hnone fun n hmem => by simp [rest] at hmem, hlater⟩

/-- Nobody has realigned anything since the suspension, and the side is back at
work. It drops captured audio for the skip of before. What is left of the skip
is in `Pairing.skip` all the time. -/
theorem skip_still_pending :
    let before : List Operation :=
      [.correct 1000, .reportDevice .input true, .reportDevice .input false]
    let rest : List Operation := [.reportDevice .input true, .push (.silence 0)]
    let outage := (trial.run before).2.run (.push (.silence 0) :: rest)
    (trial.run before).2.Strands ⟨16, 0⟩
      ∧ (trial.run before).2.Outage (.silence 0) rest
      ∧ (∀ usec, .correct usec ∉ rest)
      ∧ (∀ entry ∈ ((trial.run before).2.push (.silence 0)).2.journalOf rest,
          entry.replacesSkip = false)
      ∧ (outage.2.capture?.map fun c => (c.suspended, c.pairing.skip)) = some (false, ⟨16, 0⟩)
      ∧ (outage.2.push (.ofBytes ⟨#[100, 101, 102, 103]⟩)).1.map Event.fate?
        = [some (.skipped [100, 101, 102, 103])] := by
  intro before rest outage
  exact ⟨⟨[.device .running], [], by decide +kernel, by decide +kernel, by decide +kernel⟩,
    ⟨by decide +kernel, by decide +kernel, by decide +kernel, by decide +kernel⟩,
    fun usec hmem => by simp [rest] at hmem, by decide +kernel, by decide +kernel,
    by decide +kernel⟩

end Session

end EchoAlign
