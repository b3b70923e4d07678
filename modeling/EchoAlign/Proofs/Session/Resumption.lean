import EchoAlign.Proofs.Session.Outage

/-!
# `EchoAlign.Proofs.Session.Resumption`: playback after an outage

When a suspended side goes back to work, all playback from before is gone:
what was on its tapes was thrown away, and so was what waited for it. None
of it gets to the canceller by another way, since what the canceller is
given is made of what is rendered later, whatever the producer makes.

* `resumed_fresh`: from the first tick of an outage on, the canceller is
  given only playback that was rendered after the last tick of the outage,
  each byte of it at most once and in order. This holds however many
  messages were queued meanwhile, as long as the consumer takes no bytes
  back.

`Fresh` is the invariant behind it: what the canceller was given, what is
on the tape, and what waits in the mailbox, one behind the other, are part
of what was rendered since.
-/

set_option autoImplicit false

namespace EchoAlign

/-- The playback an event gives to the canceller, in `Event.cancelled`. -/
def Event.paired? : Event → Option Block
  | cancelled _ played _ => some played
  | _ => none

/-- The audio that waits in messages, in order, by `CaptureMessage.rendered?`. -/
def waitingBytes (messages : List CaptureMessage) : List UInt8 :=
  bytesOfBlocks (messages.filterMap CaptureMessage.rendered?)

/-- The audio in two parts of the messages is that of the first and then of the
second, as `waitingBytes` goes message by message. -/
theorem waitingBytes_append (first rest : List CaptureMessage) :
    waitingBytes (first ++ rest) = waitingBytes first ++ waitingBytes rest := by
  unfold waitingBytes
  rw [List.filterMap_append, bytesOfBlocks_append]

/-- An answer (`isAnswer`) is not about audio. -/
theorem Event.paired?_of_isAnswer {event : Event} (h : event.isAnswer = true) :
    event.paired? = none := by
  cases event <;> first | rfl | cases h

/-- A message brings the audio that waits in it at most: what the list of
playback holds afterwards is a sublist of what it held and what the message
brings. Only `PlainCapture.receive` adds anything; the others take away or leave
it as it is. -/
theorem PlainCapture.played_handle_sublist {κ : Type} (c : PlainCapture κ) (link : Link)
    (message : CaptureMessage) :
    (c.handle link message).1.backlog.played.Sublist
      (c.backlog.played ++ waitingBytes [message]) := by
  have hsame : c.backlog.played.Sublist (c.backlog.played ++ waitingBytes [message]) :=
    List.sublist_append_left ..
  cases message with
  | rendered block =>
      have hblock : waitingBytes [.rendered block] = block.toList := List.append_nil _
      show (c.receive block.toList).backlog.played.Sublist _
      rw [hblock] at hsame ⊢
      simp only [receive, appendWithin]
      split
      · exact List.nil_sublist _
      · split
        · exact List.Sublist.refl _
        · exact hsame
  | rewound n =>
      show (c.takeBack n).backlog.played.Sublist _
      simp only [takeBack]
      split
      · exact List.nil_sublist _
      · exact (List.take_sublist ..).trans hsame
  | timingRequest ticket => exact hsame
  | correct usec => exact hsame
  | playbackTiming epoch timing =>
      show (c.resync link epoch timing).1.backlog.played.Sublist _
      unfold resync
      split
      · exact hsame
      · exact hsame
  | device state =>
      cases state with
      | suspended =>
          -- Both tapes are thrown away.
          exact List.nil_sublist _
      | running =>
          show (c.follow .running).backlog.played.Sublist _
          simp only [follow]
          split
          · exact hsame
          · exact hsame

namespace Session

variable {κ υ : Type} [Canceller κ] [Producer υ] {s t : Session κ υ} {entries : List Entry}

/-- What the canceller was given, what is on the tape of the capture side,
which stands where `plain` stands, and what waits for it was rendered, in
this order. -/
structure Fresh (s : Session κ υ) (events : List Event) (plain : PlainCapture κ) : Prop where
  capture : s.CaptureIs fun c => c.Holds plain
  sublist : (bytesOfBlocks (events.filterMap Event.paired?)
      ++ (plain.backlog.played ++ waitingBytes s.data.items)).Sublist
    (bytesOfBlocks (events.filterMap Event.rendered?))

variable {events new : List Event} {plain next : PlainCapture κ}

omit [Canceller κ] [Producer υ] in
/-- What the canceller is given must come from the tape, what comes on the tape
must have waited, and what comes to wait must have been rendered. Each of these
is a `List.Sublist`. -/
theorem Fresh.extend (h : s.Fresh events plain) (hcapture : t.CaptureIs fun c => c.Holds next)
    (hnew : (bytesOfBlocks (new.filterMap Event.paired?)
        ++ (next.backlog.played ++ waitingBytes t.data.items)).Sublist
      (plain.backlog.played ++ waitingBytes s.data.items
        ++ bytesOfBlocks (new.filterMap Event.rendered?))) :
    t.Fresh (events ++ new) next := by
  refine ⟨hcapture, ?_⟩
  rw [List.filterMap_append, List.filterMap_append, bytesOfBlocks_append, bytesOfBlocks_append,
    List.append_assoc]
  refine ((List.Sublist.refl _).append hnew).trans ?_
  rw [← List.append_assoc]
  exact h.sublist.append (List.Sublist.refl _)

omit [Canceller κ] [Producer υ] in
/-- It is kept where nothing is given to the canceller (`hpaired`) and nothing
made (`hnew`). -/
theorem Fresh.congr (h : s.Fresh events plain) (hcapture : t.CaptureIs fun c => c.Holds next)
    (hpaired : new.filterMap Event.paired? = [])
    (hnew : (next.backlog.played ++ waitingBytes t.data.items).Sublist
      (plain.backlog.played ++ waitingBytes s.data.items)) : t.Fresh (events ++ new) next := by
  refine h.extend hcapture ?_
  rw [hpaired]
  exact hnew.trans (List.sublist_append_left ..)

/-- Every step keeps it, unless it takes bytes back (`hkept`). -/
theorem Fresh.step {allowed : Operation → Prop} (h : s.Fresh events plain)
    (hbalanced : s.Balanced) (hkept : ∀ n, ¬ allowed (.rewindCapture n))
    (hstep : Step allowed s entries t) :
    ∃ next, t.Fresh (events ++ entries.filterMap Entry.event?) next := by
  have hsame : t.capture? = s.capture? → t.CaptureIs fun c => c.Holds plain :=
    fun hsame c hc => h.capture c (hsame.symm.trans hc)
  have hnow : ∀ {c' : Capture κ} {next : PlainCapture κ}, t.capture? = some c' → c'.Holds next →
      t.CaptureIs fun c => c.Holds next := by
    intro c' next hc' hholds c hc
    cases hc'.symm.trans hc
    exact hholds
  have hstill : t.data.items = s.data.items →
      (plain.backlog.played ++ waitingBytes t.data.items).Sublist
        (plain.backlog.played ++ waitingBytes s.data.items) := by
    intro hdata
    exact hdata ▸ List.Sublist.refl _
  cases hstep.act with
  | quiet hevents hc hdata =>
      have hpaired : (entries.filterMap Entry.event?).filterMap Event.paired? = [] :=
        List.filterMap_eq_nil_iff.mpr fun event hevent =>
          Event.paired?_of_isAnswer (hevents event hevent)
      exact ⟨plain, h.congr (hsame hc) hpaired (hstill hdata)⟩
  | @control c message hc hmessage hentries hc' hdata =>
      have hdataless := hbalanced.control _ hmessage
      have hword : ∀ n, message = .rewound n → n ≤ Word.maxSigned := by
        intro n hn
        rw [hn] at hdataless
        cases hdataless
      have hnone : waitingBytes [message] = [] := by
        cases message <;> first | rfl | cases hdataless
      have hplayed := plain.played_handle_sublist s.link message
      rw [hnone, List.append_nil] at hplayed
      have hholds := ((h.capture c hc).handle s.link hword).1
      refine ⟨_, h.congr (hnow hc' hholds) ?_ ?_⟩
      · rw [hentries, Capture.events_handleEntries]
        rfl
      · rw [hdata]
        exact hplayed.append (List.Sublist.refl _)
  | @data c message hc hentries hc' hdata =>
      have hword : ∀ n, message = .rewound n → n ≤ Word.maxSigned := by
        intro n hn
        refine hbalanced.word n ?_
        rw [hdata, hn]
        exact List.mem_cons_self
      have hplayed := plain.played_handle_sublist s.link message
      have hholds := ((h.capture c hc).handle s.link hword).1
      refine ⟨_, h.congr (hnow hc' hholds) ?_ ?_⟩
      · rw [hentries, Capture.events_handleEntries]
        rfl
      · rw [hdata, ← List.singleton_append, waitingBytes_append, ← List.append_assoc]
        exact hplayed.append (List.Sublist.refl _)
  | @resume c block hc ha hentries hc' hdata =>
      have hholds := h.capture c hc
      have hresumed : Capture.Holds { c with suspended := false, resuming := false }
          { plain with suspended := false, resuming := false } :=
        ⟨hholds.spec_eq, hholds.pairing, hholds.received_eq, rfl, rfl⟩
      exact ⟨_, h.congr (hnow hc' hresumed) (by rw [hentries]; rfl) (hstill hdata)⟩
  | @accept c block hc ha hentries hc' hdata =>
      refine ⟨_, h.congr (hnow hc' ((h.capture c hc).accept block)) ?_ (hstill hdata)⟩
      rw [hentries, show (c.acceptEntries block).filterMap Entry.event? = [] from
        Capture.events_appendEntries ..]
      rfl
  | @pair c event pairing hc hpair hentries hc' hdata =>
      have hholds := h.capture c hc
      obtain ⟨fate, b, hb, hevent, hpairing⟩ := hholds.pairing.step?_eq_some hpair
      have hworked : Capture.Holds { c with pairing } { plain with backlog := b } :=
        ⟨hholds.spec_eq, hpairing, hholds.received_eq, hholds.suspended_eq, hholds.resuming_eq⟩
      refine ⟨_, h.extend (hnow hc' hworked) ?_⟩
      -- What the canceller gets was at the front of the tape.
      have hpaired : (bytesOfBlocks ([event].filterMap Event.paired?)).Sublist fate.played := by
        cases event <;> cases hevent
        · exact List.nil_sublist _
        · show (_ ++ []).Sublist _
          rw [List.append_nil]
          exact List.Sublist.refl _
        · exact List.nil_sublist _
      rw [hdata, hentries, ← Backlog.played_step? hb, List.append_assoc, List.append_assoc]
      refine List.Sublist.append hpaired ?_
      rw [← List.append_assoc]
      exact List.sublist_append_left ..
  | rewind hc ha hentries hc' hdata =>
      -- Bytes that are taken back would bring playback back, too.
      exact absurd ha (hkept _)
  | @correct c usec hc ha hentries hc' hdata =>
      exact ⟨_, h.congr (hnow hc' ((h.capture c hc).correct s.link usec).1) (by rw [hentries]; rfl)
        (hstill hdata)⟩
  | @post message hevents hword hc hdata =>
      -- What is rendered comes behind all that waits, or is lost.
      refine ⟨plain, h.extend (hsame hc) ?_⟩
      have hrendered : bytesOfBlocks ((entries.filterMap Entry.event?).filterMap Event.rendered?)
          = waitingBytes [message] := by
        rw [hevents]
        cases message <;> rfl
      have hpaired : (entries.filterMap Entry.event?).filterMap Event.paired? = [] := by
        rw [hevents]
        cases message <;> rfl
      rw [hpaired, hrendered, hdata]
      split
      · have hposted : plain.backlog.played ++ waitingBytes (s.data.items ++ [message])
            = plain.backlog.played ++ waitingBytes s.data.items ++ waitingBytes [message] := by
          rw [waitingBytes_append, List.append_assoc]
        exact hposted ▸ List.Sublist.refl _
      · exact List.sublist_append_left ..
  | idle hentries hc hdata =>
      exact ⟨plain, h.congr (hsame hc) (by rw [hentries]; rfl) (hstill hdata)⟩
  | drop hentries hc' hdata =>
      -- The mailbox closes, and what waited in it is gone.
      refine ⟨plain, h.congr ?_ (by rw [hentries]; rfl) ?_⟩
      · intro c hc
        cases hc'.symm.trans hc
      · rw [hdata]
        exact (List.Sublist.refl _).append (List.nil_sublist _)

/-- It is kept at any point between any two steps, as long as the consumer takes
no bytes back (`KeepsCapture`). -/
theorem Fresh.steps (h : s.Fresh events plain) (hbalanced : s.Balanced)
    (hsteps : Steps (fun operation => FitsWord operation ∧ KeepsCapture operation) s entries t) :
    ∃ next, t.Fresh (events ++ entries.filterMap Entry.event?) next := by
  refine (hsteps.induct (motive := fun t entries => t.Balanced
    ∧ ∃ next, t.Fresh (events ++ entries.filterMap Entry.event?) next) ?_ ?_).2
  · exact ⟨hbalanced, plain, h.congr h.capture rfl (List.Sublist.refl _)⟩
  · intro t u before entries ⟨hbalanced, next, hfresh⟩ hstep
    obtain ⟨last, hlast⟩ := hfresh.step hbalanced (fun n ha => ha.2 n rfl) hstep
    rw [List.append_assoc, ← List.filterMap_append] at hlast
    exact ⟨hbalanced.step (hstep.mono fun _ ha => ha.1), last, hlast⟩

/-- In every run of a new session: from a capture tick in which a suspension is
handled up to the first tick, possibly the same, after whose messages the side
goes back to work (`Outage`), the canceller does not run. What it is given later
(`Event.paired?`) is playback that was rendered after that tick
(`Event.rendered?`), each byte at most once and in order. The consumer may have
taken bytes back before, but no more (`hkept`). What is rendered up to the
suspension has to fit a word (`hbytes`), since the tape counts its positions in
words. -/
theorem resumed_fresh (hnew : s.IsNew) {before rest after : List Operation} {block : Block}
    (hword : ∀ n, .rewindPlayback n ∈ before ++ rest ++ after → n ≤ Word.maxSigned)
    (hbytes : renderedBytesOf (s.run before).1 ≤ Word.maxSigned)
    (houtage : (s.run before).2.Outage block rest)
    (hkept : ∀ n, .rewindCapture n ∉ rest ++ after) :
    let outage := (s.run before).2.run (.push block :: rest)
    let resumed := outage.2.run after
    (∀ event ∈ outage.1, event.isCall = false)
      ∧ (bytesOfBlocks (resumed.1.filterMap Event.paired?)).Sublist
        (bytesOfBlocks (resumed.1.filterMap Event.rendered?)) := by
  intro outage resumed
  have hfits : ∀ operation ∈ before ++ rest ++ after, FitsWord operation :=
    fun operation hmem n hn => hword n (hn ▸ hmem)
  have hkeeps : ∀ operation ∈ rest ++ after, KeepsCapture operation :=
    fun operation hmem n hn => hkept n (hn ▸ hmem)
  simp only [List.mem_append, or_imp, forall_and] at hfits hkeeps
  -- The tapes are in order when the outage begins.
  have hbefore : Steps FitsWord s (s.journalOf before) (s.run before).2 := s.steps_run hfits.1.1
  have hduring : Steps FitsWord (s.run before).2 _ outage.2 :=
    (s.run before).2.steps_run (List.forall_mem_cons.mpr ⟨nofun, hfits.1.2⟩)
  obtain ⟨hquiet, hempty, c, plain, hc, hholds, hplayed⟩ :=
    hnew.hushed hbefore (by rw [events_journalOf]; exact hbytes) houtage hkeeps.1
  refine ⟨fun event hevent => (hquiet event hevent).isCall_eq, ?_⟩
  -- Nothing that was rendered before is left when it ends.
  have hfresh : outage.2.Fresh [] plain := by
    refine ⟨fun c' hc' => ?_, ?_⟩
    · cases hc.symm.trans hc'
      exact hholds
    · rw [hplayed, show outage.2.data.items = [] from hempty]
      exact List.Sublist.refl _
  have hafter : Steps (fun operation => FitsWord operation ∧ KeepsCapture operation) outage.2
      (outage.2.journalOf after) resumed.2 :=
    outage.2.steps_run fun operation hmem => ⟨hfits.2 operation hmem, hkeeps.2 operation hmem⟩
  obtain ⟨last, -, hlast⟩ := hfresh.steps (hnew.balanced_steps (hbefore.trans hduring)).1 hafter
  rw [List.nil_append, events_journalOf] at hlast
  exact (List.sublist_append_left ..).trans hlast

/-- The hypotheses of `resumed_fresh` are met where the side is told of a start
and of a suspension at once. It is woken up with eight bytes of playback in the
mailbox that were made meanwhile. -/
theorem resumed_fresh_trial :
    let before : List Operation :=
      [.render 8, .push (.ofBytes ⟨#[100, 101, 102, 103]⟩), .rewindCapture 4,
        .reportDevice .input true, .reportDevice .input false, .render 4]
    let rest : List Operation :=
      [.render 4, .reportDevice .input true, .render 4, .push (.silence 8)]
    let after : List Operation := [.render 8, .push (.silence 0), .correct 250, .push (.silence 8)]
    let outage := (trial.run before).2.run (.push (.silence 4) :: rest)
    let resumed := outage.2.run after
    bytesOfBlocks (outage.1.filterMap Event.rendered?) = [5, 6, 7, 8, 1, 2, 3, 4]
      ∧ bytesOfBlocks (resumed.1.filterMap Event.rendered?) = [5, 6, 7, 8, 1, 2, 3, 4]
      ∧ bytesOfBlocks (resumed.1.filterMap Event.paired?) = [5, 6, 7, 8]
      ∧ (∀ event ∈ outage.1, event.isCall = false)
      ∧ (bytesOfBlocks (resumed.1.filterMap Event.paired?)).Sublist
        (bytesOfBlocks (resumed.1.filterMap Event.rendered?)) := by
  intro before rest after outage resumed
  have houtage : (trial.run before).2.Outage (.silence 4) rest :=
    ⟨by decide +kernel, by decide +kernel, by decide +kernel, by decide +kernel⟩
  refine ⟨by decide +kernel, by decide +kernel, by decide +kernel, ?_⟩
  exact resumed_fresh isNew_trial (fun n hmem => by simp [before, rest, after] at hmem)
    (by decide +kernel) houtage (fun n hmem => by simp [rest, after] at hmem)

end Session

end EchoAlign
