import EchoAlign.Proofs.Session.Requests
import EchoAlign.Proofs.Session.Start

/-!
# `EchoAlign.Proofs.Session.Resync`: a resync runs against fresh timing

Requests for a resync come from the control side, from the end of an
underrun and from the end of a suspension, and one may come up at any
reading of the clock. The epoch keeps timing that was taken for an older
request apart from timing that is good for the present one.

* `resync_fresh_once`: in every run, a resync uses timing that was taken
  after the latest request, and no other timing of that epoch is ever
  sent. There are no more resyncs than requests.

`Resyncing` is the invariant: each timing that waits was taken for the
request that its epoch names (`Taken`), and the epochs that were sent are
increasing.
-/

set_option autoImplicit false

namespace EchoAlign

/-- The timings that the data mailbox took (`Entry.sentTiming?`), with their
epochs, in the order in which they were sent. -/
def sentTimings (entries : List Entry) : List (Nat × PlaybackTiming) :=
  entries.filterMap Entry.sentTiming?

/-- Timing was taken for the request that its epoch names, and sent: at the
entry `timed`, as many requests had been made as the epoch says. -/
def Taken (entries : List Entry) (epoch : Nat) (timing : PlaybackTiming) : Prop :=
  (∃ before after, entries = before ++ .timed epoch timing :: after ∧ requestCount before = epoch)
    ∧ (epoch, timing) ∈ sentTimings entries

/-- Timing was taken and sent, no request came after it, and the last one is
still to be answered, as `pendingAfter` tells. -/
def Fresh (entries : List Entry) (epoch : Nat) (timing : PlaybackTiming) : Prop :=
  (∃ before after, entries = before ++ .timed epoch timing :: after ∧ requestCount after = 0)
    ∧ (epoch, timing) ∈ sentTimings entries ∧ entries.foldl pendingAfter false = true

/-- Every resync was begun against fresh timing, in the sense of `Fresh` for the
part of the journal before it. -/
def AllFresh (entries : List Entry) : Prop :=
  ∀ before epoch timing after, entries = before ++ .resynced epoch timing :: after →
    Fresh before epoch timing

/-- The timings in two parts are those of the first and then of the second, as
`sentTimings` picks entries out. -/
theorem sentTimings_append (first rest : List Entry) :
    sentTimings (first ++ rest) = sentTimings first ++ sentTimings rest :=
  List.filterMap_append

/-- Where no timing was `sent`, there are no timings. -/
theorem sentTimings_eq_nil {entries : List Entry}
    (h : ∀ epoch timing, .sent (.playbackTiming epoch timing) ∉ entries) :
    sentTimings entries = [] := by
  refine List.filterMap_eq_nil_iff.mpr ?_
  intro entry hentry
  cases entry with
  | sent message =>
      cases message with
      | playbackTiming epoch timing => exact absurd hentry (h epoch timing)
      | _ => rfl
  | _ => rfl

/-- Of pairs with increasing numbers, no two have the same, so that at most one
is left when they are filtered by a number. The numbers are epochs, and the
pairs those of `sentTimings`. -/
theorem filter_eq_singleton {α : Type} {pairs : List (Nat × α)} {n : Nat} {a : α}
    (h : pairs.Pairwise fun a b => a.1 < b.1) (hmem : (n, a) ∈ pairs) :
    pairs.filter (·.1 == n) = [(n, a)] := by
  induction pairs with
  | nil => cases hmem
  | cons first rest ih =>
      obtain ⟨hfirst, hrest⟩ := List.pairwise_cons.mp h
      rcases List.mem_cons.mp hmem with rfl | hmem
      · rw [List.filter_cons_of_pos (by simp)]
        -- All that follow are larger.
        refine congrArg ((n, a) :: ·) (List.filter_eq_nil_iff.mpr fun other hother => ?_)
        have hlt : n < other.1 := hfirst other hother
        simp only [beq_iff_eq]
        omega
      · have hlt : first.1 < n := hfirst (n, a) hmem
        rw [List.filter_cons_of_neg (by simp only [beq_iff_eq]; omega)]
        exact ih hrest hmem

/-- A resync stays pending until it is begun (`resynced`). -/
theorem foldl_pendingAfter_true {entries : List Entry}
    (h : ∀ epoch timing, .resynced epoch timing ∉ entries) :
    entries.foldl pendingAfter true = true := by
  induction entries with
  | nil => rfl
  | cons entry rest ih =>
      have hentry : pendingAfter true entry = true := by
        cases entry with
        | resynced epoch timing => exact absurd List.mem_cons_self (h epoch timing)
        | _ => rfl
      rw [List.foldl_cons, hentry]
      exact ih fun epoch timing hm => h epoch timing (List.mem_cons_of_mem _ hm)

/-- Timing that was taken (`Taken`) has been taken whatever happens later. -/
theorem Taken.append {entries : List Entry} {epoch : Nat} {timing : PlaybackTiming}
    (h : Taken entries epoch timing) (rest : List Entry) :
    Taken (entries ++ rest) epoch timing := by
  obtain ⟨⟨before, after, rfl, hcount⟩, hsent⟩ := h
  refine ⟨⟨before, after ++ rest, ?_, hcount⟩, ?_⟩
  · rw [List.append_assoc, List.cons_append]
  · rw [sentTimings_append]
    exact List.mem_append_left _ hsent

/-- Timing of the latest request (`hepoch`) is fresh, as long as the request is
pending (`hpending`). -/
theorem Taken.fresh {entries : List Entry} {epoch : Nat} {timing : PlaybackTiming}
    (h : Taken entries epoch timing) (hepoch : epoch = requestCount entries)
    (hpending : entries.foldl pendingAfter false = true) : Fresh entries epoch timing := by
  obtain ⟨⟨before, after, hsplit, hcount⟩, hsent⟩ := h
  refine ⟨⟨before, after, hsplit, ?_⟩, hsent, hpending⟩
  have hsum := congrArg requestCount hsplit
  rw [requestCount_append, hcount, ← hepoch] at hsum
  exact Nat.add_eq_left.mp hsum.symm

/-- A journal in which every resync was begun against fresh timing can be
continued by one in which every resync is as well. A resync in the first part is
fresh by `AllFresh`, one in the second by `hrest`. -/
theorem AllFresh.append {first rest : List Entry} (h : AllFresh first)
    (hrest : ∀ before epoch timing after, rest = before ++ .resynced epoch timing :: after →
      Fresh (first ++ before) epoch timing) : AllFresh (first ++ rest) := by
  intro before epoch timing after hsplit
  -- The resync is in the continuation, or it was there before.
  rcases List.append_eq_append_iff.mp hsplit with ⟨between, rfl, hmid⟩ | ⟨between, hmid, hlater⟩
  · exact hrest between epoch timing after hmid
  · cases between with
    | nil =>
        rw [List.append_nil] at hmid
        subst hmid
        have h' := hrest [] epoch timing after hlater.symm
        rw [List.append_nil] at h'
        exact h'
    | cons entry between =>
        rw [List.cons_append] at hlater
        cases (List.cons.inj hlater).1
        exact h before epoch timing between hmid

/-- Where resyncs are begun only while one is pending, each has a request of its
own, so that there are no more resyncs than requests. By induction on the
entries, with a resync that is pending at the end counted beside `resyncCount`. -/
theorem resyncCount_add_le {entries : List Entry} {pending : Bool}
    (h : ∀ before epoch timing after, entries = before ++ .resynced epoch timing :: after →
      before.foldl pendingAfter pending = true) :
    resyncCount entries + (entries.foldl pendingAfter pending).toNat
      ≤ requestCount entries + pending.toNat := by
  induction entries generalizing pending with
  | nil => exact Nat.le_refl _
  | cons entry rest ih =>
      have hrest : resyncCount rest + (rest.foldl pendingAfter (pendingAfter pending entry)).toNat
          ≤ requestCount rest + (pendingAfter pending entry).toNat :=
        ih fun before epoch timing after heq =>
          h (entry :: before) epoch timing after (congrArg (entry :: ·) heq)
      rw [List.foldl_cons]
      -- A request brings the credit that a resync uses up.
      cases entry with
      | requested =>
          have hcount : requestCount (.requested :: rest) = requestCount rest + 1 :=
            List.countP_cons_of_pos rfl
          rw [hcount]
          exact Nat.le_trans hrest (Nat.le_add_right _ _)
      | resynced epoch timing =>
          have hpending : pending = true := h [] epoch timing rest rfl
          have hcount : resyncCount (.resynced epoch timing :: rest) = resyncCount rest + 1 :=
            List.countP_cons_of_pos rfl
          rw [hcount, hpending, Nat.add_right_comm]
          exact Nat.succ_le_succ hrest
      | _ => exact hrest

/-- A reading of the clock sends nothing: `readEntries` are requests. -/
theorem Link.sentTimings_readEntries (l : Link) : sentTimings l.readEntries = [] :=
  sentTimings_eq_nil fun _ _ hm => (nomatch mem_readEntries hm)

/-- Timing that is owed (`owesTiming`) is sent if there is room, and lost
otherwise. -/
theorem PlaybackScene.sentTimings_sendTimingEntries {υ : Type} (s : PlaybackScene υ)
    (howes : s.owesTiming = true) :
    sentTimings s.sendTimingEntries
      = if s.data.hasRoom then [(s.link.epoch, s.nextTiming)] else [] := by
  rw [(s.sendTiming_of_owesTiming howes).2.2.2]
  show sentTimings (s.link.readEntries ++ _) = _
  rw [sentTimings_append, s.link.sentTimings_readEntries, List.nil_append, postEntries]
  cases s.data.hasRoom with
  | true => rfl
  | false => rfl

/-- Handling a message begins a resync only if it is timing of the present
epoch, and one is pending. This is the guard of `Capture.resync`, read off its
entries. -/
theorem Capture.of_handleEntries_eq {κ : Type} {c : Capture κ} {link : Link}
    {message : CaptureMessage} {before after : List Entry} {epoch : Nat} {timing : PlaybackTiming}
    (h : c.handleEntries link message = before ++ .resynced epoch timing :: after) :
    message = .playbackTiming epoch timing ∧ before = [.handled message c.received]
      ∧ link.resyncPending = true ∧ epoch = link.epoch := by
  have hmem : Entry.resynced epoch timing ∈ c.handleEntries link message := by
    rw [h]
    exact List.mem_append_right _ List.mem_cons_self
  rcases mem_handleEntries hmem with h' | h' | ⟨_, _, h'⟩ | ⟨_, _, rfl, h'⟩
  · cases h'
  · cases h'
  · cases h'
  · cases h'
    cases before with
    | nil => cases h
    | cons first before =>
        obtain ⟨rfl, htail⟩ := List.cons.inj h
        simp only [resyncEntries] at htail
        split at htail
        · exact absurd htail.symm (by simp)
        · next hguard =>
            simp only [Bool.or_eq_true, Bool.not_eq_true', bne_iff_ne, ne_eq, not_or,
              Bool.not_eq_false, Decidable.not_not] at hguard
            refine ⟨rfl, ?_, hguard.1.2, hguard.2⟩
            -- Behind the resync there are only requests.
            cases before with
            | nil => rfl
            | cons second before =>
                have hread : Entry.resynced epoch timing ∈ link.readEntries := by
                  rw [(List.cons.inj htail).2]
                  exact List.mem_append_right _ List.mem_cons_self
                cases mem_readEntries hread

namespace Session

variable {κ υ : Type} [Canceller κ] [Producer υ] {allowed : Operation → Prop}

/-- A resync is begun while timing of the present epoch is handled, and one is
pending: `Capture.of_handleEntries_eq` for a whole step. -/
theorem Step.of_resynced {s t : Session κ υ} {entries : List Entry}
    (h : Step allowed s entries t) {before after : List Entry} {epoch : Nat}
    {timing : PlaybackTiming} (hsplit : entries = before ++ .resynced epoch timing :: after) :
    (∃ received, before = [.handled (.playbackTiming epoch timing) received])
      ∧ s.link.resyncPending = true ∧ epoch = s.link.epoch
      ∧ (.playbackTiming epoch timing ∈ s.captureControl.items
        ∨ .playbackTiming epoch timing ∈ s.data.items) := by
  have hmem : Entry.resynced epoch timing ∈ entries := by
    rw [hsplit]
    exact List.mem_append_right _ List.mem_cons_self
  obtain ⟨c, message, rest, hc, rfl, hnext⟩ | h | ⟨_, h⟩ | ⟨_, h⟩ | ⟨_, h | h⟩ | ⟨_, _, h⟩ :=
    h.mem_cases hmem
  · obtain ⟨rfl, rfl, hpending, hepoch⟩ := Capture.of_handleEntries_eq hsplit
    refine ⟨⟨_, rfl⟩, hpending, hepoch, ?_⟩
    rcases hnext with hnext | hnext
    · exact Or.inl (hnext ▸ List.mem_cons_self)
    · exact Or.inr (hnext ▸ List.mem_cons_self)
  all_goals cases h

/-- A step either sends timing that is owed, or leaves the timings alone: none
is sent, and none comes to wait that did not wait before. By cases on `Step`:
only the two that let the playback side act can send, and what they send is
`PlaybackScene.nextTiming` for the present epoch. -/
theorem Step.timing_cases {s t : Session κ υ} {entries : List Entry}
    (h : Step allowed s entries t) :
    (sentTimings entries = []
        ∧ (∀ epoch timing, .playbackTiming epoch timing ∈ t.data.items →
          .playbackTiming epoch timing ∈ s.data.items)
        ∧ ∀ p, t.playback? = some p →
          ∃ p', s.playback? = some p' ∧ p'.timingEpoch? = p.timingEpoch?)
      ∨ ∃ p timing after, s.playback? = some p ∧ (s.scene p).owesTiming = true
        ∧ entries = .timed s.link.epoch timing :: after
        ∧ sentTimings entries = [(s.link.epoch, timing)]
        ∧ t.data.items = s.data.items ++ [.playbackTiming s.link.epoch timing]
        ∧ ∀ p, t.playback? = some p → p.timingEpoch? = some s.link.epoch := by
  -- A post other than of timing leaves the timings that wait.
  have hposted : ∀ {items : List CaptureMessage} {message : CaptureMessage},
      (∀ epoch timing, message ≠ .playbackTiming epoch timing) →
      items = (if s.data.hasRoom then s.data.items ++ [message] else s.data.items) →
      ∀ epoch timing, .playbackTiming epoch timing ∈ items →
        .playbackTiming epoch timing ∈ s.data.items := by
    intro items message hne hitems epoch timing hm
    rw [hitems] at hm
    rcases Mailbox.mem_of_posted hm with hm | heq
    · exact hm
    · exact absurd heq.symm (hne epoch timing)
  have hplayback : ∀ p, s.playback? = some p →
      ∃ p', s.playback? = some p' ∧ p'.timingEpoch? = p.timingEpoch? :=
    fun p hp => ⟨p, hp, rfl⟩
  have hhandle : ∀ (c : Capture κ) message, sentTimings (c.handleEntries s.link message) = [] := by
    intro c message
    refine sentTimings_eq_nil ?_
    intro epoch timing hm
    rcases Capture.mem_handleEntries hm with h | h | ⟨_, _, h⟩ | ⟨_, _, _, h⟩ <;> cases h
  cases h with
  | read =>
      exact Or.inl ⟨sentTimings_eq_nil fun _ _ hm => (nomatch mem_readEntries hm),
        fun _ _ hm => hm, hplayback⟩
  | repack hcontrol hdata hplayback' =>
      exact Or.inl ⟨rfl, fun _ _ hm => hdata.items ▸ hm, hplayback⟩
  | @handleControl c message rest hc hrest =>
      exact Or.inl ⟨hhandle c message, fun _ _ hm => hm, hplayback⟩
  | @handleData c message rest hc hrest =>
      refine Or.inl ⟨hhandle c message, fun _ _ hm => ?_, hplayback⟩
      rw [hrest.items]
      exact List.mem_cons_of_mem _ hm
  | @handlePlayback p message rest hp hrest =>
      refine Or.inl ⟨sentTimings_eq_nil fun _ _ hm =>
        (nomatch Playback.mem_handleEntries hm), fun _ _ hm => hm, fun p' hp' => ⟨p, hp, ?_⟩⟩
      cases hp'
      exact (p.fst_handle s.link message).2.symm
  | accept block hc ha =>
      exact Or.inl ⟨sentTimings_eq_nil fun _ _ hm =>
        (nomatch Capture.mem_appendEntries hm), fun _ _ hm => hm, hplayback⟩
  | @play p n hp hlinked ha =>
      refine Or.inl ⟨sentTimings_eq_nil ?_,
        hposted (by simp) ((s.scene p).items_play n), fun p' hp' => ⟨p, hp, ?_⟩⟩
      · intro epoch timing hm
        rcases PlaybackScene.mem_playEntries hm with h | ⟨_, h | h | h⟩ <;> cases h
      · cases hp'
        exact ((s.scene p).timingEpoch?_play n).symm
  | @sendTiming p hp =>
      cases howes : (s.scene p).owesTiming with
      | false =>
          obtain ⟨hsame, hnothing⟩ := (s.scene p).sendTiming_of_not_owesTiming howes
          rw [hsame, hnothing]
          exact Or.inl ⟨rfl, fun _ _ hm => hm, fun p' hp' => ⟨p, hp, by cases hp'; rfl⟩⟩
      | true =>
          obtain ⟨hitems, hplayback', -, hentries⟩ := (s.scene p).sendTiming_of_owesTiming howes
          have hsent := (s.scene p).sentTimings_sendTimingEntries howes
          -- Timing that is lost is forgotten, and will be taken again.
          cases hroom : s.data.hasRoom with
          | false =>
              rw [show (s.scene p).data.hasRoom = false from hroom] at hitems hplayback' hsent
              refine Or.inl ⟨hsent, ?_, fun p' hp' => ⟨p, hp, ?_⟩⟩
              · intro _ _ hm
                rw [show (s.withScene (s.scene p).sendTiming).data.items = s.data.items
                  from hitems] at hm
                exact hm
              · cases hp'
                rw [hplayback']
                rfl
          | true =>
              rw [show (s.scene p).data.hasRoom = true from hroom] at hitems hplayback' hsent
              refine Or.inr ⟨p, _, _, hp, howes, hentries, hsent, hitems, fun p' hp' => ?_⟩
              cases hp'
              rw [hplayback']
              rfl
  | @rewindPlayback p n hp ha =>
      refine Or.inl ⟨sentTimings_eq_nil ?_,
        hposted (by simp) ((s.scene p).items_rewind n), fun p' hp' => ⟨p, hp, ?_⟩⟩
      · intro epoch timing hm
        rcases PlaybackScene.mem_postEntries hm with h | h <;> cases h
      · cases hp'
        exact ((s.scene p).timingEpoch?_rewind n).symm
  | dropCapture hc ha => exact Or.inl ⟨rfl, fun _ _ hm => absurd hm List.not_mem_nil, hplayback⟩
  | dropPlayback hp ha => exact Or.inl ⟨rfl, fun _ _ hm => hm, fun p hp => nomatch hp⟩
  | reportCapture running ha hnew =>
      rw [postCapture_eq]
      exact Or.inl ⟨rfl, fun _ _ hm => hm, hplayback⟩
  | reportPlayback running ha hnew =>
      rw [postPlayback_eq]
      exact Or.inl ⟨rfl, fun _ _ hm => hm, hplayback⟩
  | postCapture message hm =>
      rw [postCapture_eq]
      exact Or.inl ⟨rfl, fun _ _ hm => hm, hplayback⟩
  | _ => exact Or.inl ⟨rfl, fun _ _ hm => hm, hplayback⟩

/-- The timing that waits and the epochs that were sent, beside a journal that
tells how they came about. The fields say that the epoch counts the requests
(`epoch_eq`), that the journal tells whether a resync is pending (`pending_eq`),
and that what waits was `Taken`. -/
structure Resyncing (s : Session κ υ) (entries : List Entry) : Prop where
  control : s.ControlOnly
  epoch_eq : s.link.epoch = requestCount entries
  pending_eq : s.link.resyncPending = entries.foldl pendingAfter false
  waiting : ∀ epoch timing, .playbackTiming epoch timing ∈ s.data.items →
    Taken entries epoch timing
  /-- The epochs that were sent are increasing. -/
  once : (sentTimings entries).Pairwise fun a b => a.1 < b.1
  /-- The playback side remembers the last of them. -/
  remembered : ∀ p, s.playback? = some p → ∀ sent ∈ sentTimings entries,
    ∃ epoch, p.timingEpoch? = some epoch ∧ sent.1 ≤ epoch
  known : ∀ p epoch, s.playback? = some p → p.timingEpoch? = some epoch → epoch ≤ s.link.epoch
  fresh : AllFresh entries

/-- Every step keeps this: the cases are those of `Step.timing_cases`, and a
resync that is begun is fresh by `Taken.fresh`. -/
theorem Resyncing.step {s t : Session κ υ} {before entries : List Entry}
    (h : s.Resyncing before) (hstep : Step allowed s entries t) :
    t.Resyncing (before ++ entries) := by
  have hfollows := hstep.follows
  have hepoch : t.link.epoch = requestCount (before ++ entries) := by
    rw [hfollows.epoch_eq, h.epoch_eq, requestCount_append]
  have hpending : t.link.resyncPending = (before ++ entries).foldl pendingAfter false := by
    rw [hfollows.pending_eq, h.pending_eq, List.foldl_append]
  -- A resync needs timing of the present epoch, and that waits in the data
  -- mailbox.
  have hfresh : AllFresh (before ++ entries) := by
    refine h.fresh.append ?_
    intro earlier epoch timing later hsplit
    obtain ⟨⟨received, rfl⟩, hset, hpresent, hnext⟩ := hstep.of_resynced hsplit
    rcases hnext with hnext | hnext
    · cases h.control _ hnext
    · have htaken := (h.waiting epoch timing hnext).append
        [.handled (.playbackTiming epoch timing) received]
      refine htaken.fresh ?_ ?_
      · rw [hpresent, h.epoch_eq, requestCount_append]
        rfl
      · rw [List.foldl_append, ← h.pending_eq, hset]
        rfl
  -- Either no timing is sent, or the first one of the present epoch.
  rcases hstep.timing_cases with ⟨hnothing, hitems, hplayback⟩
    | ⟨p, timing, after, hp, howes, hentries, hsent, hitems, hplayback⟩
  · have hsame : sentTimings (before ++ entries) = sentTimings before := by
      rw [sentTimings_append, hnothing, List.append_nil]
    refine ⟨h.control.step hstep, hepoch, hpending, ?_, ?_, ?_, ?_, hfresh⟩
    · exact fun epoch timing hm => (h.waiting epoch timing (hitems epoch timing hm)).append entries
    · rw [hsame]
      exact h.once
    · intro p hp
      obtain ⟨p', hp', heq⟩ := hplayback p hp
      rw [hsame, ← heq]
      exact h.remembered p' hp'
    · intro p epoch hp hepoch'
      obtain ⟨p', hp', heq⟩ := hplayback p hp
      have hle := h.known p' epoch hp' (heq.trans hepoch')
      rw [hfollows.epoch_eq]
      omega
  · refine ⟨h.control.step hstep, hepoch, hpending, ?_, ?_, ?_, ?_, hfresh⟩
    · intro epoch timing' hm
      rw [hitems] at hm
      rcases List.mem_append.mp hm with hm | hm
      · exact (h.waiting epoch timing' hm).append entries
      · cases List.mem_singleton.mp hm
        refine ⟨⟨before, after, by rw [hentries], h.epoch_eq.symm⟩, ?_⟩
        rw [sentTimings_append, hsent]
        exact List.mem_append_right _ List.mem_cons_self
    · rw [sentTimings_append, hsent]
      refine List.pairwise_append.mpr ⟨h.once, List.pairwise_singleton _ _, fun a ha b hb => ?_⟩
      cases List.mem_singleton.mp hb
      obtain ⟨epoch, hremembered, hle⟩ := h.remembered p hp a ha
      have hknown := h.known p epoch hp hremembered
      -- Timing is owed, so that the epoch is new to the playback side.
      have hne : epoch ≠ s.link.epoch := fun heq =>
        (s.scene p).timingEpoch?_ne howes (heq ▸ hremembered)
      show a.1 < s.link.epoch
      omega
    · intro p' hp' sent hmem
      refine ⟨s.link.epoch, hplayback p' hp', ?_⟩
      rw [sentTimings_append, hsent] at hmem
      rcases List.mem_append.mp hmem with hmem | hmem
      · obtain ⟨epoch, hremembered, hle⟩ := h.remembered p hp sent hmem
        exact Nat.le_trans hle (h.known p epoch hp hremembered)
      · cases List.mem_singleton.mp hmem
        exact Nat.le_refl _
    · intro p' epoch hp' hepoch'
      cases (hplayback p' hp').symm.trans hepoch'
      rw [hfollows.epoch_eq]
      exact Nat.le_add_right _ _

omit [Producer υ] in
/-- In a new session nothing was asked for and nothing sent. Its fields are all
met by empty lists and a link of epoch 0, by `IsNew.opened`. -/
theorem IsNew.resyncing {s : Session κ υ} (h : s.IsNew) : s.Resyncing [] := by
  obtain ⟨spec, capacity, canceller, producer, link, dumps?, rfl, ⟨_, _, _, _, rfl⟩, -⟩ := h.opened
  refine ⟨?_, rfl, rfl, ?_, List.Pairwise.nil, ?_, ?_, ?_⟩
  · intro m hm
    exact absurd hm List.not_mem_nil
  · intro epoch timing hm
    exact absurd hm List.not_mem_nil
  · intro p hp sent hm
    exact absurd hm List.not_mem_nil
  · intro p epoch hp hepoch
    cases hp
    cases hepoch
  · intro before epoch timing after heq
    exact absurd heq.symm (by simp)

omit [Producer υ] in
/-- A new session has counted no resync: `resyncs` begins with 0. -/
theorem IsNew.resyncs_eq {s : Session κ υ} (h : s.IsNew) :
    s.link.counters.resyncs = Word.unsigned 0 := by
  obtain ⟨spec, capacity, canceller, producer, link, dumps?, rfl, ⟨_, _, _, _, rfl⟩, -⟩ := h.opened
  rfl

/-- It is kept at any point between any two steps, by induction on `Steps`. -/
theorem IsNew.resyncing_steps {s t : Session κ υ} {entries : List Entry} (h : s.IsNew)
    (hsteps : Steps allowed s entries t) : t.Resyncing entries :=
  hsteps.induct (motive := Resyncing) h.resyncing fun _ _ _ _ hbefore hstep => hbefore.step hstep

/-- In every run of a new session, told by its `journalOf`, a resync is begun
against timing that the playback side took after the latest request (the entry
`timed`, with no request `later`), and that is the only timing of its epoch that
is ever sent (`sentTimings`). There are no more resyncs than requests
(`requestCount`), and nothing but a resync ends the wait for one. -/
theorem resync_fresh_once {s : Session κ υ} (hnew : s.IsNew) (operations : List Operation) :
    (∀ before epoch timing after,
        s.journalOf operations = before ++ .resynced epoch timing :: after →
        (∃ earlier later, before = earlier ++ .timed epoch timing :: later
            ∧ requestCount later = 0)
          ∧ (sentTimings (s.journalOf operations)).filter (·.1 == epoch) = [(epoch, timing)]
          ∧ before.foldl pendingAfter false = true)
      ∧ (s.run operations).2.link.counters.resyncs ≤ requestCount (s.journalOf operations)
      ∧ (s.run operations).2.link.resyncPending
          = (s.journalOf operations).foldl pendingAfter false
      ∧ ∀ rest, (s.run operations).2.link.resyncPending = true →
          ((s.run operations).2.run rest).2.link.resyncPending = false →
          ∃ epoch timing, .resynced epoch timing ∈ (s.run operations).2.journalOf rest := by
  have hall : ∀ (operations : List Operation), ∀ operation ∈ operations,
      (fun _ => True) operation := fun _ _ _ => trivial
  have hsteps := s.steps_run (hall operations)
  have h := hnew.resyncing_steps hsteps
  refine ⟨?_, ?_, h.pending_eq, ?_⟩
  · intro before epoch timing after hsplit
    obtain ⟨htaken, hsent, hpending⟩ := h.fresh before epoch timing after hsplit
    refine ⟨htaken, filter_eq_singleton h.once ?_, hpending⟩
    rw [hsplit, sentTimings_append]
    exact List.mem_append_left _ hsent
  · have hcount := resyncCount_add_le fun before epoch timing after hsplit =>
      (h.fresh before epoch timing after hsplit).2.2
    -- The counter is a word, and can only be smaller than the number.
    rw [hsteps.follows.resyncs_eq 0 hnew.resyncs_eq, Word.unsigned_eq_mod]
    refine Nat.le_trans (Nat.mod_le _ _) ?_
    simp only [Bool.toNat_false] at hcount
    omega
  · intro rest hset hclear
    have hafter := ((s.run operations).2.steps_run (hall rest)).follows.pending_eq
    rw [hset, hclear] at hafter
    by_cases hresynced : ∃ epoch timing,
        .resynced epoch timing ∈ (s.run operations).2.journalOf rest
    · exact hresynced
    · rw [foldl_pendingAfter_true fun epoch timing hm => hresynced ⟨epoch, timing, hm⟩] at hafter
      cases hafter

/-- The statement of `resync_fresh_once` in a run in which a request comes up
while timing is taken and makes it stale. The timing that is taken next is used. -/
theorem resync_fresh_once_trial :
    let operations : List Operation :=
      [.requestResync, .scheduleRequests [1], .render 8, .push (.silence 4), .render 8,
        .push (.silence 4)]
    sentTimings (trial.journalOf operations) = [(1, ⟨0, 0, 0, 8⟩), (2, ⟨0, 0, 0, 16⟩)]
      ∧ requestCount (trial.journalOf operations) = 2
      ∧ (trial.run operations).2.link.counters.resyncs = 1
      ∧ (∀ before epoch timing after,
          trial.journalOf operations = before ++ .resynced epoch timing :: after →
          (∃ earlier later, before = earlier ++ .timed epoch timing :: later
              ∧ requestCount later = 0)
            ∧ (sentTimings (trial.journalOf operations)).filter (·.1 == epoch) = [(epoch, timing)]
            ∧ before.foldl pendingAfter false = true) := by
  intro operations
  exact ⟨by decide +kernel, by decide +kernel, by decide +kernel,
    (resync_fresh_once isNew_trial operations).1⟩

end Session

end EchoAlign
