import EchoAlign.Proofs.Mailbox

/-!
# `EchoAlign.Proofs.Align.Inbox`: a context that answers when it likes

An `Inbox` is a mailbox with what the context at its other end has done: the
messages that it took, the requests that it still means to answer, and the
answers that it gave. The context is free to do this at any time and in any
order (`ContextAct`), and to leave it.

* `Served` is what no act of a context changes, and `Sound` is what each
  keeps: an answer is to a request that was taken out of the mailbox before.
* `Asked` is what a question comes to. Its answer is the first one to a
  request that was not posted before (`ownAnswer?`), and once it is there, the
  mailbox is empty.
* `Offered` counts what was posted, with what was dropped.
-/

set_option autoImplicit false

namespace EchoAlign

/-- Messages of which some are requests, and these have a `ticket?`. -/
class Ticketed (μ : Type) where
  /-- The ticket that the answer to a request is to name. -/
  ticket? : μ → Option Nat

open Ticketed (ticket?)

/-- What a context may do about its mailbox, at any time and in any order:
`take` a message, `answer` or `forget` a request, and `close`. -/
inductive ContextAct (τ : Type) where
  /-- It takes the oldest message. -/
  | take
  /-- It answers a request that it has taken. -/
  | answer (ticket : Nat) (value : τ)
  /-- It drops a request that it has taken. -/
  | forget (ticket : Nat)
  /-- It goes away, and drops the messages that wait. -/
  | close

/-- A mailbox, and what was done at its other end. What is kept besides the
`mailbox` is there to state what became of the messages. -/
structure Inbox (μ τ : Type) where
  mailbox : Mailbox μ
  /-- The messages that have left the mailbox, oldest first. -/
  taken : List μ
  /-- The tickets of requests that were taken and may still be answered. -/
  held : List Nat
  /-- The answers that were given, oldest first. -/
  answers : List (Reply τ)

namespace Inbox

variable {μ τ : Type}

/-- An inbox to which nothing was posted yet, with a mailbox of this `capacity`. -/
def create (capacity : Nat) : Inbox μ τ := ⟨.create capacity, [], [], []⟩

/-- All messages that were posted and kept, oldest first: those `taken` and then
those that wait. -/
def posted (i : Inbox μ τ) : List μ := i.taken ++ i.mailbox.items

/-- A message is posted, and lost if the mailbox has no room for it (`hasRoom`). -/
def tell (i : Inbox μ τ) (message : μ) : Inbox μ τ :=
  { i with mailbox := (i.mailbox.post message).2 }

/-- Of these messages, some were kept and the others counted as `dropped`. Those
that were kept are behind all that was posted before. -/
def Offered (i : Inbox μ τ) (messages : List μ) (j : Inbox μ τ) : Prop :=
  ∃ kept, kept.Sublist messages ∧ j.posted = i.posted ++ kept
    ∧ j.mailbox.dropped + kept.length = i.mailbox.dropped + messages.length

/-- What a context leaves as it is: what was `posted` to it, and the answers
that it gave. Its mailbox only loses messages from the front, and may be closed. -/
structure Served (i j : Inbox μ τ) : Prop where
  posted_eq : j.posted = i.posted
  items_suffix : j.mailbox.items <:+ i.mailbox.items
  capacity_eq : j.mailbox.capacity = i.mailbox.capacity
  dropped_eq : j.mailbox.dropped = i.mailbox.dropped
  answers_prefix : i.answers <+: j.answers

section Tickets
variable [Ticketed μ]

/-- The tickets of these messages, in order, by `ticket?`. -/
def ticketsOf (messages : List μ) : List Nat := messages.filterMap ticket?

/-- The tickets of the requests that were `posted` and kept, in order. -/
def requests (i : Inbox μ τ) : List Nat := ticketsOf i.posted

/-- A context acts. A request is answered once at most, and only after it was
taken. What cannot be done changes nothing. `held` has the tickets of requests
that were taken and not yet answered, and to `close` is to take all that waits. -/
def perform (i : Inbox μ τ) : ContextAct τ → Inbox μ τ
  | .take =>
      match i.mailbox.receive with
      | (none, _) => i
      | (some message, mailbox) =>
          { i with
            mailbox
            taken := i.taken ++ [message]
            held := i.held ++ (ticket? message).toList }
  | .answer ticket value =>
      if ticket ∈ i.held then
        { i with held := i.held.erase ticket, answers := i.answers ++ [⟨ticket, value⟩] }
      else i
  | .forget ticket => { i with held := i.held.erase ticket }
  | .close => { i with mailbox := i.mailbox.close, taken := i.posted }

/-- The first answer of those given since then that is to a request posted since
then (one not in `before.requests`). It is told without tickets of any check, so
that a result about it says whose answer was used. -/
def ownAnswer? (before after : Inbox μ τ) : Option τ :=
  ((after.answers.drop before.answers.length).find?
    fun r => decide (r.ticket ∉ before.requests)).map (·.value)

/-- The context holds, and has answered, only requests that it took. The
tickets that are in use are below `next`. -/
structure Sound (next : Nat) (i : Inbox μ τ) : Prop where
  requests_lt : ∀ ticket ∈ i.requests, ticket < next
  held : ∀ ticket ∈ i.held, ticket ∈ ticketsOf i.taken
  answered : ∀ r ∈ i.answers, r.ticket ∈ ticketsOf i.taken
  capacity_pos : 0 < i.mailbox.capacity

/-- What a question to a context comes to when nothing else is posted: its own
answer is the `answer`, the request was offered, and once it is answered nothing
waits any more (`emptied`). -/
structure Asked (request : μ) (i : Inbox μ τ) (answer : Option τ) (j : Inbox μ τ) : Prop where
  own : i.ownAnswer? j = answer
  offered : i.Offered [request] j
  /-- The request was behind all other messages when it was taken. -/
  emptied : answer ≠ none → j.posted = i.posted ++ [request] ∧ j.mailbox.items = []
  answers_prefix : i.answers <+: j.answers

end Tickets

variable {i j k : Inbox μ τ} {message request : μ} {messages later : List μ}

/-! ### What is posted -/

/-- A message that is posted is behind all others, if the mailbox has room
(`hasRoom`). -/
theorem posted_tell (i : Inbox μ τ) (message : μ) :
    (i.tell message).posted
      = if i.mailbox.hasRoom then i.posted ++ [message] else i.posted := by
  show i.taken ++ (i.mailbox.post message).2.items = _
  rw [Mailbox.items_post]
  split
  · exact (List.append_assoc _ _ _).symm
  · rfl

/-- A message that is posted is `Offered`, whether or not it is kept. -/
theorem Offered.tell (i : Inbox μ τ) (message : μ) : i.Offered [message] (i.tell message) := by
  have hposted := i.posted_tell message
  have hdropped := i.mailbox.dropped_post message
  cases hroom : i.mailbox.hasRoom with
  | true =>
      rw [hroom, if_pos rfl] at hposted hdropped
      exact ⟨[message], List.Sublist.refl _, hposted, congrArg (· + 1) hdropped⟩
  | false =>
      rw [hroom, if_neg Bool.false_ne_true] at hposted hdropped
      exact ⟨[], List.nil_sublist _, hposted.trans (List.append_nil _).symm, hdropped⟩

/-- What is `Offered` in two parts is offered in all. -/
theorem Offered.append (h : i.Offered messages j) (h' : j.Offered later k) :
    i.Offered (messages ++ later) k := by
  obtain ⟨first, hfirst, hposted, hdropped⟩ := h
  obtain ⟨second, hsecond, hposted', hdropped'⟩ := h'
  refine ⟨first ++ second, hfirst.append hsecond, ?_, ?_⟩
  · rw [hposted', hposted, List.append_assoc]
  · rw [List.length_append, List.length_append]
    omega

/-! ### What a context does -/

/-- A context that does nothing leaves everything as it is: `Served` is
reflexive. -/
theorem Served.refl (i : Inbox μ τ) : i.Served i :=
  ⟨rfl, List.suffix_refl _, rfl, rfl, List.prefix_refl _⟩

/-- What is left as it is twice is left as it is: `Served` is transitive. -/
theorem Served.trans (h : i.Served j) (h' : j.Served k) : i.Served k where
  posted_eq := h'.posted_eq.trans h.posted_eq
  items_suffix := h'.items_suffix.trans h.items_suffix
  capacity_eq := h'.capacity_eq.trans h.capacity_eq
  dropped_eq := h'.dropped_eq.trans h.dropped_eq
  answers_prefix := h.answers_prefix.trans h'.answers_prefix

/-- A context is offered nothing by its own acts (`Served`). -/
theorem Served.offered (h : i.Served j) : i.Offered [] j :=
  ⟨[], List.Sublist.refl _, h.posted_eq.trans (List.append_nil _).symm, h.dropped_eq⟩

/-- The first message of a mailbox is put behind those that were `taken`, so
that the order of what was posted stays. -/
theorem posted_take {rest : Mailbox μ} (h : i.mailbox.Takes [message] rest) :
    i.taken ++ [message] ++ rest.items = i.posted := by
  rw [posted, h.items, List.append_assoc]

variable [Ticketed μ] {next ticket : Nat}

/-- A context leaves the requests as they are, since it leaves what was
`posted`. -/
theorem Served.requests_eq (h : i.Served j) : j.requests = i.requests :=
  congrArg ticketsOf h.posted_eq

/-- An act of a context leaves as it is what contexts leave as it is, one case
for each `ContextAct`. -/
theorem served_perform (i : Inbox μ τ) (act : ContextAct τ) : i.Served (i.perform act) := by
  cases act with
  | take =>
      rcases i.mailbox.receive_cases with h | ⟨message, rest, h, htakes⟩
      · simp only [perform, h]
        exact .refl i
      · simp only [perform, h]
        refine ⟨posted_take htakes, ?_, htakes.capacity, htakes.dropped, List.prefix_refl _⟩
        rw [htakes.items]
        exact List.suffix_append _ _
  | answer ticket value =>
      simp only [perform]
      split
      · exact ⟨rfl, List.suffix_refl _, rfl, rfl, List.prefix_append _ _⟩
      · exact .refl i
  | forget ticket => exact ⟨rfl, List.suffix_refl _, rfl, rfl, List.prefix_refl _⟩
  | close => exact ⟨List.append_nil _, List.nil_suffix, rfl, rfl, List.prefix_refl _⟩

/-- The tickets in two parts are those of the first and then of the second, as
`ticketsOf` picks messages out. -/
theorem ticketsOf_append (messages later : List μ) :
    ticketsOf (messages ++ later) = ticketsOf messages ++ ticketsOf later :=
  List.filterMap_append

/-- A ticket of some messages is one of these and `later` ones. -/
theorem mem_ticketsOf_append (h : ticket ∈ ticketsOf messages) :
    ticket ∈ ticketsOf (messages ++ later) := by
  rw [ticketsOf_append]
  exact List.mem_append_left _ h

/-- A new inbox is `Sound`, as nothing was posted yet. -/
theorem sound_create (next capacity : Nat) : (create capacity : Inbox μ τ).Sound next where
  requests_lt := fun _ hmem => nomatch hmem
  held := fun _ hmem => nomatch hmem
  answered := fun _ hmem => nomatch hmem
  capacity_pos := Nat.lt_of_lt_of_le Nat.zero_lt_one (Nat.le_max_right _ _)

/-- An act of a context keeps its inbox sound. `requests` and `capacity` are
those of `served_perform`, so that for each act only `held` and `answers` are
looked at. -/
theorem Sound.perform (h : i.Sound next) (act : ContextAct τ) : (i.perform act).Sound next := by
  have hserved := i.served_perform act
  have hlt : ∀ ticket ∈ (i.perform act).requests, ticket < next := by
    rw [hserved.requests_eq]
    exact h.requests_lt
  have hcapacity : 0 < (i.perform act).mailbox.capacity := hserved.capacity_eq ▸ h.capacity_pos
  cases act with
  | take =>
      rcases i.mailbox.receive_cases with hnone | ⟨message, rest, hsome, -⟩
      · simp only [Inbox.perform, hnone]
        exact h
      · refine ⟨hlt, ?_, ?_, hcapacity⟩
        · simp only [Inbox.perform, hsome]
          intro ticket hmem
          rw [ticketsOf_append]
          refine List.mem_append.mpr ((List.mem_append.mp hmem).imp (h.held ticket) fun hnew => ?_)
          exact List.mem_filterMap.mpr
            ⟨message, List.mem_singleton_self _, Option.mem_toList.mp hnew⟩
        · simp only [Inbox.perform, hsome]
          exact fun r hmem => mem_ticketsOf_append (h.answered r hmem)
  | answer ticket value =>
      by_cases hheld : ticket ∈ i.held
      · refine ⟨hlt, ?_, ?_, hcapacity⟩
        · simp only [Inbox.perform, if_pos hheld]
          exact fun other hmem => h.held other (List.mem_of_mem_erase hmem)
        · simp only [Inbox.perform, if_pos hheld]
          intro r hmem
          rcases List.mem_append.mp hmem with hold | hnew
          · exact h.answered r hold
          · rw [List.mem_singleton.mp hnew]
            exact h.held ticket hheld
      · simp only [Inbox.perform, if_neg hheld]
        exact h
  | forget ticket =>
      exact ⟨hlt, fun other hmem => h.held other (List.mem_of_mem_erase hmem), h.answered,
        hcapacity⟩
  | close =>
      -- What waited counts as taken, and is not held.
      exact ⟨hlt, fun ticket hmem => mem_ticketsOf_append (h.held ticket hmem),
        fun r hmem => mem_ticketsOf_append (h.answered r hmem), hcapacity⟩

/-- Nothing is answered that was not posted: `Sound` says that it was taken, and
this is a part of `requests`. -/
theorem Sound.mem_requests (h : i.Sound next) {r : Reply τ} (hr : r ∈ i.answers) :
    r.ticket ∈ i.requests :=
  mem_ticketsOf_append (h.answered r hr)

/-- An inbox that is `Sound` below a ticket is so below every `later` one. -/
theorem Sound.mono {later : Nat} (h : i.Sound next) (hle : next ≤ later) : i.Sound later :=
  ⟨fun ticket hmem => Nat.lt_of_lt_of_le (h.requests_lt ticket hmem) hle, h.held, h.answered,
    h.capacity_pos⟩

/-- Whatever is posted has a ticket that counts as used (`hused`), or none, and
the inbox stays sound. -/
theorem Sound.tell (h : i.Sound next) (hused : ∀ ticket ∈ ticket? message, ticket < next) :
    (i.tell message).Sound next := by
  refine ⟨fun ticket hmem => ?_, h.held, h.answered, ?_⟩
  · obtain ⟨kept, hsublist, hposted, -⟩ := Offered.tell i message
    rw [requests, hposted, ticketsOf_append] at hmem
    rcases List.mem_append.mp hmem with hold | hnew
    · exact h.requests_lt ticket hold
    · obtain ⟨m, hm, hticket⟩ := List.mem_filterMap.mp hnew
      rw [List.mem_singleton.mp (hsublist.subset hm)] at hticket
      exact hused ticket hticket
  · exact (i.mailbox.capacity_post message).symm ▸ h.capacity_pos

/-- The `next` ticket is new: no request was posted with it. -/
theorem Sound.next_fresh (h : i.Sound next) : next ∉ i.requests :=
  fun hmem => Nat.lt_irrefl next (h.requests_lt next hmem)

/-- A request uses a ticket up (`hticket`), and the inbox is sound below the one
after it. -/
theorem Sound.ask (h : i.Sound next) (hticket : ticket? request = some next) :
    (i.tell request).Sound (next + 1) :=
  (h.mono (Nat.le_succ next)).tell fun _ hmem =>
    Option.some.inj (hticket.symm.trans hmem) ▸ Nat.lt_succ_self next

/-! ### What a question comes to -/

/-- Nothing is answered by what is posted, so that `tell` gives no answer. -/
theorem ownAnswer?_tell (i j : Inbox μ τ) (message : μ) :
    i.ownAnswer? (j.tell message) = i.ownAnswer? j := rfl

/-- Nobody waits for the answer to a request that is not kept, and none comes:
`Asked` holds with `none`. -/
theorem asked_tell (i : Inbox μ τ) (request : μ) : i.Asked request none (i.tell request) := by
  refine ⟨?_, .tell i request, fun h => absurd rfl h, List.prefix_refl _⟩
  have hnone : (i.tell request).answers.drop i.answers.length = [] := List.drop_length
  rw [ownAnswer?, hnone]
  rfl

/-- Where a request was posted last and then taken, nothing waits any more, as
messages are taken in order. `hfresh` tells the request apart from all earlier
ones, and `Sound` says that an answer is one to a request that was taken. -/
theorem items_eq_nil (h : j.Sound next) (hposted : j.posted = i.posted ++ [request])
    (hfresh : ticket ∉ i.requests) (hanswered : ∃ r ∈ j.answers, r.ticket = ticket) :
    j.mailbox.items = [] := by
  rcases List.eq_nil_or_concat j.mailbox.items with hnil | ⟨older, last, hlast⟩
  · exact hnil
  · -- Otherwise what was taken was posted before the request.
    exfalso
    have hsplit : j.taken ++ older ++ [last] = i.posted ++ [request] := by
      rw [List.append_assoc, ← List.concat_eq_append, ← hlast]
      exact hposted
    have htaken : j.taken ++ older = i.posted := (List.append_inj' hsplit rfl).1
    obtain ⟨r, hr, rfl⟩ := hanswered
    refine hfresh ?_
    rw [requests, ← htaken]
    exact mem_ticketsOf_append (h.answered r hr)

/-- All answers to older requests are passed over: the first answer to the new
request is the one that `Mailbox.answerTo` finds by its ticket. -/
theorem ownAnswer?_eq_answerTo (hj : j.Sound next) (hrequests : j.requests = i.requests ++ [ticket])
    (hfresh : ticket ∉ i.requests) :
    i.ownAnswer? j = Mailbox.answerTo ticket (j.answers.drop i.answers.length) := by
  have hsame : ∀ r ∈ j.answers.drop i.answers.length,
      decide (r.ticket ∉ i.requests) = (r.ticket == ticket) := by
    intro r hr
    have hmem := hj.mem_requests (List.mem_of_mem_drop hr)
    rw [hrequests, List.mem_append, List.mem_singleton] at hmem
    rcases hmem with hold | hnew
    · have hother : r.ticket ≠ ticket := fun heq => hfresh (heq ▸ hold)
      rw [decide_eq_false (not_not_intro hold), beq_eq_false_iff_ne.mpr hother]
    · rw [hnew, decide_eq_true hfresh, beq_self_eq_true]
  rw [ownAnswer?, Mailbox.answerTo, ← List.head?_filter, ← List.head?_filter,
    List.filter_congr hsame]

/-- A request that was kept waits for the answer with its ticket, and what comes
of it is told by `Asked`. -/
theorem asked_of_kept (hroom : i.mailbox.hasRoom = true) (hticket : ticket? request = some ticket)
    (hi : i.Sound ticket) (hserved : (i.tell request).Served j) (hj : j.Sound next) :
    i.Asked request (Mailbox.answerTo ticket (j.answers.drop i.answers.length)) j := by
  have hfresh := hi.next_fresh
  have hposted : j.posted = i.posted ++ [request] := by
    rw [hserved.posted_eq, posted_tell, if_pos hroom]
  have hrequests : j.requests = i.requests ++ [ticket] := by
    rw [requests, hposted, ticketsOf_append]
    exact congrArg (i.requests ++ ·) (List.filterMap_cons_some hticket)
  refine ⟨ownAnswer?_eq_answerTo hj hrequests hfresh,
    (Offered.tell i request).append hserved.offered,
    fun hanswer => ⟨hposted, items_eq_nil hj hposted hfresh ?_⟩, hserved.answers_prefix⟩
  obtain ⟨value, hvalue⟩ := Option.ne_none_iff_exists'.mp hanswer
  obtain ⟨r, hr, -⟩ := Option.map_eq_some_iff.mp hvalue
  have hmatch := List.find?_some hr
  exact ⟨r, List.mem_of_mem_drop (List.mem_of_find?_eq_some hr), beq_iff_eq.mp hmatch⟩

/-- Where a question was answered (`Asked`), there is an answer of its own. -/
theorem Asked.own_ne_none {value : τ} (h : i.Asked request (some value) j) :
    i.ownAnswer? j ≠ none :=
  fun hnone => nomatch h.own.symm.trans hnone

/-- What was answered before the question is no answer to it, so that one may
look from further back. By `hj`, an answer that `j` has is one to a request of
`j`, and so the answer looked for is none of them. -/
theorem Asked.after {answer : Option τ} (h : j.Asked request answer k) (hserved : i.Served j)
    (hj : j.Sound next) : i.Asked request answer k := by
  obtain ⟨earlier, hearlier⟩ := hserved.answers_prefix
  obtain ⟨given, hgiven⟩ := h.answers_prefix
  refine ⟨?_, hserved.offered.append h.offered, fun hanswer => ?_,
    hserved.answers_prefix.trans h.answers_prefix⟩
  · have hpassed : earlier.find? (fun r => decide (r.ticket ∉ i.requests)) = none := by
      refine List.find?_eq_none.mpr fun r hr => ?_
      have hmem : r ∈ j.answers := hearlier ▸ List.mem_append_right _ hr
      rw [← hserved.requests_eq, decide_eq_true_eq, Decidable.not_not]
      exact hj.mem_requests hmem
    have hown := h.own
    rw [ownAnswer?, ← hgiven, List.drop_left, hserved.requests_eq] at hown
    rw [ownAnswer?, ← hgiven, ← hearlier, List.append_assoc, List.drop_left, List.find?_append,
      hpassed, Option.none_or]
    exact hown
  · rw [← hserved.posted_eq]
    exact h.emptied hanswer

/-- What a context does after its answer takes nothing back. It is the first
answer to its ticket, and `emptied` is kept as nothing is posted. -/
theorem Asked.served {value : τ} (h : i.Asked request (some value) j) (hserved : j.Served k) :
    i.Asked request (some value) k := by
  obtain ⟨given, hgiven⟩ := h.answers_prefix
  obtain ⟨later, hlater⟩ := hserved.answers_prefix
  obtain ⟨hposted, hnil⟩ := h.emptied (Option.some_ne_none value)
  refine ⟨?_, h.offered.append hserved.offered, fun _ => ⟨?_, ?_⟩,
    h.answers_prefix.trans hserved.answers_prefix⟩
  · have hown := h.own
    rw [ownAnswer?, ← hgiven, List.drop_left] at hown
    rw [ownAnswer?, ← hlater, ← hgiven, List.append_assoc, List.drop_left, List.find?_append,
      Option.map_or, hown]
    rfl
  · exact hserved.posted_eq.trans hposted
  · exact List.suffix_nil.mp (hnil ▸ hserved.items_suffix)

/-- Right after its answer, a context that is still there (`hopen`) takes
another message, since its mailbox is empty. -/
theorem Asked.posted_tell {value : τ} (h : i.Asked request (some value) j)
    (hcapacity : 0 < j.mailbox.capacity) (hopen : j.mailbox.closed = false) (message : μ) :
    (j.tell message).posted = i.posted ++ [request, message] := by
  obtain ⟨hposted, hnil⟩ := h.emptied (Option.some_ne_none value)
  have hroom : j.mailbox.hasRoom = true := by
    refine Mailbox.hasRoom_iff.mpr ⟨hopen, ?_⟩
    rw [hnil]
    exact hcapacity
  rw [Inbox.posted_tell, if_pos hroom, hposted, List.append_assoc]
  rfl

end Inbox

end EchoAlign
