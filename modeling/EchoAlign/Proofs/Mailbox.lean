import EchoAlign.Mailbox

/-!
# `EchoAlign.Proofs.Mailbox`: what posting, taking and closing leave

The laws of a mailbox that say more than which messages wait in it.

* `hasRoom_iff`: there is room in a mailbox that is open and not full.
* `Takes` is what is left of a mailbox when its oldest messages are taken
  out, in whatever way (`takes_drain`, `receive_cases`).
* `Within` bounds the messages that wait, and each operation keeps it.
-/

set_option autoImplicit false

namespace EchoAlign

namespace Mailbox

variable {α : Type} {m rest : Mailbox α} {limit : Nat}

/-! ### Messages are posted -/

/-- There is room in a mailbox that is open and holds less than its `capacity`. -/
theorem hasRoom_iff : m.hasRoom = true ↔ m.closed = false ∧ m.items.length < m.capacity := by
  rw [length_items, hasRoom, Bool.and_eq_true, Bool.not_eq_true', decide_eq_true_eq]

/-- A post is kept exactly when there is room (`hasRoom`). -/
theorem post_fst (m : Mailbox α) (message : α) : (m.post message).1 = m.hasRoom := by
  unfold post
  cases m.hasRoom with
  | true => rfl
  | false => rfl

/-- A post does not change the `capacity`. -/
theorem capacity_post (m : Mailbox α) (message : α) :
    (m.post message).2.capacity = m.capacity := by
  unfold post
  split
  · rfl
  · rfl

/-- A post neither opens nor closes a mailbox (`closed`). -/
theorem closed_post (m : Mailbox α) (message : α) : (m.post message).2.closed = m.closed := by
  unfold post
  split
  · rfl
  · rfl

/-- A post that is not kept is counted in `dropped`. -/
theorem dropped_post (m : Mailbox α) (message : α) :
    (m.post message).2.dropped = if m.hasRoom then m.dropped else m.dropped + 1 := by
  unfold post
  split
  · rfl
  · rfl

/-- What waits goes on to wait when something is posted, whether it is `kept` or
not. -/
theorem mem_posted {kept : Bool} {items : List α} {posted message : α}
    (h : message ∈ items) : message ∈ if kept then items ++ [posted] else items := by
  split
  · exact List.mem_append_left _ h
  · exact h

/-- A message that waits after a post was `posted`, or waited before. -/
theorem mem_of_posted {kept : Bool} {items : List α} {posted message : α}
    (h : message ∈ if kept then items ++ [posted] else items) :
    message ∈ items ∨ message = posted := by
  split at h
  · exact (List.mem_append.mp h).imp_right List.mem_singleton.mp
  · exact Or.inl h

/-- A message that waits in a mailbox after a post was `posted`, or waited
before. -/
theorem mem_items_post {posted message : α} (h : message ∈ (m.post posted).2.items) :
    message ∈ m.items ∨ message = posted := by
  rw [items_post] at h
  exact mem_of_posted h

/-! ### Messages are taken out -/

/-- The mailbox is left as `rest` when messages are taken out of it. -/
structure Takes (m : Mailbox α) (taken : List α) (rest : Mailbox α) : Prop where
  items : m.items = taken ++ rest.items
  capacity : rest.capacity = m.capacity
  closed : rest.closed = m.closed
  dropped : rest.dropped = m.dropped

/-- What is drained is taken from the front, in order (`Takes`). -/
theorem takes_drain (m : Mailbox α) (limit : Nat) : m.Takes (m.drain limit).1 (m.drain limit).2 :=
  ⟨(m.drain_append limit).symm, rfl, rfl, rfl⟩

/-- Nothing is taken where nothing is done: `Takes` is reflexive. -/
theorem Takes.refl (m : Mailbox α) : m.Takes [] m := ⟨rfl, rfl, rfl, rfl⟩

/-- Messages can be taken one at a time, so that a step deals with one message
only. By induction, a lemma on a step that `Takes` one message is one on all
messages. -/
theorem Takes.cons {message : α} {messages : List α} (h : m.Takes (message :: messages) rest) :
    ∃ between, m.Takes [message] between ∧ between.Takes messages rest := by
  -- The mailbox in between is `m` without its first message.
  refine ⟨{ m with
      waiting := .ofList (messages ++ rest.items)
      count := (messages ++ rest.items).length
      count_eq := by rw [Queue.toList_ofList] }, ⟨?_, rfl, rfl, rfl⟩, ⟨?_, ?_, ?_, ?_⟩⟩
  · rw [h.items]
    exact (congrArg (message :: ·) (Queue.toList_ofList _)).symm
  · exact Queue.toList_ofList _
  · exact h.capacity
  · exact h.closed
  · exact h.dropped

/-- Who receives takes the oldest message (`Takes`), if there is one. -/
theorem receive_cases (m : Mailbox α) :
    m.receive = (none, m)
      ∨ ∃ message rest, m.receive = (some message, rest) ∧ m.Takes [message] rest := by
  unfold receive
  split
  · exact Or.inl rfl
  · next message waiting h =>
      exact Or.inr ⟨message, _, rfl, Queue.pop?_eq_some h, rfl, rfl, rfl⟩

/-- Nothing is taken by `drain` where nothing waits. -/
theorem drain_of_nil (h : m.items = []) (limit : Nat) :
    (m.drain limit).1 = [] ∧ (m.drain limit).2.items = [] := by
  have hsplit := m.drain_append limit
  rw [h] at hsplit
  exact List.append_eq_nil_iff.mp hsplit

/-! ### How many messages wait -/

/-- The mailbox has room for so many messages in all, and holds no more. With
the limit of a tick for the `limit`, one `drain` empties it. -/
structure Within (limit : Nat) (m : Mailbox α) : Prop where
  capacity_eq : m.capacity = limit
  length_le : m.items.length ≤ limit

/-- A mailbox that takes a message had room for it, and stays `Within` the
limit. -/
theorem Within.post (h : m.Within limit) (message : α) : (m.post message).2.Within limit := by
  refine ⟨(m.capacity_post message).trans h.capacity_eq, ?_⟩
  rw [items_post]
  split
  · next hroom =>
      rw [List.length_append, ← h.capacity_eq]
      exact (hasRoom_iff.mp hroom).2
  · exact h.length_le

/-- A mailbox from which messages are taken has the same room in all, and stays
`Within` the limit. -/
theorem Within.takes {taken : List α} (h : m.Within limit) (hrest : m.Takes taken rest) :
    rest.Within limit := by
  have hlength := h.length_le
  rw [hrest.items, List.length_append] at hlength
  exact ⟨hrest.capacity.trans h.capacity_eq, Nat.le_trans (Nat.le_add_left _ _) hlength⟩

/-- A mailbox that is closed has the same room in all, and stays `Within` the
limit. -/
theorem Within.close (h : m.Within limit) : m.close.Within limit :=
  ⟨h.capacity_eq, Nat.zero_le limit⟩

/-- All messages are taken out in one go, as no more than `limit` of them wait. -/
theorem Within.drain (h : m.Within limit) :
    (m.drain limit).1 = m.items ∧ (m.drain limit).2.items = [] := by
  refine ⟨List.take_of_length_le h.length_le, ?_⟩
  show (Queue.ofList (m.items.drop limit)).toList = []
  rw [Queue.toList_ofList]
  exact List.drop_eq_nil_of_le h.length_le

/-- All that is left behind some messages is taken out after them. `Within` says
that no more than `limit` messages wait, so that the second `drain` takes them
all. -/
theorem Within.drain_drain (h : m.Within limit) (n : Nat) :
    (m.drain n).2.drain limit = (m.items.drop n, (m.drain limit).2) := by
  have hlength := h.length_le
  have hitems : (m.drain n).2.items = m.items.drop n := Queue.toList_ofList _
  refine Prod.ext ?_ ?_
  · show (m.drain n).2.items.take limit = m.items.drop n
    rw [hitems]
    refine List.take_of_length_le ?_
    rw [List.length_drop]
    omega
  · have hleft : (m.drain n).2.items.drop limit = m.items.drop limit := by
      rw [hitems, List.drop_drop, List.drop_eq_nil_of_le (by omega), List.drop_eq_nil_of_le hlength]
    have hcount : m.count - n - limit = m.count - limit := by
      rw [length_items] at hlength
      omega
    show Mailbox.mk m.capacity (.ofList ((m.drain n).2.items.drop limit)) (m.count - n - limit) _
        m.closed m.dropped
      = Mailbox.mk m.capacity (.ofList (m.items.drop limit)) (m.count - limit) _ m.closed m.dropped
    simp only [hleft, hcount]

/-- A new mailbox has the room that it was created with: it is `Within` its
capacity. -/
theorem within_create {capacity : Nat} (h : 0 < capacity) :
    (create capacity : Mailbox α).Within capacity :=
  ⟨Nat.max_eq_left h, Nat.zero_le capacity⟩

end Mailbox

end EchoAlign
