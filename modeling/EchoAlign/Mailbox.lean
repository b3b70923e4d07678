import EchoAlign.Queue

/-!
# `EchoAlign.Mailbox`: bounded one-way messages

A `Mailbox` carries messages from one context to another. Posting never
waits: a full or closed mailbox drops the message and counts it.

A control thread may also ask a question (`Mailbox.ask`). It posts a
request with a fresh ticket and then waits. What happens to the mailbox
and to the rest of the world in the meantime is a parameter; what comes
back is a list of answers, and only the one with the ticket of this
request counts. A late answer to an older request carries an older
ticket.

`Mailbox.items` lists the messages that wait, oldest first:

* `items_post`: a post that is kept puts its message behind them.
* `post_eq_false_iff`: a post fails exactly when the mailbox is closed
  or full.
* `drain_append`: draining splits the messages, in order.
-/

set_option autoImplicit false

namespace EchoAlign

/-- A bounded queue of undelivered messages. By `count_eq` the messages need not
be counted again for each post. -/
structure Mailbox (α : Type) where
  capacity : Nat
  /-- The undelivered messages. -/
  waiting : Queue α
  /-- How many messages wait. -/
  count : Nat
  count_eq : count = waiting.toList.length
  /-- Whether the receiving side is gone. -/
  closed : Bool
  /-- How many posts were dropped. -/
  dropped : Nat

/-- An answer to the request with this `ticket`. -/
structure Reply (τ : Type) where
  ticket : Nat
  value : τ

namespace Mailbox

variable {α σ τ : Type}

/-- An empty mailbox. It holds at least one message, whatever `capacity` was
asked for. -/
def create (capacity : Nat) : Mailbox α := ⟨max capacity 1, .empty, 0, rfl, false, 0⟩

/-- The undelivered messages, oldest first, as the list that the laws speak of. -/
def items (m : Mailbox α) : List α := m.waiting.toList

/-- Whether a message posted now would be kept: the mailbox is open and not
full. -/
def hasRoom (m : Mailbox α) : Bool := !m.closed && m.count < m.capacity

/-- Puts a message behind those that wait. Whether there is room for it is for
`post` to say. -/
def add (m : Mailbox α) (message : α) : Mailbox α :=
  { m with
    waiting := m.waiting.push message
    count := m.count + 1
    count_eq := by rw [Queue.toList_push, List.length_append, m.count_eq]; rfl }

/-- Posts a message, and says whether it was kept. One that finds no room
(`hasRoom`) is counted as `dropped`. -/
def post (m : Mailbox α) (message : α) : Bool × Mailbox α :=
  if m.hasRoom then (true, m.add message) else (false, { m with dropped := m.dropped + 1 })

/-- Takes the oldest message. -/
def receive (m : Mailbox α) : Option α × Mailbox α :=
  match h : m.waiting.pop? with
  | none => (none, m)
  | some (message, waiting) =>
      (some message,
        { m with
          waiting
          count := m.count - 1
          count_eq := by rw [m.count_eq, Queue.pop?_eq_some h]; rfl })

/-- Takes up to `limit` messages, oldest first, and leaves the others in order. -/
def drain (m : Mailbox α) (limit : Nat) : List α × Mailbox α :=
  (m.items.take limit,
    { m with
      waiting := .ofList (m.items.drop limit)
      count := m.count - limit
      count_eq := by rw [Queue.toList_ofList, List.length_drop, m.count_eq, items] })

/-- The receiving side goes away, and with it what it had not taken. From then
on every post is dropped. -/
def close (m : Mailbox α) : Mailbox α :=
  { m with waiting := .empty, count := 0, count_eq := rfl, closed := true }

/-- The value of the first answer with this ticket. -/
def answerTo (ticket : Nat) (replies : List (Reply τ)) : Option τ :=
  (replies.find? fun r => r.ticket == ticket).map (·.value)

/-- Posts a request and waits for its answer. `wait` is what the world
does with the mailbox until the time is up, and the answers it sends
meanwhile. A request that was not kept waits for nothing. -/
def ask (m : Mailbox α) (request : α) (ticket : Nat) (world : σ)
    (wait : Mailbox α → σ → Mailbox α × σ × List (Reply τ)) :
    Option τ × Mailbox α × σ :=
  match m.post request with
  | (false, m) => (none, m, world)
  | (true, m) =>
      let (m, world, replies) := wait m world
      (answerTo ticket replies, m, world)

/-! ### Laws -/

/-- The messages that wait are counted: `count` is the length of `items`. -/
theorem length_items (m : Mailbox α) : m.items.length = m.count := m.count_eq.symm

/-- A post that is kept puts its message behind those that wait. One that finds
no room leaves `items` as they are. -/
theorem items_post (m : Mailbox α) (message : α) :
    (m.post message).2.items = if m.hasRoom then m.items ++ [message] else m.items := by
  unfold post
  split
  · exact Queue.toList_push m.waiting message
  · rfl

/-- A post fails exactly when the mailbox is `closed` or full. -/
theorem post_eq_false_iff (m : Mailbox α) (message : α) :
    (m.post message).1 = false ↔ m.closed = true ∨ m.capacity ≤ m.items.length := by
  rw [length_items]
  unfold post hasRoom
  cases hc : m.closed with
  | true => simp
  | false =>
      by_cases h : m.count < m.capacity
      · simp [h]
      · simp [h]
        omega

/-- The first answer with a `ticket` is among the first answers, or else among
the rest. -/
theorem answerTo_append (ticket : Nat) (first rest : List (Reply τ)) :
    answerTo ticket (first ++ rest) = (answerTo ticket first).or (answerTo ticket rest) := by
  rw [answerTo, List.find?_append, Option.map_or]
  rfl

/-- Taking the oldest message with `receive` leaves the others in order. -/
theorem items_receive (m : Mailbox α) :
    m.receive.1 = m.items.head? ∧ m.receive.2.items = m.items.tail := by
  unfold receive items
  split
  · next h => rw [Queue.pop?_eq_none h]; exact ⟨rfl, rfl⟩
  · next h => rw [Queue.pop?_eq_some h]; exact ⟨rfl, rfl⟩

/-- With `drain`, the messages that are taken and those that are left make up
all there were, in order. -/
theorem drain_append (m : Mailbox α) (limit : Nat) :
    (m.drain limit).1 ++ (m.drain limit).2.items = m.items := by
  show m.items.take limit ++ (Queue.ofList (m.items.drop limit)).toList = m.items
  rw [Queue.toList_ofList, List.take_append_drop]

end Mailbox

end EchoAlign
