import Mathlib.Data.List.Basic

/-!
# Go channels

A Go channel is the buffer of the values sent to it and not received yet, oldest first, and
whether it has been closed. `send cap` is `ch <- a` on a channel made with a buffer of `cap`: it is
enabled while the buffer has room and the channel is open (a send on a closed channel panics; the
models that use channels show that it never happens). `recv` is `<-ch`: the oldest value, or
`none` once the channel is closed and its buffer drained, as `v, ok := <-ch` reads it with
`ok = false`; on an open, empty channel it blocks, and is not enabled. A `select` with a `default`
branch takes the default exactly where `recv` blocks.

A channel appends at the back and takes from the front, so it delivers what was sent, in order:
`send_eq_some` and `recv_eq_some` say what each operation does to the buffer.
-/

/-- A channel's buffer, oldest value first, and whether it is closed. -/
structure Chan (α : Type*) where
  buffer : List α
  closed : Bool
  deriving DecidableEq, Repr

namespace Chan

variable {α : Type*}

/-- `make(chan T, n)`: open and empty. -/
def empty : Chan α := ⟨[], false⟩

/-- `ch <- a`, on a channel with a buffer of `cap`. -/
def send (cap : ℕ) (ch : Chan α) (a : α) : Option (Chan α) :=
  if ch.buffer.length < cap ∧ ch.closed = false then some { ch with buffer := ch.buffer ++ [a] }
  else none

/-- `<-ch`: the oldest value, or `none` when the channel is closed and drained. -/
def recv (ch : Chan α) : Option (Option α × Chan α) :=
  match ch.buffer with
  | a :: rest => some (some a, { ch with buffer := rest })
  | [] => if ch.closed then some (none, ch) else none

/-- `close(ch)`. -/
def close (ch : Chan α) : Chan α := { ch with closed := true }

variable {ch ch' : Chan α} {cap : ℕ} {a : α}

theorem send_eq_some :
    ch.send cap a = some ch' ↔
      ch.buffer.length < cap ∧ ch.closed = false ∧ ch' = { ch with buffer := ch.buffer ++ [a] } := by
  unfold send
  split_ifs with h
  · simp only [Option.some.injEq, h.1, h.2, true_and]
    exact eq_comm
  · simp only [false_iff]
    exact fun h' => h ⟨h'.1, h'.2.1⟩

/-- A receive takes the oldest value, or finds the channel closed and drained. -/
theorem recv_eq_some {v : Option α} :
    ch.recv = some (v, ch') ↔
      (∃ b rest, ch.buffer = b :: rest ∧ v = some b ∧ ch' = { ch with buffer := rest }) ∨
        (ch.buffer = [] ∧ ch.closed = true ∧ v = none ∧ ch' = ch) := by
  unfold recv
  split
  · rename_i b rest hbuf
    simp only [Option.some.injEq, Prod.mk.injEq, hbuf, List.cons.injEq, reduceCtorEq, false_and,
      or_false]
    constructor
    · rintro ⟨rfl, rfl⟩
      exact ⟨b, rest, ⟨rfl, rfl⟩, rfl, rfl⟩
    · rintro ⟨b', rest', ⟨rfl, rfl⟩, rfl, rfl⟩
      exact ⟨rfl, rfl⟩
  · rename_i hbuf
    split_ifs with hc
    · simp only [Option.some.injEq, Prod.mk.injEq, hbuf, hc, reduceCtorEq, false_and, exists_false,
        true_and, false_or]
      exact ⟨fun ⟨h1, h2⟩ => ⟨h1.symm, h2.symm⟩, fun ⟨h1, h2⟩ => ⟨h1.symm, h2.symm⟩⟩
    · simp [hbuf, hc]

/-- A receive blocks exactly on an open, empty channel. -/
theorem recv_eq_none : ch.recv = none ↔ ch.buffer = [] ∧ ch.closed = false := by
  unfold recv
  split
  · rename_i hbuf
    simp [hbuf]
  · rename_i hbuf
    split_ifs with hc <;> simp [hbuf, hc]

@[simp]
theorem close_buffer : ch.close.buffer = ch.buffer := rfl

@[simp]
theorem close_closed : ch.close.closed = true := rfl

end Chan
