import Mathlib.Algebra.Order.Group.Int
import CcSnippets.Core.Timer

/-!
# CcSnippets.Asio.Basic

What the sessions of the proxy (`asio/proxy/server.cc`), of the two echo servers
(`asio/echo/server.cc`, `asio/echo/co_server.cc`) and of their clients share: errors
of operations, the buffers, the chunks of bytes received into them, and the
watchdog, a class of its own in the proxy and part of the session in the echo
servers.
-/

namespace CcSnippets.Asio

open CcSnippets.Core

/-- `buffer_size`. -/
def bufferSize : ℕ := 1024

/-- The `error_code` of a failed operation. -/
inductive Error
  /-- The peer has ended its stream. -/
  | eof
  /-- The operation was cancelled. -/
  | aborted
  | other (code : ℕ)
  deriving DecidableEq, Repr

/-- What one receive delivers. -/
structure Chunk where
  bytes : List UInt8
  nonempty : bytes ≠ []
  le : bytes.length ≤ bufferSize

/-- A `std::array<char, buffer_size>`. -/
structure Buffer where
  bytes : List UInt8
  size : bytes.length = bufferSize

/-- The chunk is received into the buffer. -/
def Buffer.fill (b : Buffer) (c : Chunk) : Buffer where
  bytes := c.bytes ++ b.bytes.drop c.bytes.length
  size := by
    rw [List.length_append, List.length_drop, b.size]
    exact Nat.add_sub_cancel' c.le

@[simp] theorem Buffer.take_fill (b : Buffer) (c : Chunk) :
    (b.fill c).bytes.take c.bytes.length = c.bytes := List.take_left' rfl

/-- A buffer of zeros. -/
def Buffer.zero : Buffer := ⟨List.replicate bufferSize 0, List.length_replicate⟩

/-- `resize` of a string or a vector of bytes. -/
def resize (s : List UInt8) (n : ℕ) : List UInt8 := s.take n ++ List.replicate (n - s.length) 0

@[simp] theorem length_resize (s : List UInt8) (n : ℕ) : (resize s n).length = n := by
  rw [resize, List.length_append, List.length_take, List.length_replicate]
  omega

theorem resize_of_le {s : List UInt8} {n : ℕ} (h : n ≤ s.length) : resize s n = s.take n := by
  rw [resize, Nat.sub_eq_zero_of_le h, List.replicate_zero, List.append_nil]

/-- A clock that counts its readings. -/
def ticking : Clock ℤ := ⟨fun n => n, Int.ofNat_le.mpr⟩

/-- A watchdog: `timer_` and `deadline_`. -/
structure Watchdog where
  timer : Timer ℤ
  deadline : ℤ
  deriving DecidableEq, Repr

namespace Watchdog

/-- As constructed: nothing is waited for, and the times are the epoch. -/
def new : Watchdog := ⟨⟨0, 0⟩, 0⟩

variable (w : Watchdog)

/-- `start`, at `now`: the callback is called (`none`), or a wait is made at the
deadline, and the number of waits aborted by that is returned. -/
def start (now : ℤ) : Option (Watchdog × ℕ) :=
  if now ≥ w.deadline then none
  else
    let (timer, aborted) := w.timer.expiresAt w.deadline
    some ({ w with timer := timer.asyncWait }, aborted)

/-- `stop`, with the number of waits aborted. -/
def stop : Watchdog × ℕ :=
  let (timer, aborted) := w.timer.cancel
  ({ w with timer := timer }, aborted)

/-- `delay`, at `now`. Times are integers without a width. -/
def delay (now dur : ℤ) : Watchdog := { w with deadline := now + dur }

theorem start_eq_none {w : Watchdog} {now : ℤ} : w.start now = none ↔ w.deadline ≤ now := by
  unfold start
  split
  · rename_i h
    exact ⟨fun _ => h, fun _ => rfl⟩
  · rename_i h
    exact ⟨fun hnone => absurd hnone (by simp), fun hle => absurd hle h⟩

theorem start_eq_some {w w' : Watchdog} {now : ℤ} {aborted : ℕ}
    (h : w.start now = some (w', aborted)) :
    w' = { w with timer := (w.timer.expiresAt w.deadline).1.asyncWait } ∧
      aborted = w.timer.waits := by
  unfold start at h
  split at h
  · cases h
  · obtain ⟨rfl, rfl⟩ := Prod.mk.inj (Option.some.inj h)
    exact ⟨rfl, rfl⟩

end Watchdog

end CcSnippets.Asio
