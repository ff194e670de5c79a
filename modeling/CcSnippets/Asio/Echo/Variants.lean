import CcSnippets.Asio.Echo.Callbacks
import CcSnippets.Asio.Echo.Coroutines

/-!
# CcSnippets.Asio.Echo.Variants

The sessions of `server.cc` and of `co_server.cc`, with timeouts or with a watchdog,
are the **same echo machine**.
-/

namespace CcSnippets.Asio.Echo

open CcSnippets.Core Machine

/-- **All four variants are the echo machine.** In every run of a session, whatever its
timers do, the requests are those that the outcomes so far call for, none follows a
failure, and what is written is what has been received but for a rest of the last chunk
(`Echoes`). Any sequence of outcomes occurs in a run of each variant without a timer that
expires (`Realizes`), if less than the timeout passes between readings of the clock, so
that the watchdog does not find its deadline passed as it is started: there all four
make the same requests. -/
theorem variants_same (clock : Clock ℤ) (timeout : ℤ) :
    (∀ withTimeout,
      Echoes (strandSystem clock timeout withTimeout) State.seen observe State.Settled) ∧
    (∀ dispatches withTimeout,
      Echoes (Coroutine.strandSystem clock timeout dispatches withTimeout) Coroutine.State.seen
        Coroutine.observe Coroutine.State.Settled) ∧
    (Prompt clock timeout →
      (∀ withTimeout, Realizes (strandSystem clock timeout withTimeout) State.seen observe
        State.Settled Label.expires) ∧
      ∀ dispatches withTimeout,
        Realizes (Coroutine.strandSystem clock timeout dispatches withTimeout)
          Coroutine.State.seen Coroutine.observe Coroutine.State.Settled
          Coroutine.Label.expires) := by
  refine ⟨echoes clock timeout, Coroutine.echoes clock timeout, fun hclock => ⟨?_, ?_⟩⟩
  · exact realizes hclock
  · intro dispatches withTimeout
    exact Coroutine.realizes clock timeout dispatches hclock withTimeout

/-- On a clock that counts its readings, with a timeout of two. -/
theorem variants_same_ticking :
    (∀ withTimeout, Realizes (strandSystem ticking 2 withTimeout) State.seen observe
      State.Settled Label.expires) ∧
    ∀ dispatches withTimeout,
      Realizes (Coroutine.strandSystem ticking 2 dispatches withTimeout) Coroutine.State.seen
        Coroutine.observe Coroutine.State.Settled Coroutine.Label.expires := by
  have hprompt : Prompt ticking 2 := by
    intro n
    show ((n + 1 : ℕ) : ℤ) < (n : ℤ) + 2
    omega
  exact (variants_same ticking 2).2.2 hprompt

end CcSnippets.Asio.Echo
