import CcSnippets.Asio.Echo.Coroutine.WindDown
import CcSnippets.Asio.Proxy.Paid

/-!
# CcSnippets.Asio.Sessions

The sessions of all three servers **wind down**.
-/

namespace CcSnippets.Asio

open CcSnippets.Core

/-- **Every session works for what it receives, and winds down.** A session of an echo server
or of the proxy makes a fixed number of steps at its start, and then no more than a few for
each chunk that it receives and one for each byte. When no more is received, it comes to an end
and is released. -/
theorem sessions_wind_down (clock : Clock ℤ) (timeout : ℤ) :
    (∀ withTimeout, WindsDown (Echo.system clock timeout withTimeout) Echo.view clock 4 8) ∧
    (∀ dispatches withTimeout, WindsDown
      (Echo.Coroutine.system clock timeout dispatches withTimeout) Echo.Coroutine.view clock 9 10) ∧
    WindsDown (Proxy.system clock timeout) Proxy.view clock 14 8 :=
  ⟨Echo.windsDown_system clock timeout, Echo.Coroutine.windsDown_system clock timeout,
    Proxy.windsDown_system clock timeout⟩

end CcSnippets.Asio
