import CcSnippets.Asio.Echo.Watched
import CcSnippets.Asio.Proxy.Watched

/-!
# CcSnippets.Asio.Watchdogs

The watchdogs of the proxy and of the echo server **neither fire early nor sleep**.
-/

namespace CcSnippets.Asio

open CcSnippets.Core

/-- **No watchdog fires early, and none falls asleep.** Where the loop of a watchdog
ends the session, every operation that it guards was started at least the timeout
before. From its start until `stop` has run, there is exactly one wait of it, pending or
completed without an error, and a pending one expires no later than the deadline. -/
theorem watchdogs_patient_and_awake (clock : Clock ℤ) (timeout : ℤ) :
    (∀ s, (Proxy.system clock timeout).Reachable s → ∀ d,
      (∀ u t, [.started d u, .expired d t].Sublist s.log → u + timeout ≤ t) ∧
      (s.begun d = true → s.stopped = false →
        (s.watchdog d).timer.waits + (s.waits d).length = 1 ∧ (∀ e ∈ s.waits d, e = none) ∧
        (0 < (s.watchdog d).timer.waits →
          (s.watchdog d).timer.expiry ≤ (s.watchdog d).deadline))) ∧
    (∀ s, (Echo.system clock timeout false).Reachable s →
      (∀ u t, [.started u, .expired t].Sublist s.log → u + timeout ≤ t) ∧
      (s.stopped = false →
        s.watchdog.timer.waits + (s.queue.filterMap Echo.Completion.woken).length = 1 ∧
        (∀ e, .wait e ∈ s.queue → e = none) ∧
        (0 < s.watchdog.timer.waits → s.watchdog.timer.expiry ≤ s.watchdog.deadline))) := by
  constructor
  · intro s hs d
    have hkept := (Proxy.watched_of_reach hs).toKept
    refine ⟨fun u t hlog => ?_, fun hbegun hnot => ?_⟩
    · exact List.pairwise_iff_forall_sublist.mp hkept.patient hlog d u t rfl rfl
    · have hwatch := hkept.watches d
      rw [hbegun] at hwatch
      have hcount := hwatch.count hnot
      refine ⟨?_, fun e he => ?_, hwatch.early hnot⟩
      · rwa [show (s.watch clock d).woken = (s.waits d).map Option.isNone from rfl,
          List.length_map] at hcount
      · exact Option.isNone_iff_eq_none.mp
          (hwatch.fine hnot _ (List.mem_map.mpr ⟨e, he, rfl⟩))
  · intro s hs
    have hkept := Echo.kept_of_reach hs
    refine ⟨fun u t hlog => ?_, fun hnot => ⟨hkept.watch.count hnot, fun e he => ?_,
      hkept.watch.early hnot⟩⟩
    · exact List.pairwise_iff_forall_sublist.mp hkept.patient hlog u t rfl rfl
    · exact Option.isNone_iff_eq_none.mp
        (hkept.watch.fine hnot _ (List.mem_filterMap.mpr ⟨_, he, rfl⟩))

/-- A proxy and an echo session that are idle are ended by a watchdog. -/
theorem watchdogs_patient_and_awake_idle :
    ∃ s e, (Proxy.system ticking 5).run (.start fun _ => .zero)
        [.connectDone none, .runConnect, .waitDone .client, .runWait .client 0] = some s ∧
      (Echo.system ticking 5 false).run ((Echo.State.new false .zero).start ticking 5)
        [.elapse, .elapse, .elapse, .waitDone, .run 0] = some e ∧
      (∃ u t, .expired .client t ∈ s.log ∧ .started .client u ∈ s.log ∧ u + 5 ≤ t) ∧
      ∃ u t, .expired t ∈ e.log ∧ .started u ∈ e.log ∧ u + 5 ≤ t := by
  obtain ⟨s, hs, hslog⟩ : ∃ s, (Proxy.system ticking 5).run (.start fun _ => .zero)
      [.connectDone none, .runConnect, .waitDone .client, .runWait .client 0] = some s ∧
      s.log = [.started .client 0, .started .server 2, .expired .client 6] := ⟨_, rfl, rfl⟩
  obtain ⟨e, he, helog⟩ : ∃ e, (Echo.system ticking 5 false).run
      ((Echo.State.new false .zero).start ticking 5)
      [.elapse, .elapse, .elapse, .waitDone, .run 0] = some e ∧
      e.log = [.started 0, .expired 6] := ⟨_, rfl, rfl⟩
  have hproxy := (watchdogs_patient_and_awake ticking 5).1 s
    (System.Reach.run (.init ⟨_, rfl⟩) hs) .client
  have hecho := (watchdogs_patient_and_awake ticking 5).2 e
    (System.Reach.run (.init ⟨_, rfl⟩) he)
  refine ⟨s, e, hs, he, ⟨0, 6, ?_, ?_, hproxy.1 0 6 ?_⟩, 0, 6, ?_, ?_, hecho.1 0 6 ?_⟩
  · rw [hslog]
    decide
  · rw [hslog]
    decide
  · rw [hslog]
    exact .cons_cons _ (.cons _ (.cons_cons _ .slnil))
  · rw [helog]
    decide
  · rw [helog]
    decide
  · rw [helog]

end CcSnippets.Asio
