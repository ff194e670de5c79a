import CcSnippets.Asio.Proxy.Relay

/-!
# CcSnippets.Asio.Proxy.Close

What is lost when a peer ends its stream.

The proxy has no half-closed connections: the handler of the end of file runs `stop`,
and **both sockets are closed at once**, whatever the other direction is doing. The
peer that ended first loses nothing, since its last write has completed before the
receive that found the end (`Lane.Ok`); of the other one's bytes, those of the chunk
being relayed may be lost. Apart from errors and watchdogs, this is the only way a
session closes its sockets.
-/

namespace CcSnippets.Asio.Proxy

open CcSnippets.Core

variable {clock : Clock ℤ} {timeout : ℤ} {s s' : State}

/-- Neither an error other than an end of file nor a watchdog. -/
def Event.Orderly : Event → Prop
  | .started _ _ => True
  | .receiveFailed _ error => error = .eof
  | .writeFailed _ _ | .expired _ _ => False

instance : ∀ e : Event, Decidable e.Orderly
  | .started _ _ => inferInstanceAs (Decidable True)
  | .receiveFailed _ _ => inferInstanceAs (Decidable (_ = _))
  | .writeFailed _ _ | .expired _ _ => inferInstanceAs (Decidable False)

/-- The peer of `d` has ended its stream, and all its bytes are through. -/
def State.Ended (s : State) (d : Side) : Prop :=
  .receiveFailed d .eof ∈ s.log ∧ s.received d = s.written d.other

/-- The sockets are closed by `stop`; in an orderly run, only once a peer has ended its
stream. -/
structure Closes (s : State) : Prop where
  isOpen : ∀ x, s.isOpen x = !s.stopped
  pending : (∀ e ∈ s.log, e.Orderly) → s.stopped = false → ∀ d, ∀ c ∈ s.completed d,
    c.error ≠ none → c = .receive (some .eof) 0 ∧ .receiveFailed d .eof ∈ s.log
  ended : (∀ e ∈ s.log, e.Orderly) → s.stopped = true → ∃ d, s.Ended d

theorem closes_start (buffer : Side → Buffer) : Closes (.start buffer) where
  isOpen _ := rfl
  pending _ _ d c hc := by cases hc
  ended _ hstopped := by cases hstopped

namespace Closes

/-- A step without `stop`, that moves bytes on open sockets only. -/
theorem of_step (h : Closes s) (hopen : s'.isOpen = s.isOpen) (hstopped : s'.stopped = s.stopped)
    (hlog : s.log ⊆ s'.log)
    (hcompleted : (∀ e ∈ s'.log, e.Orderly) → s.stopped = false → ∀ d, ∀ c ∈ s'.completed d,
      c.error ≠ none → c ∈ s.completed d ∨
        c = .receive (some .eof) 0 ∧ .receiveFailed d .eof ∈ s'.log)
    (hmoved : s.stopped = true → s'.received = s.received ∧ s'.written = s.written) :
    Closes s' where
  isOpen x := by
    rw [hopen, hstopped]
    exact h.isOpen x
  pending horderly hnot d c hc herror := by
    rw [hstopped] at hnot
    rcases hcompleted horderly hnot d c hc herror with hold | hnew
    · obtain ⟨heof, hmem⟩ := h.pending (fun e he => horderly e (hlog he)) hnot d c hold herror
      exact ⟨heof, hlog hmem⟩
    · exact hnew
  ended horderly hnow := by
    rw [hstopped] at hnow
    obtain ⟨d, hmem, hall⟩ := h.ended (fun e he => horderly e (hlog he)) hnow
    obtain ⟨hreceived, hwritten⟩ := hmoved hnow
    exact ⟨d, hlog hmem, by rw [hreceived, hwritten, hall]⟩

/-- A step that moves nothing and completes nothing. -/
theorem of_quiet (h : Closes s) (hopen : s'.isOpen = s.isOpen) (hstopped : s'.stopped = s.stopped)
    (hlog : s.log ⊆ s'.log) (hcompleted : ∀ d, s'.completed d ⊆ s.completed d)
    (hreceived : s'.received = s.received) (hwritten : s'.written = s.written) : Closes s' :=
  h.of_step hopen hstopped hlog (fun _ _ d _ hc _ => .inl (hcompleted d hc))
    fun _ => ⟨hreceived, hwritten⟩

/-- `stop` runs, once a peer has ended its stream if the run is orderly. -/
theorem stop (h : Closes s)
    (hended : (∀ e ∈ s.log, e.Orderly) → s.stopped = false → ∃ d, s.Ended d) : Closes s.stop where
  isOpen _ := rfl
  pending _ hnot := by cases hnot
  ended horderly _ := by
    cases hstopped : s.stopped with
    | true => exact h.ended horderly hstopped
    | false => exact hended horderly hstopped

theorem receive (h : Closes s) (d socket buffer : Side) :
    Closes (s.receive clock timeout d socket buffer) :=
  h.of_quiet rfl rfl (List.subset_append_left _ _) (fun _ => List.Subset.refl _) rfl rfl

theorem send (h : Closes s) (d socket buffer : Side) (n : ℕ) :
    Closes (s.send clock timeout d socket buffer n) :=
  h.of_quiet rfl rfl (List.subset_append_left _ _) (fun _ => List.Subset.refl _) rfl rfl

/-- A watchdog that ends the session leaves a run that is not orderly. -/
theorem startWatchdog (h : Closes s) (d : Side) : Closes (s.startWatchdog clock d) := by
  simp only [State.startWatchdog]
  split
  · refine Closes.stop (h.of_quiet rfl rfl (List.subset_append_left _ _)
      (fun _ => List.Subset.refl _) rfl rfl) fun horderly => ?_
    exact absurd (horderly _ (List.mem_append_right _ (List.mem_singleton_self _))) id
  · exact h.of_quiet rfl rfl (List.Subset.refl _) (fun _ => List.Subset.refl _) rfl rfl

/-- A completion without an error joins the queue. -/
theorem complete (h : Closes s) (hopen : s'.isOpen = s.isOpen) (hstopped : s'.stopped = s.stopped)
    (hlog : s.log ⊆ s'.log) {d : Side} {c : Completion}
    (hcompleted : s'.completed = Function.update s.completed d (s.completed d ++ [c]))
    (hc : (∀ e ∈ s'.log, e.Orderly) → s.stopped = false → c.error ≠ none →
      c = .receive (some .eof) 0 ∧ .receiveFailed d .eof ∈ s'.log)
    (hmoved : s.stopped = true → s'.received = s.received ∧ s'.written = s.written) :
    Closes s' := by
  refine h.of_step hopen hstopped hlog (fun horderly hnot e c' hc' herror => ?_) hmoved
  rw [hcompleted] at hc'
  by_cases hed : e = d
  · subst hed
    rw [Function.update_self] at hc'
    rcases List.mem_append.mp hc' with hold | hnew
    · exact .inl hold
    · obtain rfl := List.mem_singleton.mp hnew
      exact .inr (hc horderly hnot herror)
  · rw [Function.update_of_ne hed] at hc'
    exact .inl hc'

/-- A handler runs. An end of file ends the session, with all bytes of that peer
through. -/
theorem handle (h : Closes s) (hr : Relays s) {d : Side} {i : ℕ} {c : Completion}
    (hc : (s.completed d)[i]? = some c) :
    Closes ((s.dequeue d i).handle clock timeout d c) := by
  obtain ⟨hnone, -, hfits⟩ := (hr.lanes d).of_completed hc
  have hdequeued : Closes (s.dequeue d i) := by
    refine h.of_quiet rfl rfl (List.Subset.refl _) (fun e => ?_) rfl rfl
    by_cases hed : e = d
    · subst hed
      simp only [State.dequeue, Function.update_self]
      exact List.eraseIdx_subset
    · simp only [State.dequeue, Function.update_of_ne hed]
      exact List.Subset.refl _
  rcases handle_cases (s.dequeue d i) d c with ⟨hne, heq⟩ | ⟨n, rfl, heq⟩ | ⟨n, rfl, heq⟩
  · rw [heq]
    refine hdequeued.stop fun horderly hnot => ⟨d, ?_⟩
    obtain ⟨rfl, hmem⟩ := h.pending horderly hnot d c (List.mem_of_getElem? hc) hne
    exact ⟨hmem, hfits⟩
  · rw [heq]
    exact hdequeued.send _ _ _ _
  · rw [heq]
    exact hdequeued.receive _ _ _

theorem handleConnect (h : Closes s) (error : Option Error) :
    Closes ({ s with connect := .handled }.handleConnect clock timeout error) := by
  have hhandled : Closes { s with connect := .handled } :=
    h.of_quiet rfl rfl (List.Subset.refl _) (fun _ => List.Subset.refl _) rfl rfl
  cases error with
  | some e => exact hhandled
  | none =>
    exact (((hhandled.receive _ _ _).receive _ _ _).startWatchdog _).startWatchdog _

/-- An open socket belongs to a session that has not stopped. -/
theorem not_stopped (h : Closes s) {x : Side} (hopen : s.isOpen x = true) : s.stopped = false := by
  rw [h.isOpen x] at hopen
  simpa using hopen

end Closes

theorem log_subset_fails (s : State) (socket : Side) (e : Event) :
    s.log ⊆ (s.fails socket e).log := by
  unfold State.fails
  split
  · exact List.subset_append_left _ _
  · exact List.Subset.refl _

/-- A failure on an open socket is in the log. -/
theorem mem_log_fails {socket : Side} (hopen : s.isOpen socket = true) (e : Event) :
    e ∈ (s.fails socket e).log := by
  rw [State.fails, if_pos hopen]
  exact List.mem_append_right _ (List.mem_singleton_self e)

/-- **Every step keeps the sockets open, or closes them orderly.** -/
theorem closes_next {l : Label} (h : Closes s) (hr : Relays s)
    (hs : s.next clock timeout l = some s') : Closes s' := by
  cases next_step hs with
  | elapse | connectDone _ | waitDone _ =>
    exact h.of_quiet rfl rfl (List.Subset.refl _) (fun _ => List.Subset.refl _) rfl rfl
  | @receiveDone d socket buffer i chunk hop hopen =>
    refine h.complete rfl rfl (List.Subset.refl _) (d := d) rfl
      (fun _ _ herror => absurd rfl herror) fun hstopped => ?_
    rw [h.not_stopped hopen] at hstopped
    cases hstopped
  | @receiveFails d socket buffer i error hop =>
    obtain ⟨-, -, -, rfl, -, -⟩ := (hr.lanes d).of_outstanding hop
    have hlog := log_subset_fails (s.complete socket i (.receive (some error) 0)) socket
      (.receiveFailed socket error)
    rw [fails_eq]
    refine h.complete rfl rfl hlog (d := socket)
      (c := .receive (some error) 0) rfl (fun horderly hnot _ => ?_) fun _ => ⟨rfl, rfl⟩
    have hopen : s.isOpen socket = true := by rw [h.isOpen, hnot, Bool.not_false]
    have hmem := mem_log_fails (s := s.complete socket i (.receive (some error) 0))
      hopen (.receiveFailed socket error)
    obtain rfl : error = .eof := horderly _ hmem
    exact ⟨rfl, hmem⟩
  | writeSome _ hopen _ _ =>
    refine h.of_step rfl rfl (List.Subset.refl _) (fun _ _ _ _ hc _ => .inl hc)
      fun hstopped => ?_
    rw [h.not_stopped hopen] at hstopped
    cases hstopped
  | @writeDone d socket buffer i n hop =>
    exact h.complete rfl rfl (List.Subset.refl _) (d := d) rfl
      (fun _ _ herror => absurd rfl herror) fun _ => ⟨rfl, rfl⟩
  | @writeFails d socket buffer i n m error hop =>
    have hlog := log_subset_fails (s.complete d i (.write (some error) m)) socket
      (.writeFailed d error)
    rw [fails_eq]
    refine h.complete rfl rfl hlog (d := d)
      (c := .write (some error) m) rfl (fun horderly hnot _ => ?_) fun _ => ⟨rfl, rfl⟩
    have hopen : s.isOpen socket = true := by rw [h.isOpen, hnot, Bool.not_false]
    have hmem := mem_log_fails (s := s.complete d i (.write (some error) m))
      hopen (.writeFailed d error)
    exact absurd (horderly _ hmem) id
  | runConnect _ => exact h.handleConnect _
  | runIo hc => exact h.handle hr hc
  | @runWait d i error _ =>
    have hdequeued : Closes (s.dequeueWait d i) :=
      h.of_quiet rfl rfl (List.Subset.refl _) (fun _ => List.Subset.refl _) rfl rfl
    cases error with
    | some e => exact hdequeued
    | none => exact hdequeued.startWatchdog d

theorem closes_of_reach (h : (system clock timeout).Reachable s) : Closes s := by
  refine h.invariant (I := Closes) (fun s h0 => ?_) fun _ _ _ hreach hc _ hs =>
    closes_next hc (relays_of_reach hreach) hs
  obtain ⟨buffer, rfl⟩ := h0
  exact closes_start buffer

/-- **Both sockets are closed at the first end of a stream.** The handler of an end of
file closes both sockets, with all bytes of that peer through, and all bytes of the
other but at most a buffer. Without another error and without a watchdog expiring,
sockets are closed only once a peer has ended its stream and all its bytes are
through. -/
theorem closes_at_first_end (h : (system clock timeout).Reachable s) :
    (∀ d i n s', (s.completed d)[i]? = some (.receive (some .eof) n) →
      s.next clock timeout (.runIo d i) = some s' → (∀ x, s'.isOpen x = false) ∧
        s'.received d = s'.written d.other ∧ (s'.lane d.other).Lags) ∧
    ((∀ e ∈ s.log, e.Orderly) → ∀ x, s.isOpen x = false → (∀ y, s.isOpen y = false) ∧
      ∃ d, s.Ended d ∧ (s.lane d.other).Lags) := by
  have hrelays := relays_of_reach h
  have hcloses := closes_of_reach h
  constructor
  · intro d i n s' hc hs
    obtain ⟨-, -, hfits⟩ := (hrelays.lanes d).of_completed hc
    simp only [State.next, hc] at hs
    obtain rfl := Option.some.inj hs
    exact ⟨fun _ => rfl, hfits, (hrelays.lanes d.other).lags⟩
  · intro horderly x hclosed
    have hstopped : s.stopped = true := by
      rw [hcloses.isOpen] at hclosed
      simpa using hclosed
    obtain ⟨d, hended⟩ := hcloses.ended horderly hstopped
    refine ⟨fun y => ?_, d, hended, (hrelays.lanes d.other).lags⟩
    rw [hcloses.isOpen, hstopped, Bool.not_true]

/-- The byte of the client is through when its stream ends. -/
theorem closes_at_first_end_relayed :
    ∃ s, (system ticking 5).run (.start fun _ => .zero)
        [.connectDone none, .runConnect,
          .receiveDone .client 0 ⟨[7], by decide, by decide⟩, .runIo .client 0,
          .writeSome .client 0 1, .writeDone .client 0, .runIo .client 0,
          .receiveFails .client 0 .eof, .runIo .client 0] = some s ∧
      s.isOpen .server = false ∧ ∃ d, s.Ended d := by
  obtain ⟨s, hrun, hclosed, hlog⟩ : ∃ s, (system ticking 5).run (.start fun _ => .zero)
      [.connectDone none, .runConnect,
        .receiveDone .client 0 ⟨[7], by decide, by decide⟩, .runIo .client 0,
        .writeSome .client 0 1, .writeDone .client 0, .runIo .client 0,
        .receiveFails .client 0 .eof, .runIo .client 0] = some s ∧
      s.isOpen .server = false ∧
      s.log = [.started .client 0, .started .server 2, .started .client 6, .started .client 8,
        .receiveFailed .client .eof] := ⟨_, rfl, rfl, rfl⟩
  have horderly : ∀ e ∈ s.log, e.Orderly := by
    rw [hlog]
    decide
  obtain ⟨-, d, hended, -⟩ := (closes_at_first_end (System.Reach.run (.init ⟨_, rfl⟩) hrun)).2
    horderly .server hclosed
  exact ⟨s, hrun, hclosed, d, hended⟩

/-- **A byte of the other peer is lost.** The client ends its stream while a byte of the
server is being written to it: in a run without an error or a watchdog, the sockets are
closed before that byte is through and before the server has ended its stream. -/
theorem end_loses_other_direction :
    ∃ s, (system ticking 5).run (.start fun _ => .zero)
        [.connectDone none, .runConnect,
          .receiveDone .server 0 ⟨[7], by decide, by decide⟩, .runIo .server 0,
          .receiveFails .client 0 .eof, .runIo .client 0] = some s ∧
      (∀ e ∈ s.log, e.Orderly) ∧ (∀ x, s.isOpen x = false) ∧
      s.received .server = [7] ∧ s.written .client = [] ∧
      .receiveFailed .server .eof ∉ s.log := by
  obtain ⟨s, hrun, hclosed, hreceived, hwritten, hlog⟩ :
      ∃ s, (system ticking 5).run (.start fun _ => .zero)
        [.connectDone none, .runConnect,
          .receiveDone .server 0 ⟨[7], by decide, by decide⟩, .runIo .server 0,
          .receiveFails .client 0 .eof, .runIo .client 0] = some s ∧
      (∀ x, s.isOpen x = false) ∧ s.received .server = [7] ∧ s.written .client = [] ∧
      s.log = [.started .client 0, .started .server 2, .started .server 6,
        .receiveFailed .client .eof] := ⟨_, rfl, fun _ => rfl, rfl, rfl, rfl⟩
  refine ⟨s, hrun, ?_, hclosed, hreceived, hwritten, ?_⟩
  · rw [hlog]
    decide
  · rw [hlog]
    decide

end CcSnippets.Asio.Proxy
