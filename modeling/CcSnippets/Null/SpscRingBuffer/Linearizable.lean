import CcSnippets.Core.Linearizability
import CcSnippets.Null.SpscRingBuffer.Observers

/-!
# CcSnippets.Null.SpscRingBuffer.Linearizable

In what sense the buffer is **linearizable** (`calls_linearizable`).

A `push` or `pop` that succeeds has its effect where it stores its own index. One that
returns `false` decided on the other side's index when it loaded it. Where that load
returns the value stored last, the buffer was full, or empty, then, and the buffer is a
bounded queue like any other. Under the orders that the code asks for the load may return
an older value: then it is a queue whose calls may fail for no reason (`spurious`), and no
more can be said (`stale_not_linearizable`), not even of calls that do not overlap.
-/

namespace CcSnippets.SpscRingBuffer

open CcSnippets.Core

variable {T : Type*}

/-- What may be called. -/
inductive Access (T : Type*)
  | push (item : T)
  | pop
  deriving DecidableEq, Repr

/-- What is returned: the `bool` of `push`, and that of `pop` with the element it has
assigned. -/
inductive Reply (T : Type*)
  | pushed (b : Bool)
  | popped (elem : Option T)
  deriving DecidableEq, Repr

/-- A queue of at most `capacity` elements; where `spurious`, a call may fail for no
reason. -/
inductive Does (capacity : ℕ) (spurious : Bool) (q : List T) :
    Access T → Reply T → List T → Prop
  | store {x : T} : q.length < capacity →
      Does capacity spurious q (.push x) (.pushed true) (q ++ [x])
  | full {x : T} : (spurious = false → capacity ≤ q.length) →
      Does capacity spurious q (.push x) (.pushed false) q
  | deliver {x : T} {xs : List T} : q = x :: xs →
      Does capacity spurious q .pop (.popped (some x)) xs
  | empty : (spurious = false → q = []) → Does capacity spurious q .pop (.popped none) q

/-- The queue as a sequential object. -/
def bounded (T : Type*) (capacity : ℕ) (spurious : Bool) :
    Object (List T) (Access T) (Reply T) (Reply T) where
  start := []
  Does := Does capacity spurious
  Shows := Eq

/-- The two threads. -/
inductive Side
  | producer
  | consumer
  deriving DecidableEq, Repr

/-- How many calls each side has completed. -/
def State.completed (s : State T) : Side → ℕ
  | .producer => s.pushReturned.length
  | .consumer => s.popReturned.length

/-- What is seen of a step from outside. -/
def seen (s : State T) (l : Label T) (s' : State T) :
    List (CallEvent (Side × ℕ) (Access T) (Reply T)) :=
  match l with
  | .push item => [.call (.producer, s.completed .producer) (.push item)]
  | .pushLoadTail _ =>
    match s'.producer with
    | .idle => [.ret (.producer, s.completed .producer) (.pushed false)]
    | _ => []
  | .pushStoreHead => [.ret (.producer, s.completed .producer) (.pushed true)]
  | .pop => [.call (.consumer, s.completed .consumer) .pop]
  | .popLoadHead _ =>
    match s'.consumer with
    | .idle => [.ret (.consumer, s.completed .consumer) (.popped none)]
    | _ => []
  | .popStoreTail =>
    match s.consumer with
    | .storing elem _ => [.ret (.consumer, s.completed .consumer) (.popped (some elem))]
    | _ => []
  | .pushLoadHead | .pushWrite | .popLoadTail | .popRead _ => []

/-- In a `push` until it returns. -/
def Producer.phase : Producer T → Phase (Access T) (Reply T)
  | .idle => .fresh
  | .loadingHead item | .loadingTail item _ | .writing item _ | .storing item _ =>
    .called (.push item)

/-- In a `pop` until it returns. -/
def Consumer.phase : Consumer T → Phase (Access T) (Reply T)
  | .idle => .fresh
  | .loadingTail | .loadingHead _ | .reading _ | .storing _ _ => .called .pop

def State.phases (s : State T) : Side → Phase (Access T) (Reply T)
  | .producer => s.producer.phase
  | .consumer => s.consumer.phase

/-- The elements pushed and not popped. -/
def State.contents (s : State T) : List T := s.pushed.drop s.popped.length

/-- The atomic object that a state is one of. -/
def State.atomic (s : State T) : Atomic (List T) (Side × ℕ) (Access T) (Reply T) :=
  Atomic.ofThreads s.contents s.completed s.phases

/-! ### What the two sides know -/

namespace Tracked

variable {capacity : ℕ} {s : State T}

theorem contents_length (h : Tracked capacity s) :
    s.contents.length + s.popped.length = s.pushed.length := by
  have hle := h.delivered.length_le
  rw [State.contents, List.length_drop]
  omega

/-- At its store of `head_` a `push` has room. -/
theorem contents_lt (h : Tracked capacity s) {item : T} {currHead : ℕ}
    (hpc : s.producer = .storing item currHead) : s.contents.length < capacity := by
  have hroom : s.pushed.length < s.seenTail + capacity := (h.producer_at hpc).2
  have hlen := h.contents_length
  have hseen := h.seenTail_le
  omega

/-- At its store of `tail_` a `pop` has the first element. -/
theorem contents_cons (h : Tracked capacity s) {elem : T} {currTail : ℕ}
    (hpc : s.consumer = .storing elem currTail) :
    s.contents = elem :: s.pushed.drop (s.popped.length + 1) := by
  obtain ⟨hlt, hget⟩ := List.getElem?_eq_some_iff.mp (h.consumer_at hpc).2.2
  rw [State.contents, List.drop_eq_getElem_cons hlt, hget]

/-- The index after `head_` is the `tail_` stored last: the buffer is full. -/
theorem contents_full (hcap : capacity + 1 < 2 ^ 64) (h : Tracked capacity s) {item : T}
    {currHead j : ℕ} (hpc : s.producer = .loadingTail item currHead)
    (hcurrent : j + 1 = s.tails.length) (hj : s.tails[j]? = some (nextIndex capacity currHead)) :
    capacity ≤ s.contents.length := by
  have hhead : currHead = s.pushed.length % (capacity + 1) := h.producer_at hpc
  have htail := (h.tail_at hj).2
  rw [h.tails, List.length_map, List.length_range] at hcurrent
  rw [hhead, nextIndex_mod hcap, ← Nat.add_mod_right j] at htail
  have hlen := h.contents_length
  have hroom := h.room
  have hseen := h.seenTail_le
  have heq := eq_of_mod_eq (j := s.pushed.length + 1) (k := j + (capacity + 1)) (by omega)
    (by omega) htail.symm
  omega

/-- `tail_` is the `head_` stored last: the buffer is empty. -/
theorem contents_empty (h : Tracked capacity s) {currTail before j : ℕ}
    (hpc : s.consumer = .loadingHead currTail) (hcurrent : j + 1 = s.heads.length)
    (hj : s.heads[j]? = some (currTail, before)) : s.contents = [] := by
  have htail : currTail = s.popped.length % (capacity + 1) := h.consumer_at hpc
  obtain ⟨-, hmod, -⟩ := h.head_at hj
  rw [h.heads, List.length_map, List.length_range] at hcurrent
  have hlen := h.contents_length
  have hroom := h.room
  have hseen := h.seenTail_le
  have heq := eq_of_mod_eq (j := s.popped.length) (k := j) (by omega) (by omega)
    (hmod.symm.trans htail)
  rw [← List.length_eq_zero_iff]
  omega

end Tracked

/-! ### Every step is matched -/

/-- A step of the producer changes only how far the producer is. -/
theorem phases_producer {s s' : State T} (h : s'.consumer = s.consumer) :
    s'.phases = Function.update s.phases .producer s'.producer.phase := by
  funext side
  cases side
  · rfl
  · simp [State.phases, h]

theorem phases_consumer {s s' : State T} (h : s'.producer = s.producer) :
    s'.phases = Function.update s.phases .consumer s'.consumer.phase := by
  funext side
  cases side
  · simp [State.phases, h]
  · rfl

/-- A call of the producer is completed. -/
theorem completed_producer {s s' : State T} {b : Bool} (h : s'.popReturned = s.popReturned)
    (hpush : s'.pushReturned = s.pushReturned ++ [b]) :
    s'.completed = Function.update s.completed .producer (s.completed .producer + 1) := by
  funext side
  cases side
  · simp [State.completed, hpush]
  · simp [State.completed, h]

theorem completed_consumer {s s' : State T} {b : Bool} (h : s'.pushReturned = s.pushReturned)
    (hpop : s'.popReturned = s.popReturned ++ [b]) :
    s'.completed = Function.update s.completed .consumer (s.completed .consumer + 1) := by
  funext side
  cases side
  · simp [State.completed, h]
  · simp [State.completed, hpop]

variable {capacity : ℕ} {spurious : Bool} {s s' : State T}

/-- A step within a call, which nobody sees. -/
theorem exec_within (hpushed : s'.pushed = s.pushed) (hpopped : s'.popped = s.popped)
    (hpush : s'.pushReturned = s.pushReturned) (hpop : s'.popReturned = s.popReturned)
    (hproducer : s'.producer.phase = s.producer.phase)
    (hconsumer : s'.consumer.phase = s.consumer.phase) :
    Atomic.Exec (bounded T capacity spurious) s.atomic [] s'.atomic := by
  have hcompleted : s'.completed = s.completed := by
    funext t
    cases t <;> simp [State.completed, hpush, hpop]
  have hphases : s'.phases = s.phases := by
    funext t
    cases t <;> simp [State.phases, hproducer, hconsumer]
  rw [State.atomic, State.atomic, State.contents, State.contents, hpushed, hpopped, hcompleted,
    hphases]
  exact .refl

/-- A call is made. -/
theorem exec_calls {t : Side} {op : Access T} (hphase : s.phases t = .fresh)
    (hphases : s'.phases = Function.update s.phases t (.called op))
    (hcontents : s'.contents = s.contents) (hcompleted : s'.completed = s.completed) :
    Atomic.Exec (bounded T capacity spurious) s.atomic [.call (t, s.completed t) op]
      s'.atomic := by
  rw [State.atomic, State.atomic, hphases, hcontents, hcompleted]
  exact Atomic.exec_call hphase op

/-- A call has its effect and returns. -/
theorem exec_returns {t : Side} {op : Access T} {r : Reply T} (hphase : s.phases t = .called op)
    (hphases : s'.phases = Function.update s.phases t .fresh)
    (hcompleted : s'.completed = Function.update s.completed t (s.completed t + 1))
    (hdoes : Does capacity spurious s.contents op r s'.contents) :
    Atomic.Exec (bounded T capacity spurious) s.atomic [.ret (t, s.completed t) r]
      s'.atomic := by
  rw [State.atomic, State.atomic, hphases, hcompleted]
  exact Atomic.exec_perform_ret hphase hdoes rfl

/-- A step of the buffer is a step of the queue, or none that anybody sees. -/
theorem exec_step [Inhabited T] (hcap : capacity + 1 < 2 ^ 64) {l : Label T}
    (h : Tracked capacity s) (hcurrent : spurious = false → l.Current s)
    (hs : Step capacity s l s') :
    Atomic.Exec (bounded T capacity spurious) s.atomic (seen s l s') s'.atomic := by
  cases hs with
  | push hpc =>
    have hphase : s.phases .producer = .fresh := by rw [State.phases, hpc]; rfl
    exact exec_calls hphase (phases_producer rfl) rfl rfl
  | pushLoadHead hpc _ => exact exec_within rfl rfl rfl rfl (by rw [hpc]; rfl) rfl
  | @pushFull item currHead j hpc _ hj =>
    have hphase : s.phases .producer = .called (.push item) := by rw [State.phases, hpc]; rfl
    exact exec_returns hphase (phases_producer rfl) (completed_producer rfl rfl)
      (.full fun hs => h.contents_full hcap hpc (hcurrent hs) hj)
  | pushRoom hpc _ _ _ => exact exec_within rfl rfl rfl rfl (by rw [hpc]; rfl) rfl
  | pushWrite hpc => exact exec_within rfl rfl rfl rfl (by rw [hpc]; rfl) rfl
  | @pushStoreHead item currHead hpc =>
    have hphase : s.phases .producer = .called (.push item) := by rw [State.phases, hpc]; rfl
    refine exec_returns hphase (phases_producer rfl) (completed_producer rfl rfl) ?_
    show Does capacity spurious s.contents _ _ ((s.pushed ++ [item]).drop s.popped.length)
    rw [List.drop_append_of_le_length h.delivered.length_le]
    exact .store (h.contents_lt hpc)
  | pop hpc =>
    have hphase : s.phases .consumer = .fresh := by rw [State.phases, hpc]; rfl
    exact exec_calls hphase (phases_consumer rfl) rfl rfl
  | popLoadTail hpc _ => exact exec_within rfl rfl rfl rfl rfl (by rw [hpc]; rfl)
  | popEmpty hpc _ hj =>
    have hphase : s.phases .consumer = .called .pop := by rw [State.phases, hpc]; rfl
    exact exec_returns hphase (phases_consumer rfl) (completed_consumer rfl rfl)
      (.empty fun hs => h.contents_empty hpc (hcurrent hs) hj)
  | popSome hpc _ _ _ => exact exec_within rfl rfl rfl rfl rfl (by rw [hpc]; rfl)
  | popRead hpc _ _ => exact exec_within rfl rfl rfl rfl rfl (by rw [hpc]; rfl)
  | @popStoreTail elem currTail hpc =>
    have hphase : s.phases .consumer = .called .pop := by rw [State.phases, hpc]; rfl
    rw [seen, hpc]
    refine exec_returns hphase (phases_consumer rfl) (completed_consumer rfl rfl) ?_
    show Does capacity spurious s.contents _ _ (s.pushed.drop (s.popped ++ [elem]).length)
    rw [List.length_append, List.length_singleton]
    exact .deliver (h.contents_cons hpc)

/-- **The buffer is linearizable**: with loads of the latest index as a bounded queue, and
with any of the loads that its memory orders admit as one whose calls may fail for no
reason. -/
theorem calls_linearizable [Inhabited T] (hcap : capacity + 1 < 2 ^ 64)
    (stale : Bool) {ls : List (Label T)}
    (hrun : (system T capacity).run .start ls = some s)
    (hcurrent : (system T capacity).EveryStep (fun s l => stale = false → l.Current s)
      .start ls) :
    (bounded T capacity stale).Linearizable ((system T capacity).trace seen .start ls) := by
  have hstart : (State.start : State T).atomic = Atomic.start (bounded T capacity stale) := by
    have hcompleted : (State.start : State T).completed = fun _ => 0 := by
      funext side
      cases side <;> rfl
    have hphases : (State.start : State T).phases = fun _ => .fresh := by
      funext side
      cases side <;> rfl
    rw [State.atomic, hcompleted, hphases]
    exact Atomic.ofThreads_start (bounded T capacity stale)
  refine Atomic.linearizable_of_everyStep (I := Tracked capacity) (fun s l s' h hok hs => ?_)
    (tracked_start capacity) hstart hcurrent hrun
  have hstep : Step capacity s l s' := next_step hs
  exact ⟨tracked_step hcap h hstep, exec_step hcap h hok hstep⟩

/-- A push and a pop that do not overlap, on a buffer of one slot. -/
theorem calls_linearizable_inTurn :
    (bounded ℕ 1 false).Linearizable
      [.call (Side.producer, 0) (.push 7), .ret (Side.producer, 0) (.pushed true),
        .call (Side.consumer, 0) .pop, .ret (Side.consumer, 0) (.popped (some 7))] := by
  have hrun : ((system ℕ 1).run .start
      [.push 7, .pushLoadHead, .pushLoadTail 0, .pushWrite, .pushStoreHead,
        .pop, .popLoadTail, .popLoadHead 1, .popRead 1, .popStoreTail]).isSome = true := rfl
  exact calls_linearizable (by decide) false (Option.some_get hrun).symm (by decide)

/-- **A stale load shows.** After a `push` and a `pop` that took its element out of a buffer
of one slot, a `push` may still find the buffer full, and no bounded queue does that. -/
theorem stale_not_linearizable :
    ∃ ls, ((system ℕ 1).run .start ls).isSome = true ∧
      ¬ (bounded ℕ 1 false).Linearizable ((system ℕ 1).trace seen .start ls) := by
  refine ⟨[.push 7, .pushLoadHead, .pushLoadTail 0, .pushWrite, .pushStoreHead,
    .pop, .popLoadTail, .popLoadHead 1, .popRead 1, .popStoreTail,
    .push 8, .pushLoadHead, .pushLoadTail 0], rfl, ?_⟩
  intro h
  have hinTurn : (bounded ℕ 1 false).Linearizable (Object.inTurn
      [⟨(Side.producer, 0), .push 7, .pushed true⟩, ⟨(Side.consumer, 0), .pop, .popped (some 7)⟩,
        ⟨(Side.producer, 1), .push 8, .pushed false⟩]) := h
  obtain ⟨s, hlegal⟩ := hinTurn.legal_of_inTurn (fun _ _ hshows => hshows) (by decide)
  obtain ⟨q₁, hpush, q₂, hpop, q₃, hfull, -⟩ := hlegal
  cases hpush with
  | store _ =>
    cases hpop with
    | deliver hq =>
      obtain rfl := (List.cons.inj hq).2
      cases hfull with
      | full hlen => exact absurd (hlen rfl) (by decide)

end CcSnippets.SpscRingBuffer
