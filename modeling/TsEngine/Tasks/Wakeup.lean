import TsEngine.Tasks.ThreadPool

/-!
# The event of the thread pool

The workers of a pool share one flag and one condition variable.  A push is two steps here, the
enqueue and `ts_tpevent_signal`, and `ts_tpevent_wait` has its two sides: a worker that holds the
mutex takes the flag or goes to sleep, and a sleeping worker is woken by a signal, by a broadcast,
or by nothing.  Dequeues take effect with their critical section, and one that finds the queue
empty sends its worker back.

The flag is no counter: pushes that come together leave one signal, and any worker may take it.
`no_lost_wakeup` says that this is enough.  Whoever takes the flag drains the queue, so a task is
left behind only if it came later, and then its push has yet to set the flag again.
-/

namespace TsEngine

open Framework

/-- Where a worker is in `ts_threadpool_loop`, with the two sides of `pthread_cond_wait`. -/
inductive WaiterPos
  | looping
  /-- In `ts_tpevent_wait`, in front of `while (!ev->signal)`. -/
  | awake
  /-- In `pthread_cond_wait`. -/
  | asleep
  | checking
  | draining
  /-- In the handler of a task. -/
  | running
  | done
  deriving DecidableEq

/-- The worker has left `ts_tpevent_wait` and not come back from its loop around the dequeue. -/
def WaiterPos.InDrain : WaiterPos → Prop
  | .checking | .draining | .running => True
  | _ => False

/-- The pool with the event taken apart. -/
structure EventPool (α : Type) where
  queue : Queue α
  signal : Bool
  exit : Bool
  worker : ThreadId → WaiterPos
  /-- The callers between the enqueue and the signal of a push. -/
  pushing : ThreadId → Bool

/-- The steps of the callers, the workers and `ts_threadpool_destroy`. -/
inductive EventStep (α : Type)
  | enqueue (p : ThreadId) (el : ElemPtr) (task : α)
  /-- `ts_tpevent_signal`, and the worker that `pthread_cond_signal` wakes, if one sleeps. -/
  | signal (p : ThreadId) (woken : Option ThreadId)
  | loop (w : ThreadId)
  /-- `while (!ev->signal)`, and what follows on either side. -/
  | test (w : ThreadId)
  /-- A wake-up that no signal causes. -/
  | spurious (w : ThreadId)
  | check (w : ThreadId)
  | dequeue (w : ThreadId)
  | finish (w : ThreadId)
  | exit
  /-- `ts_tpevent_broadcast`. -/
  | broadcast

namespace EventPool

variable {α : Type}

def init (threadNum : ℕ) : EventPool α where
  queue := .init (threadNum * 2 % 2 ^ 32)
  signal := false
  exit := false
  worker _ := .looping
  pushing _ := false

def setWorker (s : EventPool α) (w : ThreadId) (pos : WaiterPos) : EventPool α :=
  { s with worker := Function.update s.worker w pos }

/-- The effect of a step. -/
def exec : EventStep α → EventPool α → Except Queue.Error (EventPool α)
  | .enqueue p el task, s => do
      let (queue, _) ← s.queue.enqueue el task false
      return { s with queue, pushing := Function.update s.pushing p true }
  | .signal p woken, s =>
      let s := { s with signal := true, pushing := Function.update s.pushing p false }
      match woken with
      | some w => .ok (s.setWorker w .awake)
      | none => .ok s
  | .loop w, s => .ok (s.setWorker w (if s.exit then .done else .awake))
  | .test w, s =>
      if s.signal then .ok ({ s with signal := false }.setWorker w .checking)
      else .ok (s.setWorker w .asleep)
  | .spurious w, s => .ok (s.setWorker w .awake)
  | .check w, s => .ok (s.setWorker w (if s.exit then .done else .draining))
  | .dequeue w, s => do
      match ← s.queue.dequeue with
      | (queue, some _) => return { s with queue }.setWorker w .running
      | (queue, none) => return { s with queue }.setWorker w .looping
  | .finish w, s => .ok (s.setWorker w .draining)
  | .exit, s => .ok { s with exit := true }
  | .broadcast, s => .ok { s with
      signal := true
      worker := fun w => if s.worker w = .asleep then .awake else s.worker w }

/-- When a step of a pool of `n` workers may be taken.  A signal wakes somebody if anybody
sleeps. -/
def Enabled (n : ℕ) (s : EventPool α) : EventStep α → Prop
  | .enqueue p el _ => s.pushing p = false ∧ (s.queue.elements el).isNone = true
  | .signal p none => s.pushing p = true ∧ ∀ w < n, s.worker w ≠ .asleep
  | .signal p (some w) => s.pushing p = true ∧ w < n ∧ s.worker w = .asleep
  | .loop w => w < n ∧ s.worker w = .looping
  | .test w => w < n ∧ s.worker w = .awake
  | .spurious w => w < n ∧ s.worker w = .asleep
  | .check w => w < n ∧ s.worker w = .checking
  | .dequeue w => w < n ∧ s.worker w = .draining
  | .finish w => w < n ∧ s.worker w = .running
  | .exit => True
  | .broadcast => s.exit = true

instance (n : ℕ) (s : EventPool α) (a : EventStep α) : Decidable (s.Enabled n a) :=
  match a with
  | .enqueue p el _ =>
      inferInstanceAs (Decidable (s.pushing p = false ∧ (s.queue.elements el).isNone = true))
  | .signal p none =>
      inferInstanceAs (Decidable (s.pushing p = true ∧ ∀ w < n, s.worker w ≠ .asleep))
  | .signal p (some w) =>
      inferInstanceAs (Decidable (s.pushing p = true ∧ w < n ∧ s.worker w = .asleep))
  | .loop w => inferInstanceAs (Decidable (w < n ∧ s.worker w = .looping))
  | .test w => inferInstanceAs (Decidable (w < n ∧ s.worker w = .awake))
  | .spurious w => inferInstanceAs (Decidable (w < n ∧ s.worker w = .asleep))
  | .check w => inferInstanceAs (Decidable (w < n ∧ s.worker w = .checking))
  | .dequeue w => inferInstanceAs (Decidable (w < n ∧ s.worker w = .draining))
  | .finish w => inferInstanceAs (Decidable (w < n ∧ s.worker w = .running))
  | .exit => inferInstanceAs (Decidable True)
  | .broadcast => inferInstanceAs (Decidable (s.exit = true))

end EventPool

/-- The pool of `n` workers and any number of callers. -/
def eventSystem (α : Type) (n : ℕ) : System (EventPool α) (EventStep α) Queue.Error where
  init := .init n
  enabled _ s a := s.Enabled n a
  exec := EventPool.exec

instance (α : Type) (n : ℕ) (l : List (EventPool α × EventStep α)) (s : EventPool α)
    (a : EventStep α) : Decidable ((eventSystem α n).enabled l s a) :=
  inferInstanceAs (Decidable (s.Enabled n a))

namespace EventPool

variable {α : Type} {n : ℕ} {s s' : EventPool α} {w : ThreadId} {pos : WaiterPos}

/-! ## Who looks after the queue -/

/-- The flag is set, or a worker drains the queue, or a push has yet to set the flag. -/
def Attended (n : ℕ) (s : EventPool α) : Prop :=
  s.signal = true ∨ (∃ w < n, (s.worker w).InDrain) ∨ ∃ p, s.pushing p = true

/-- Somebody is there to take the flag. -/
def SomeAwake (n : ℕ) (s : EventPool α) : Prop := ∃ w < n, s.worker w ≠ .asleep

/-- The invariant, as long as `exit` is not set. -/
structure Inv (n : ℕ) (s : EventPool α) : Prop where
  attended : 0 < s.queue.size → s.Attended n
  awake : s.signal = true → s.SomeAwake n

/-- The queue's own invariant: it holds what it says, and no more than it may. -/
def QueueOk (s : EventPool α) (n : ℕ) : Prop :=
  s.queue.maxSize = n * 2 % 2 ^ 32 ∧ ∃ xs, s.queue.Represents xs ∧
    (0 < s.queue.maxSize → xs.length ≤ s.queue.maxSize)

/-- A worker that was not draining moves: those that drain still do. -/
lemma Attended.setWorker (h : s.Attended n) (hw : ¬(s.worker w).InDrain) :
    (s.setWorker w pos).Attended n := by
  refine h.imp_right fun h => h.imp_left fun ⟨w', hn, hdrain⟩ => ⟨w', hn, ?_⟩
  have hne : w' ≠ w := by
    rintro rfl
    exact hw hdrain
  simpa [EventPool.setWorker, Function.update_of_ne hne] using hdrain

/-- A worker that drains now is enough. -/
lemma attended_setWorker (hn : w < n) (hpos : pos.InDrain) : (s.setWorker w pos).Attended n :=
  .inr (.inl ⟨w, hn, by simpa [EventPool.setWorker] using hpos⟩)

lemma someAwake_setWorker (hn : w < n) (hpos : pos ≠ .asleep) : (s.setWorker w pos).SomeAwake n :=
  ⟨w, hn, by simpa [EventPool.setWorker] using hpos⟩

/-- A worker that moves without sleeping keeps the invariant, if it was not draining, or is. -/
lemma Inv.setWorker (h : s.Inv n) (hn : w < n) (hpos : pos ≠ .asleep)
    (hdrain : (s.worker w).InDrain → pos.InDrain) : (s.setWorker w pos).Inv n := by
  refine ⟨fun hsize => ?_, fun _ => someAwake_setWorker hn hpos⟩
  by_cases hw : (s.worker w).InDrain
  · exact attended_setWorker hn (hdrain hw)
  · exact (h.attended hsize).setWorker hw

/-! ## The queue -/

lemma queueOk_init (n : ℕ) : (init n : EventPool α).QueueOk n :=
  ⟨rfl, [], Queue.represents_init _, fun _ => Nat.zero_le _⟩

/-- An enqueue that is not forced keeps to the bound. -/
lemma QueueOk.enqueue (h : s.QueueOk n) {el : ElemPtr} (hel : s.queue.elements el = none)
    (task : α) : ∃ queue b, s.queue.enqueue el task false = .ok (queue, b) ∧
      ∀ s' : EventPool α, s'.queue = queue → s'.QueueOk n := by
  obtain ⟨hmax, xs, hrep, hle⟩ := h
  obtain ⟨queue, heq, hmax', hrep'⟩ := hrep.enqueue hel task false
  refine ⟨queue, _, heq, fun s' hs' => ?_⟩
  subst hs'
  refine ⟨hmax'.trans hmax, _, hrep', fun hpos => ?_⟩
  rw [hmax'] at hpos ⊢
  have hle := hle hpos
  split_ifs with hroom
  · -- below the bound the counter is the length
    have hsize := hrep.size
    have hlt : s.queue.size < s.queue.maxSize := by
      simpa [Queue.isFull, hpos] using hroom
    rw [List.length_append, List.length_singleton]
    omega
  · exact hle

/-- A dequeue keeps to the bound. -/
lemma QueueOk.dequeue (h : s.QueueOk n) :
    (s.queue.size = 0 ∧ s.queue.dequeue = .ok (s.queue, none)) ∨
    ∃ queue d, s.queue.dequeue = .ok (queue, some d) ∧
      ∀ s' : EventPool α, s'.queue = queue → s'.QueueOk n := by
  obtain ⟨hmax, xs, hrep, hle⟩ := h
  by_cases hsize : s.queue.size = 0
  · exact .inl ⟨hsize, Queue.dequeue_of_size_eq_zero hsize⟩
  · obtain ⟨x, rest, queue, rfl, heq, hmax', hrep'⟩ := hrep.dequeue (Nat.pos_of_ne_zero hsize)
    refine .inr ⟨queue, _, heq, fun s' hs' => ?_⟩
    subst hs'
    refine ⟨hmax'.trans hmax, rest, hrep', fun hpos => ?_⟩
    rw [hmax'] at hpos ⊢
    exact (Nat.le_succ _).trans (hle hpos)

/-- The counter of a bounded queue tells whether tasks are queued. -/
lemma QueueOk.size_pos_iff (h : s.QueueOk n) (hn : n * 2 % 2 ^ 32 ≠ 0) {xs : List α}
    (hrep : s.queue.Represents xs) : 0 < s.queue.size ↔ xs ≠ [] := by
  obtain ⟨hmax, ys, hrep', hle⟩ := h
  obtain rfl := hrep.unique hrep'
  have hle := hle (by omega)
  rw [hrep.size, Nat.mod_eq_of_lt (by omega), List.length_pos_iff]

/-! ## The steps -/

/-- **One step**: it does not fail, and as long as `exit` is not set it keeps the invariant. -/
lemma step (hn : 0 < n) (hq : s.QueueOk n) (h : s.exit = false → s.Inv n) {a : EventStep α}
    (hen : s.Enabled n a) :
    ∃ s', exec a s = .ok s' ∧ s'.QueueOk n ∧ (s'.exit = false → s'.Inv n) := by
  cases a with
  | enqueue p el task =>
      obtain ⟨queue, b, heq, hok⟩ := hq.enqueue (Option.isNone_iff_eq_none.mp hen.2) task
      refine ⟨{ s with queue := queue, pushing := Function.update s.pushing p true }, ?_,
        hok _ rfl, fun hexit => ⟨fun _ => .inr (.inr ⟨p, Function.update_self ..⟩), ?_⟩⟩
      · exact bind_eq_ok.mpr ⟨_, heq, rfl⟩
      · exact (h hexit).awake
  | signal p woken =>
      cases woken with
      | none =>
          obtain ⟨-, hawake⟩ := hen
          exact ⟨_, rfl, hq, fun _ => ⟨fun _ => .inl rfl, fun _ => ⟨0, hn, hawake 0 hn⟩⟩⟩
      | some w =>
          obtain ⟨-, hw, -⟩ := hen
          exact ⟨_, rfl, hq,
            fun _ => ⟨fun _ => .inl rfl, fun _ => someAwake_setWorker hw (by simp)⟩⟩
  | loop w =>
      obtain ⟨hw, hpos⟩ := hen
      refine ⟨_, rfl, hq, fun hexit => (h hexit).setWorker hw ?_ ?_⟩
      · split_ifs <;> simp
      · simp [hpos, WaiterPos.InDrain]
  | test w =>
      obtain ⟨hw, hpos⟩ := hen
      cases hsignal : s.signal with
      | true =>
          refine ⟨{ s with signal := false }.setWorker w .checking, by simp [exec, hsignal], hq,
            fun _ => ⟨fun _ => attended_setWorker hw (show WaiterPos.checking.InDrain from trivial),
              ?_⟩⟩
          intro hfalse
          exact absurd hfalse (by simp [EventPool.setWorker])
      | false =>
          refine ⟨s.setWorker w .asleep, by simp [exec, hsignal], hq, fun hexit => ⟨fun hsize => ?_,
            fun htrue => absurd htrue (by simp [EventPool.setWorker, hsignal])⟩⟩
          exact ((h hexit).attended hsize).setWorker (by simp [hpos, WaiterPos.InDrain])
  | spurious w =>
      obtain ⟨hw, hpos⟩ := hen
      exact ⟨_, rfl, hq, fun hexit => (h hexit).setWorker hw (by simp)
        (by simp [hpos, WaiterPos.InDrain])⟩
  | check w =>
      obtain ⟨hw, -⟩ := hen
      refine ⟨_, rfl, hq, fun hexit => ?_⟩
      have hexit : s.exit = false := hexit
      rw [hexit]
      exact (h hexit).setWorker hw (by simp) fun _ => trivial
  | dequeue w =>
      obtain ⟨hw, -⟩ := hen
      rcases hq.dequeue with ⟨hsize, heq⟩ | ⟨queue, d, heq, hok⟩
      · refine ⟨s.setWorker w .looping, ?_, hq, fun hexit => ⟨fun hpos => ?_, fun _ => ?_⟩⟩
        · exact bind_eq_ok.mpr ⟨_, heq, rfl⟩
        · exact absurd hsize hpos.ne'
        · exact someAwake_setWorker hw (by simp)
      · refine ⟨{ s with queue := queue }.setWorker w .running, ?_, hok _ rfl,
          fun _ => ⟨fun _ => attended_setWorker hw (show WaiterPos.running.InDrain from trivial),
            fun _ => ?_⟩⟩
        · simp only [exec, heq, bind, Except.bind]
          rfl
        · exact someAwake_setWorker hw (by simp)
  | finish w =>
      obtain ⟨hw, -⟩ := hen
      exact ⟨_, rfl, hq, fun hexit => (h hexit).setWorker hw (by simp) fun _ => trivial⟩
  | exit => exact ⟨_, rfl, hq, fun hexit => absurd hexit (by simp)⟩
  | broadcast =>
      have hexit : s.exit = true := hen
      exact ⟨_, rfl, hq, fun hfalse => absurd (hexit.symm.trans hfalse) (by simp)⟩

/-- **Every run.** -/
lemma inv_of_run {l : List (EventPool α × EventStep α)} (hn : 0 < n)
    (hrun : (eventSystem α n).Run l s) : s.QueueOk n ∧ (s.exit = false → s.Inv n) := by
  refine System.Run.invariant_of_ok (M := eventSystem α n)
    (fun _ s => s.QueueOk n ∧ (s.exit = false → s.Inv n)) ⟨queueOk_init n, fun _ => ⟨?_, ?_⟩⟩
    (fun h hen => step hn h.1 h.2 hen) hrun
  · exact fun hsize => absurd hsize (by simp [eventSystem, init, Queue.init])
  · exact fun hsignal => absurd hsignal (by simp [eventSystem, init])

/-! ## The result -/

/-- **No lost wake-up.**  In every state that a pool of at least one worker reaches, as long as
`exit` is not set: if the queue is not empty then the flag is set, or a worker is draining the
queue, or a push has yet to set the flag; so it does not happen that tasks are queued, all workers
sleep and no push is under way.  The queue is asked as the code asks it, `queue->size > 0`, which
is the truth unless its bound, a `uint32_t`, has wrapped to `0`, as for `2 ^ 31` workers. -/
theorem no_lost_wakeup {l : List (EventPool α × EventStep α)} (hn : 0 < n)
    (hrun : (eventSystem α n).Run l s) (hexit : s.exit = false) :
    (0 < s.queue.size → s.signal = true ∨ (∃ w < n, (s.worker w).InDrain) ∨
      ∃ p, s.pushing p = true) ∧
    ¬(0 < s.queue.size ∧ (∀ w < n, s.worker w = .asleep) ∧ ∀ p, s.pushing p = false) ∧
    ∃ xs, s.queue.Represents xs ∧ (n * 2 % 2 ^ 32 ≠ 0 → (0 < s.queue.size ↔ xs ≠ [])) := by
  obtain ⟨hok, hinv⟩ := inv_of_run hn hrun
  have hinv := hinv hexit
  refine ⟨hinv.attended, fun ⟨hsize, hasleep, hnone⟩ => ?_, ?_⟩
  · rcases hinv.attended hsize with hsignal | ⟨w, hw, hdrain⟩ | ⟨p, hp⟩
    · obtain ⟨w, hw, hawake⟩ := hinv.awake hsignal
      exact hawake (hasleep w hw)
    · rw [hasleep w hw] at hdrain
      exact hdrain
    · rw [hnone p] at hp
      exact absurd hp (by simp)
  · obtain ⟨-, xs, hrep, -⟩ := id hok
    exact ⟨xs, hrep, fun hbound => hok.size_pos_iff hbound hrep⟩

/-- `no_lost_wakeup` where two pushes leave one signal, and the worker that takes it is yet to look
at the queue. -/
theorem no_lost_wakeup_sample :
    ∃ l, ∃ s : EventPool ℕ, (eventSystem ℕ 2).Run l s ∧ s.queue.size = 2 ∧ s.signal = false ∧
      s.worker 1 = .asleep ∧ ((∃ w < 2, (s.worker w).InDrain) ∨ ∃ p, s.pushing p = true) := by
  obtain ⟨l, s, hrun, htest⟩ := System.exists_run_of_execAll (M := eventSystem ℕ 2)
    (fun _ s => decide (s.exit = false ∧ s.queue.size = 2 ∧ s.signal = false ∧
      s.worker 1 = .asleep))
    [.loop 0, .loop 1, .test 0, .test 1, .enqueue 5 0 7, .signal 5 (some 0), .enqueue 6 1 8,
      .signal 6 (some 1), .test 0, .test 1] (by decide +kernel)
  obtain ⟨hexit, hsize, hsignal, hasleep⟩ := of_decide_eq_true htest
  refine ⟨l, s, hrun, hsize, hsignal, hasleep, ?_⟩
  exact ((no_lost_wakeup (by norm_num) hrun hexit).1 (by omega)).resolve_left (by simp [hsignal])

end EventPool

end TsEngine
