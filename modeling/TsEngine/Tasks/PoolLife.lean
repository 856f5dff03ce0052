import TsEngine.Tasks.Wakeup

/-!
# The thread pool from its creation to its destruction

`ts_threadpool_init` creates the workers and spins until all of them have counted themselves in
`thread_num_alive`; `ts_threadpool_destroy` sets `exit` and broadcasts until the counter is zero,
then joins the workers and frees what they share.  The pool in between is the `EventPool` of
`Tasks/Wakeup`, used by one owner, who pushes and destroys.

What `Tasks/Wakeup` makes one step, a dequeue that finds the queue empty and the return to the outer
loop, is two here.  The worker reads `queue->size` behind the unlock; where a task has arrived in
between, the value is positive, and the worker runs the task that is still in its variable, freed by
its handler or never set.  This is the fault `staleTask`, the only one: a run ends there.  A dequeue
that has found a task is taken to return a positive size, as it does with fewer than `2 ^ 30`
workers: the bound of the queue is twice their number, and an `int` holds it.

A broadcast wakes every worker that sleeps, but leaves one signal, and whoever takes it sees `exit`
and leaves; the others go back to sleep.  So a round of `ts_threadpool_destroy` retires one of the
workers that wait, and `pool_life` says that it takes at most one round for each of them, if they
are quiet whenever the counter is looked at, which is what the pause between two rounds is for.
-/

namespace TsEngine

open Framework

/-- Where the thread of a worker is. -/
inductive ThreadLife
  | unborn
  /-- In front of `ts_atomic_incr`. -/
  | created
  /-- In `ts_threadpool_loop`, and counted. -/
  | alive
  /-- Behind `ts_atomic_decr`. -/
  | leaving
  | returned
  deriving DecidableEq

/-- The thread has counted itself. -/
def ThreadLife.Entered : ThreadLife → Prop
  | .alive | .leaving | .returned => True
  | .unborn | .created => False

/-- The thread is not counted any more, and uses nothing of the pool. -/
def ThreadLife.Left : ThreadLife → Prop
  | .leaving | .returned => True
  | .unborn | .created | .alive => False

/-- Where the owner of the pool is. -/
inductive OwnerPos
  /-- In front of the `pthread_create` of a worker. -/
  | creating (i : ℕ)
  /-- In `while (tp->thread_num != tp->thread_num_alive)`. -/
  | spinning
  | serving
  /-- In front of `while (tp->thread_num_alive)`. -/
  | testing
  | broadcasting
  /-- In `usleep`. -/
  | sleeping
  /-- In front of the `pthread_join` of a worker. -/
  | joining (i : ℕ)
  | destroyed
  deriving DecidableEq

/-- `ts_threadpool_init` has not returned. -/
def OwnerPos.InInit : OwnerPos → Prop
  | .creating _ | .spinning => True
  | .serving | .testing | .broadcasting | .sleeping | .joining _ | .destroyed => False

/-- `ts_threadpool_destroy` has not been called. -/
def OwnerPos.BeforeDestroy : OwnerPos → Prop
  | .creating _ | .spinning | .serving => True
  | .testing | .broadcasting | .sleeping | .joining _ | .destroyed => False

/-- `ts_threadpool_destroy` has seen the counter at zero. -/
def OwnerPos.SeenZero : OwnerPos → Prop
  | .joining _ | .destroyed => True
  | .creating _ | .spinning | .serving | .testing | .broadcasting | .sleeping => False

/-- How many of `n` workers have been joined. -/
def OwnerPos.joined (n : ℕ) : OwnerPos → ℕ
  | .joining i => i
  | .destroyed => n
  | .creating _ | .spinning | .serving | .testing | .broadcasting | .sleeping => 0

lemma left_or_alive {life : ThreadLife} (h : life.Entered) : life.Left ∨ life = .alive := by
  cases life with
  | unborn => exact absurd h id
  | created => exact absurd h id
  | alive => exact .inr rfl
  | leaving => exact .inl trivial
  | returned => exact .inl trivial

lemma OwnerPos.beforeDestroy_of_inInit {owner : OwnerPos} (h : owner.InInit) :
    owner.BeforeDestroy := by
  cases owner with
  | creating i => trivial
  | spinning => trivial
  | serving => trivial
  | testing => exact h
  | broadcasting => exact h
  | sleeping => exact h
  | joining i => exact h
  | destroyed => exact h

/-- A pool with the threads of its workers and its owner. -/
structure PoolLife (α : Type) where
  pool : EventPool α
  life : ThreadId → ThreadLife
  /-- `thread_num_alive`. -/
  alive : ℕ
  owner : OwnerPos
  /-- The workers behind the unlock of a dequeue that has found no task. -/
  emptied : ThreadId → Bool

/-- What can go wrong in a pool. -/
inductive PoolFault
  | queue (e : Queue.Error)
  /-- A worker runs a task again, or one that it never had. -/
  | staleTask

/-- The steps of the owner and of the workers. -/
inductive LifeStep (α : Type)
  | create
  /-- The spin loop of `ts_threadpool_init` ends. -/
  | ready
  | enter (w : ThreadId)
  /-- A step of a worker in its loop, or of a push by the owner. -/
  | work (a : EventStep α)
  /-- The return of a dequeue that has found no task. -/
  | dequeueReturn (w : ThreadId)
  /-- `ts_atomic_decr`. -/
  | leave (w : ThreadId)
  /-- The worker's thread ends. -/
  | returns (w : ThreadId)
  /-- `tp->exit = 1`. -/
  | destroy
  | test
  | broadcast
  | rest
  | join
  /-- The queue, the threads and the event are destroyed. -/
  | teardown

/-- The caller that is the owner. -/
def ownerId : ThreadId := 0

namespace PoolLife

variable {α : Type}

/-- `ts_threadpool_init`, in front of its loop. -/
def init (n : ℕ) : PoolLife α := ⟨.init n, fun _ => .unborn, 0, .creating 0, fun _ => false⟩

def setLife (s : PoolLife α) (w : ThreadId) (life : ThreadLife) : PoolLife α :=
  { s with life := Function.update s.life w life }

/-- Who is behind the unlock of a dequeue without a task, after a step to `pool`. -/
def emptiedBy (s : PoolLife α) (pool : EventPool α) : EventStep α → ThreadId → Bool
  | .dequeue w => Function.update s.emptied w (decide (pool.worker w = .looping))
  | .enqueue .. | .signal .. | .loop _ | .test _ | .spurious _ | .check _ | .finish _ | .exit
  | .broadcast => s.emptied

/-- The effect of a step in a pool of `n` workers. -/
def exec (n : ℕ) : LifeStep α → PoolLife α → Except PoolFault (PoolLife α)
  | .create, s =>
      match s.owner with
      | .creating i => .ok { s.setLife i .created with
          owner := if i + 1 < n then .creating (i + 1) else .spinning }
      | .spinning | .serving | .testing | .broadcasting | .sleeping | .joining _ | .destroyed =>
          .ok s
  | .ready, s => .ok { s with owner := .serving }
  | .enter w, s => .ok { s.setLife w .alive with alive := s.alive + 1 }
  | .work a, s => ((EventPool.exec a s.pool).mapError PoolFault.queue).map fun pool =>
      { s with pool := pool, emptied := s.emptiedBy pool a }
  | .dequeueReturn w, s =>
      if 0 < s.pool.queue.readSize then .error .staleTask
      else .ok { s with emptied := Function.update s.emptied w false }
  | .leave w, s => .ok { s.setLife w .leaving with alive := s.alive - 1 }
  | .returns w, s => .ok (s.setLife w .returned)
  | .destroy, s => .ok { s with pool := { s.pool with exit := true }, owner := .testing }
  | .test, s => .ok { s with owner := if s.alive = 0 then .joining 0 else .broadcasting }
  | .broadcast, s => ((EventPool.exec .broadcast s.pool).mapError PoolFault.queue).map fun pool =>
      { s with pool := pool, owner := .sleeping }
  | .rest, s => .ok { s with owner := .testing }
  | .join, s =>
      match s.owner with
      | .joining i => .ok { s with owner := .joining (i + 1) }
      | .creating _ | .spinning | .serving | .testing | .broadcasting | .sleeping | .destroyed =>
          .ok s
  | .teardown, s => .ok { s with owner := .destroyed }

/-- Who takes a step of the pool: the owner pushes while the pool serves, and the workers that are
in their loop do the rest; behind a dequeue without a task they return from it first. -/
def Takes (s : PoolLife α) : EventStep α → Prop
  | .enqueue p _ _ => p = ownerId ∧ s.owner = .serving
  | .signal p _ => p = ownerId ∧ s.owner = .serving
  | .loop w => s.life w = .alive ∧ s.emptied w = false
  | .test w => s.life w = .alive
  | .spurious w => s.life w = .alive
  | .check w => s.life w = .alive
  | .dequeue w => s.life w = .alive
  | .finish w => s.life w = .alive
  | .exit => False
  | .broadcast => False

/-- When a step may be taken. -/
def Enabled (n : ℕ) (s : PoolLife α) : LifeStep α → Prop
  | .create => ∃ i < n, s.owner = .creating i
  | .ready => s.owner = .spinning ∧ s.alive = n
  | .enter w => w < n ∧ s.life w = .created
  | .work a => s.Takes a ∧ s.pool.Enabled n a
  | .dequeueReturn w => w < n ∧ s.life w = .alive ∧ s.emptied w = true
  | .leave w => w < n ∧ s.life w = .alive ∧ s.pool.worker w = .done
  | .returns w => w < n ∧ s.life w = .leaving
  | .destroy => s.owner = .serving ∧ s.pool.pushing ownerId = false
  | .test => s.owner = .testing
  | .broadcast => s.owner = .broadcasting
  | .rest => s.owner = .sleeping
  | .join => ∃ i < n, s.owner = .joining i ∧ s.life i = .returned
  | .teardown => s.owner = .joining n

/-- A worker whose dequeue has found no task is about to run one. -/
def RunsStale (s : PoolLife α) : LifeStep α → Prop
  | .dequeueReturn _ => 0 < s.pool.queue.readSize
  | .create | .ready | .enter _ | .work _ | .leave _ | .returns _ | .destroy | .test | .broadcast
  | .rest | .join | .teardown => False

instance (s : PoolLife α) (a : EventStep α) : Decidable (s.Takes a) :=
  match a with
  | .enqueue p _ _ => inferInstanceAs (Decidable (p = ownerId ∧ s.owner = .serving))
  | .signal p _ => inferInstanceAs (Decidable (p = ownerId ∧ s.owner = .serving))
  | .loop w => inferInstanceAs (Decidable (s.life w = .alive ∧ s.emptied w = false))
  | .test w | .spurious w | .check w | .dequeue w | .finish w =>
      inferInstanceAs (Decidable (s.life w = .alive))
  | .exit | .broadcast => inferInstanceAs (Decidable False)

instance (n : ℕ) (s : PoolLife α) (a : LifeStep α) : Decidable (s.Enabled n a) :=
  match a with
  | .create => inferInstanceAs (Decidable (∃ i < n, s.owner = .creating i))
  | .ready => inferInstanceAs (Decidable (s.owner = .spinning ∧ s.alive = n))
  | .enter w => inferInstanceAs (Decidable (w < n ∧ s.life w = .created))
  | .work a => inferInstanceAs (Decidable (s.Takes a ∧ s.pool.Enabled n a))
  | .dequeueReturn w =>
      inferInstanceAs (Decidable (w < n ∧ s.life w = .alive ∧ s.emptied w = true))
  | .leave w => inferInstanceAs (Decidable (w < n ∧ s.life w = .alive ∧ s.pool.worker w = .done))
  | .returns w => inferInstanceAs (Decidable (w < n ∧ s.life w = .leaving))
  | .destroy => inferInstanceAs (Decidable (s.owner = .serving ∧ s.pool.pushing ownerId = false))
  | .test => inferInstanceAs (Decidable (s.owner = .testing))
  | .broadcast => inferInstanceAs (Decidable (s.owner = .broadcasting))
  | .rest => inferInstanceAs (Decidable (s.owner = .sleeping))
  | .join => inferInstanceAs (Decidable (∃ i < n, s.owner = .joining i ∧ s.life i = .returned))
  | .teardown => inferInstanceAs (Decidable (s.owner = .joining n))

end PoolLife

/-- A pool of `n` workers from its creation on. -/
def lifeSystem (α : Type) (n : ℕ) : System (PoolLife α) (LifeStep α) PoolFault where
  init := .init n
  enabled _ s a := s.Enabled n a
  exec := PoolLife.exec n

instance (α : Type) (n : ℕ) (l : List (PoolLife α × LifeStep α)) (s : PoolLife α)
    (a : LifeStep α) : Decidable ((lifeSystem α n).enabled l s a) :=
  inferInstanceAs (Decidable (s.Enabled n a))

/-! ## Steps of the pool -/

namespace EventPool

variable {α : Type} {n : ℕ} {s s' : EventPool α} {a : EventStep α} {w : ThreadId}

/-- The worker is in `ts_tpevent_wait`. -/
def Waits (s : EventPool α) (w : ThreadId) : Prop := s.worker w = .awake ∨ s.worker w = .asleep

instance (s : EventPool α) : DecidablePred s.Waits := fun w =>
  inferInstanceAs (Decidable (s.worker w = .awake ∨ s.worker w = .asleep))

lemma worker_setWorker_self (s : EventPool α) (w : ThreadId) (pos : WaiterPos) :
    (s.setWorker w pos).worker w = pos := Function.update_self ..

/-- What a step of the pool may do to its workers: it leaves them alone, but for one that is moved
from where it was. -/
lemma exec_cases (hen : s.Enabled n a) (hexec : exec a s = .ok s') (hexit : a ≠ .exit)
    (hbroadcast : a ≠ .broadcast) : s'.exit = s.exit ∧
      (s'.worker = s.worker ∨ ∃ w < n, ∃ pos, s.worker w ≠ .done ∧
        s'.worker = Function.update s.worker w pos ∧ (pos = .done → s.exit = true)) := by
  cases a with
  | enqueue p el task =>
      obtain ⟨⟨queue, b⟩, -, hs⟩ := bind_eq_ok.mp hexec
      cases hs
      exact ⟨rfl, .inl rfl⟩
  | signal p woken =>
      cases woken with
      | none =>
          cases hexec
          exact ⟨rfl, .inl rfl⟩
      | some w =>
          cases hexec
          exact ⟨rfl, .inr ⟨w, hen.2.1, .awake, by simp [hen.2.2], rfl, by simp⟩⟩
  | loop w =>
      cases hexec
      refine ⟨rfl, .inr ⟨w, hen.1, _, by simp [hen.2], rfl, fun hdone => ?_⟩⟩
      by_contra hexit
      simp [hexit] at hdone
  | test w =>
      rw [exec] at hexec
      split_ifs at hexec
      · cases hexec
        exact ⟨rfl, .inr ⟨w, hen.1, .checking, by simp [hen.2], rfl, by simp⟩⟩
      · cases hexec
        exact ⟨rfl, .inr ⟨w, hen.1, .asleep, by simp [hen.2], rfl, by simp⟩⟩
  | spurious w =>
      cases hexec
      exact ⟨rfl, .inr ⟨w, hen.1, .awake, by simp [hen.2], rfl, by simp⟩⟩
  | check w =>
      cases hexec
      refine ⟨rfl, .inr ⟨w, hen.1, _, by simp [hen.2], rfl, fun hdone => ?_⟩⟩
      by_contra hexit
      simp [hexit] at hdone
  | dequeue w =>
      obtain ⟨⟨queue, d⟩, -, hs⟩ := bind_eq_ok.mp hexec
      cases d with
      | none =>
          cases hs
          exact ⟨rfl, .inr ⟨w, hen.1, .looping, by simp [hen.2], rfl, by simp⟩⟩
      | some task =>
          cases hs
          exact ⟨rfl, .inr ⟨w, hen.1, .running, by simp [hen.2], rfl, by simp⟩⟩
  | finish w =>
      cases hexec
      exact ⟨rfl, .inr ⟨w, hen.1, .draining, by simp [hen.2], rfl, by simp⟩⟩
  | exit => exact absurd rfl hexit
  | broadcast => exact absurd rfl hbroadcast

end EventPool

namespace PoolLife

variable {α : Type} {n : ℕ} {s s' : PoolLife α}

/-- The workers that are in their loop and wait. -/
def waiting (n : ℕ) (s : PoolLife α) : Finset ThreadId :=
  (Finset.range n).filter fun w => s.life w = .alive ∧ s.pool.Waits w

lemma mem_waiting {w : ThreadId} :
    w ∈ waiting n s ↔ w < n ∧ s.life w = .alive ∧ s.pool.Waits w := by
  rw [waiting, Finset.mem_filter, Finset.mem_range]

/-- Once `exit` is set, a worker's step takes nobody back to waiting; and if it consumes the signal,
there is one less who waits. -/
lemma work_exiting {a : EventStep α} {pool : EventPool α} (hexit : s.pool.exit = true)
    (hserving : s.owner ≠ .serving) (htakes : s.Takes a) (hen : s.pool.Enabled n a)
    (hexec : EventPool.exec a s.pool = .ok pool) :
    waiting n { s with pool := pool } ⊆ waiting n s ∧
      (pool.signal = s.pool.signal ∧
          (s.pool.signal = true → ∀ w, pool.worker w = .asleep → s.pool.worker w = .asleep) ∨
        (waiting n { s with pool := pool }).card + 1 ≤ (waiting n s).card) := by
  have hsub : ∀ w pos, pool.worker = Function.update s.pool.worker w pos →
      (pos = .awake ∨ pos = .asleep → s.pool.Waits w) →
      waiting n { s with pool := pool } ⊆ waiting n s := fun w pos hworker hpos w' hw' => by
    rw [mem_waiting] at hw' ⊢
    refine ⟨hw'.1, hw'.2.1, ?_⟩
    have hwaits := hw'.2.2
    rw [EventPool.Waits, hworker] at hwaits
    by_cases hne : w' = w
    · subst hne
      rw [Function.update_self] at hwaits
      exact hpos hwaits
    · rwa [Function.update_of_ne hne] at hwaits
  have hsame : ∀ w pos, pool.worker = Function.update s.pool.worker w pos → pos ≠ .asleep →
      ∀ w', pool.worker w' = .asleep → s.pool.worker w' = .asleep := fun w pos hworker hpos w' => by
    rw [hworker]
    by_cases hne : w' = w
    · subst hne
      rw [Function.update_self]
      exact fun he => absurd he hpos
    · rw [Function.update_of_ne hne]
      exact id
  cases a with
  | enqueue p el task => exact absurd htakes.2 hserving
  | signal p woken => exact absurd htakes.2 hserving
  | loop w =>
      cases hexec
      have hworker : (s.pool.setWorker w (if s.pool.exit then .done else .awake)).worker =
          Function.update s.pool.worker w .done := by
        rw [hexit]
        rfl
      exact ⟨hsub w .done hworker (by simp), .inl ⟨rfl, fun _ => hsame w .done hworker (by simp)⟩⟩
  | test w =>
      rw [EventPool.exec] at hexec
      split_ifs at hexec with hsignal
      · cases hexec
        have hw : w ∈ waiting n s :=
          mem_waiting.mpr ⟨hen.1, htakes, .inl hen.2⟩
        have hss := hsub w .checking rfl (by simp)
        refine ⟨hss, .inr (Finset.card_lt_card ⟨hss, fun hback => ?_⟩)⟩
        have hw' := (mem_waiting.mp (hback hw)).2.2
        rw [EventPool.Waits, EventPool.worker_setWorker_self] at hw'
        simp at hw'
      · cases hexec
        exact ⟨hsub w .asleep rfl fun _ => .inl hen.2,
          .inl ⟨rfl, fun htrue => absurd htrue hsignal⟩⟩
  | spurious w =>
      cases hexec
      exact ⟨hsub w .awake rfl fun _ => .inr hen.2,
        .inl ⟨rfl, fun _ => hsame w .awake rfl (by simp)⟩⟩
  | check w =>
      cases hexec
      have hworker : (s.pool.setWorker w (if s.pool.exit then .done else .draining)).worker =
          Function.update s.pool.worker w .done := by
        rw [hexit]
        rfl
      exact ⟨hsub w .done hworker (by simp), .inl ⟨rfl, fun _ => hsame w .done hworker (by simp)⟩⟩
  | dequeue w =>
      obtain ⟨⟨queue, d⟩, -, hs⟩ := bind_eq_ok.mp hexec
      cases d with
      | none =>
          cases hs
          exact ⟨hsub w .looping rfl (by simp),
            .inl ⟨rfl, fun _ => hsame w .looping rfl (by simp)⟩⟩
      | some task =>
          cases hs
          exact ⟨hsub w .running rfl (by simp),
            .inl ⟨rfl, fun _ => hsame w .running rfl (by simp)⟩⟩
  | finish w =>
      cases hexec
      exact ⟨hsub w .draining rfl (by simp),
        .inl ⟨rfl, fun _ => hsame w .draining rfl (by simp)⟩⟩
  | exit => exact absurd htakes id
  | broadcast => exact absurd htakes id

/-! ## The invariant -/

/-- The workers that are counted. -/
def inside (n : ℕ) (s : PoolLife α) : Finset ThreadId :=
  (Finset.range n).filter fun w => s.life w = .alive

lemma mem_inside {w : ThreadId} : w ∈ inside n s ↔ w < n ∧ s.life w = .alive := by
  rw [inside, Finset.mem_filter, Finset.mem_range]

/-- What every state of a pool satisfies. -/
structure Inv (n : ℕ) (s : PoolLife α) : Prop where
  queue : s.pool.QueueOk n
  awake : s.pool.exit = false → s.pool.Inv n
  exit : s.pool.exit = true ↔ ¬s.owner.BeforeDestroy
  alive : s.alive = (inside n s).card
  unborn : ∀ w < n, s.life w = .unborn ↔ ∃ i ≤ w, s.owner = .creating i
  entered : ¬s.owner.InInit → ∀ w < n, (s.life w).Entered
  gone : ∀ w < n, (s.life w).Left → s.pool.worker w = .done
  working : s.owner.BeforeDestroy → ∀ w < n, s.pool.worker w ≠ .done
  seenZero : s.owner.SeenZero → ∀ w < n, (s.life w).Left
  joined : ∀ w < s.owner.joined n, s.life w = .returned

lemma inv_init (n : ℕ) : (init n : PoolLife α).Inv n where
  queue := EventPool.queueOk_init n
  awake _ := ⟨fun hsize => absurd hsize (by simp [init, EventPool.init, Queue.init]),
    fun hsignal => absurd hsignal (by simp [init, EventPool.init])⟩
  exit := by simp [init, EventPool.init, OwnerPos.BeforeDestroy]
  alive := by simp [init, inside]
  unborn w _ := by simp [init]
  entered hnot := absurd trivial hnot
  gone w _ hw := absurd hw id
  working _ w _ := by simp [init, EventPool.init]
  seenZero hseen := absurd hseen id
  joined w hw := absurd hw (Nat.not_lt_zero w)

namespace Inv

/-- The owner moves on, and nothing else changes. -/
lemma setOwner (h : s.Inv n) {owner : OwnerPos}
    (hbefore : owner.BeforeDestroy ↔ s.owner.BeforeDestroy)
    (hcreating : ∀ i, owner ≠ .creating i ∧ s.owner ≠ .creating i)
    (hinit : ¬owner.InInit → ∀ w < n, (s.life w).Entered)
    (hzero : owner.SeenZero → ∀ w < n, (s.life w).Left)
    (hjoined : ∀ w < owner.joined n, s.life w = .returned) :
    Inv n { s with owner := owner } where
  queue := h.queue
  awake := h.awake
  exit := h.exit.trans (not_congr hbefore.symm)
  alive := h.alive
  unborn w hw := (h.unborn w hw).trans
    ⟨fun ⟨i, _, hi⟩ => absurd hi (hcreating i).2, fun ⟨i, _, hi⟩ => absurd hi (hcreating i).1⟩
  entered := hinit
  gone := h.gone
  working hb := h.working (hbefore.mp hb)
  seenZero := hzero
  joined := hjoined

/-- **A step of the pool.** -/
lemma work (hn : 0 < n) (h : s.Inv n) {a : EventStep α} (htakes : s.Takes a)
    (hen : s.pool.Enabled n a) :
    ∃ pool, EventPool.exec a s.pool = .ok pool ∧
      ∀ emptied, Inv n { s with pool := pool, emptied := emptied } := by
  obtain ⟨pool, hexec, hqueue, hawake⟩ := EventPool.step hn h.queue h.awake hen
  obtain ⟨hexit, hworker⟩ := EventPool.exec_cases hen hexec (by rintro rfl; exact htakes)
    (by rintro rfl; exact htakes)
  refine ⟨pool, hexec, fun emptied => ⟨hqueue, hawake,
    (iff_of_eq (congrArg (· = true) hexit)).trans h.exit, h.alive, h.unborn, h.entered,
    fun w hw hleft => ?_, fun hbefore w hw hdone => ?_, h.seenZero, h.joined⟩⟩
  · have hdone := h.gone w hw hleft
    rcases hworker with heq | ⟨w', -, pos, hne, heq, -⟩
    · exact (congrFun heq w).trans hdone
    · have hww : w ≠ w' := by
        rintro rfl
        exact hne hdone
      show pool.worker w = .done
      rw [heq, Function.update_of_ne hww, hdone]
  · have hfalse : s.pool.exit ≠ true := fun htrue => h.exit.mp htrue hbefore
    rcases hworker with heq | ⟨w', -, pos, -, heq, hpos⟩
    · exact h.working hbefore w hw ((congrFun heq w).symm.trans hdone)
    · by_cases hww : w = w'
      · subst hww
        refine hfalse (hpos ?_)
        rw [← hdone]
        show pos = pool.worker w
        rw [heq, Function.update_self]
      · refine h.working hbefore w hw ?_
        rw [← hdone]
        show _ = pool.worker w
        rw [heq, Function.update_of_ne hww]

lemma life_setLife (s : PoolLife α) (w w' : ThreadId) (life : ThreadLife) :
    (s.setLife w life).life w' = if w' = w then life else s.life w' :=
  Function.update_apply ..

/-- `pthread_create`. -/
lemma create (h : s.Inv n) {i : ℕ} (howner : s.owner = .creating i) :
    Inv n { s.setLife i .created with
      owner := if i + 1 < n then .creating (i + 1) else .spinning } where
  queue := h.queue
  awake := h.awake
  exit := by
    rw [show (s.setLife i .created).pool = s.pool from rfl, h.exit, howner]
    split_ifs <;> exact Iff.rfl
  alive := by
    rw [show (s.setLife i .created).alive = s.alive from rfl, h.alive]
    refine congrArg Finset.card (Finset.ext fun w => ?_)
    rw [mem_inside, mem_inside]
    refine and_congr_right fun hw => ?_
    show _ ↔ (s.setLife i .created).life w = .alive
    rw [life_setLife]
    split_ifs with hwi
    · have hunborn := (h.unborn w hw).mpr ⟨i, hwi.ge, howner⟩
      simp [hunborn]
    · rfl
  unborn w hw := by
    show (s.setLife i .created).life w = .unborn ↔ _
    rw [life_setLife]
    have hiw : (∃ j ≤ w, s.owner = .creating j) ↔ i ≤ w := by simp [howner]
    split_ifs with hwi hlast hlast
    · simp [hwi]
    · simp
    · have hne : i ≠ w := Ne.symm hwi
      rw [h.unborn w hw, hiw]
      simp only [OwnerPos.creating.injEq, exists_eq_right']
      omega
    · have hne : i ≠ w := Ne.symm hwi
      have hle : ¬i ≤ w := by omega
      rw [h.unborn w hw, hiw]
      simp [hle]
  entered hnot := by
    refine absurd ?_ hnot
    show OwnerPos.InInit (if i + 1 < n then .creating (i + 1) else .spinning)
    split_ifs <;> trivial
  gone w hw hleft := by
    have hleft : ((s.setLife i .created).life w).Left := hleft
    rw [life_setLife] at hleft
    split_ifs at hleft
    · exact absurd hleft id
    · exact h.gone w hw hleft
  working _ := h.working (by rw [howner]; trivial)
  seenZero hseen := by
    have hseen : OwnerPos.SeenZero (if i + 1 < n then .creating (i + 1) else .spinning) := hseen
    split_ifs at hseen
    · exact absurd hseen id
    · exact absurd hseen id
  joined w hw := by
    have hw : w < OwnerPos.joined n (if i + 1 < n then .creating (i + 1) else .spinning) := hw
    split_ifs at hw
    · exact absurd hw (Nat.not_lt_zero w)
    · exact absurd hw (Nat.not_lt_zero w)

/-- `ts_atomic_incr`. -/
lemma enter (h : s.Inv n) {w : ThreadId} (hw : w < n) (hlife : s.life w = .created) :
    Inv n { s.setLife w .alive with alive := s.alive + 1 } where
  queue := h.queue
  awake := h.awake
  exit := h.exit
  alive := by
    have hnot : w ∉ inside n s := fun hmem => by
      have := (mem_inside.mp hmem).2
      simp [hlife] at this
    show s.alive + 1 = (inside n (s.setLife w .alive)).card
    rw [h.alive, ← Finset.card_insert_of_notMem hnot]
    refine congrArg Finset.card (Finset.ext fun w' => ?_)
    rw [Finset.mem_insert, mem_inside, mem_inside]
    rw [life_setLife]
    by_cases hww : w' = w
    · simp [hww, hw]
    · simp [hww]
  unborn w' hw' := by
    show (s.setLife w .alive).life w' = .unborn ↔ ∃ i ≤ w', s.owner = .creating i
    rw [life_setLife, ← h.unborn w' hw']
    split_ifs with hww
    · simp [hww, hlife]
    · rfl
  entered hnot w' hw' := by
    show ((s.setLife w .alive).life w').Entered
    rw [life_setLife]
    split_ifs
    · trivial
    · exact h.entered hnot w' hw'
  gone w' hw' hleft := by
    have hleft : ((s.setLife w .alive).life w').Left := hleft
    rw [life_setLife] at hleft
    split_ifs at hleft
    · exact absurd hleft id
    · exact h.gone w' hw' hleft
  working := h.working
  seenZero hseen := by
    have hleft := h.seenZero hseen w hw
    rw [hlife] at hleft
    exact absurd hleft id
  joined w' hw' := by
    have hret := h.joined w' hw'
    show (s.setLife w .alive).life w' = .returned
    rw [life_setLife]
    split_ifs with hww
    · rw [hww, hlife] at hret
      exact absurd hret (by simp)
    · exact hret

/-- `ts_atomic_decr`. -/
lemma leave (h : s.Inv n) {w : ThreadId} (hw : w < n) (hlife : s.life w = .alive)
    (hdone : s.pool.worker w = .done) :
    Inv n { s.setLife w .leaving with alive := s.alive - 1 } where
  queue := h.queue
  awake := h.awake
  exit := h.exit
  alive := by
    have hmem : w ∈ inside n s := mem_inside.mpr ⟨hw, hlife⟩
    show s.alive - 1 = (inside n (s.setLife w .leaving)).card
    rw [h.alive, ← Finset.card_erase_of_mem hmem]
    refine congrArg Finset.card (Finset.ext fun w' => ?_)
    rw [Finset.mem_erase, mem_inside, mem_inside]
    rw [life_setLife]
    by_cases hww : w' = w
    · simp [hww]
    · simp [hww]
  unborn w' hw' := by
    show (s.setLife w .leaving).life w' = .unborn ↔ ∃ i ≤ w', s.owner = .creating i
    rw [life_setLife, ← h.unborn w' hw']
    split_ifs with hww
    · simp [hww, hlife]
    · rfl
  entered hnot w' hw' := by
    show ((s.setLife w .leaving).life w').Entered
    rw [life_setLife]
    split_ifs
    · trivial
    · exact h.entered hnot w' hw'
  gone w' hw' hleft := by
    have hleft : ((s.setLife w .leaving).life w').Left := hleft
    rw [life_setLife] at hleft
    split_ifs at hleft with hww
    · exact hww ▸ hdone
    · exact h.gone w' hw' hleft
  working := h.working
  seenZero hseen w' hw' := by
    show ((s.setLife w .leaving).life w').Left
    rw [life_setLife]
    split_ifs
    · trivial
    · exact h.seenZero hseen w' hw'
  joined w' hw' := by
    have hret := h.joined w' hw'
    show (s.setLife w .leaving).life w' = .returned
    rw [life_setLife]
    split_ifs with hww
    · rw [hww, hlife] at hret
      exact absurd hret (by simp)
    · exact hret

/-- The thread of a worker ends. -/
lemma returns (h : s.Inv n) {w : ThreadId} (hw : w < n) (hlife : s.life w = .leaving) :
    Inv n (s.setLife w .returned) where
  queue := h.queue
  awake := h.awake
  exit := h.exit
  alive := by
    show s.alive = (inside n (s.setLife w .returned)).card
    rw [h.alive]
    refine congrArg Finset.card (Finset.ext fun w' => ?_)
    rw [mem_inside, mem_inside, life_setLife]
    by_cases hww : w' = w
    · simp [hww, hlife]
    · simp [hww]
  unborn w' hw' := by
    show (s.setLife w .returned).life w' = .unborn ↔ ∃ i ≤ w', s.owner = .creating i
    rw [life_setLife, ← h.unborn w' hw']
    split_ifs with hww
    · simp [hww, hlife]
    · rfl
  entered hnot w' hw' := by
    rw [life_setLife]
    split_ifs
    · trivial
    · exact h.entered hnot w' hw'
  gone w' hw' hleft := by
    rw [life_setLife] at hleft
    split_ifs at hleft with hww
    · have hdone := h.gone w hw (by rw [hlife]; trivial)
      exact hww ▸ hdone
    · exact h.gone w' hw' hleft
  working := h.working
  seenZero hseen w' hw' := by
    rw [life_setLife]
    split_ifs
    · trivial
    · exact h.seenZero hseen w' hw'
  joined w' hw' := by
    rw [life_setLife]
    split_ifs
    · rfl
    · exact h.joined w' hw'

/-- The variables `emptied` of the workers make no difference. -/
lemma setEmptied (h : s.Inv n) (emptied : ThreadId → Bool) : Inv n { s with emptied := emptied } :=
  ⟨h.queue, h.awake, h.exit, h.alive, h.unborn, h.entered, h.gone, h.working, h.seenZero,
    h.joined⟩

/-- `tp->exit = 1`. -/
lemma destroy (h : s.Inv n) (howner : s.owner = .serving) :
    Inv n { s with pool := { s.pool with exit := true }, owner := .testing } where
  queue := h.queue
  awake hfalse := absurd hfalse (by simp)
  exit := iff_of_true rfl id
  alive := h.alive
  unborn w hw := (h.unborn w hw).trans (by simp [howner])
  entered _ := h.entered (by rw [howner]; exact id)
  gone := h.gone
  working hbefore := absurd hbefore id
  seenZero hseen := absurd hseen id
  joined w hw := absurd hw (Nat.not_lt_zero w)

/-- A broadcast wakes those that sleep. -/
lemma broadcast (h : s.Inv n) (howner : s.owner = .broadcasting) :
    Inv n { s with
      pool := { s.pool with
        signal := true
        worker := fun w => if s.pool.worker w = .asleep then .awake else s.pool.worker w }
      owner := .sleeping } where
  queue := h.queue
  awake hfalse := by
    have htrue := h.exit.mpr (by rw [howner]; exact id)
    exact absurd (htrue.symm.trans hfalse) (by simp)
  exit := iff_of_true (h.exit.mpr (by rw [howner]; exact id)) id
  alive := h.alive
  unborn w hw := (h.unborn w hw).trans (by simp [howner])
  entered _ := h.entered (by rw [howner]; exact id)
  gone w hw hleft := by
    have hdone := h.gone w hw hleft
    simp [hdone]
  working hbefore := absurd hbefore id
  seenZero hseen := absurd hseen id
  joined w hw := absurd hw (Nat.not_lt_zero w)

/-- **One step** keeps the invariant, unless a worker goes on with a task that it does not have. -/
lemma step (hn : 0 < n) (h : s.Inv n) {a : LifeStep α} (hen : s.Enabled n a) :
    (∃ s', exec n a s = .ok s' ∧ s'.Inv n ∧ ¬s.RunsStale a) ∨
      exec n a s = .error .staleTask ∧ s.RunsStale a := by
  cases a with
  | create =>
      obtain ⟨i, hi, howner⟩ := hen
      exact .inl ⟨_, by rw [exec, howner], h.create howner, id⟩
  | ready =>
      obtain ⟨howner, halive⟩ := hen
      refine .inl ⟨_, rfl, h.setOwner ?_ (by simp [howner]) (fun _ w hw => ?_)
        (fun hseen => absurd hseen id) fun w hw => absurd hw (Nat.not_lt_zero w), id⟩
      · rw [howner]
        exact Iff.rfl
      · have hcard : (inside n s).card = (Finset.range n).card := by
          rw [← h.alive, halive, Finset.card_range]
        have hlife := Finset.card_filter_eq_iff.mp hcard w (Finset.mem_range.mpr hw)
        rw [hlife]
        trivial
  | enter w =>
      exact .inl ⟨_, rfl, h.enter hen.1 hen.2, id⟩
  | work a =>
      obtain ⟨pool, hexec, h'⟩ := h.work hn hen.1 hen.2
      exact .inl ⟨_, by rw [exec, hexec]; rfl, h' (s.emptiedBy pool a), id⟩
  | dequeueReturn w =>
      by_cases hsize : 0 < s.pool.queue.readSize
      · exact .inr ⟨if_pos hsize, hsize⟩
      · exact .inl ⟨_, if_neg hsize, h.setEmptied _, hsize⟩
  | leave w =>
      exact .inl ⟨_, rfl, h.leave hen.1 hen.2.1 hen.2.2, id⟩
  | returns w =>
      exact .inl ⟨_, rfl, h.returns hen.1 hen.2, id⟩
  | destroy =>
      exact .inl ⟨_, rfl, h.destroy hen.1, id⟩
  | test =>
      have howner : s.owner = .testing := hen
      have hentered := h.entered (by rw [howner]; exact id)
      refine .inl ⟨_, rfl, h.setOwner ?_ (fun i => ⟨?_, by simp [howner]⟩) (fun _ => hentered)
        (fun hseen w hw => ?_) (fun w hw => ?_), id⟩
      · rw [howner]
        split_ifs <;> exact Iff.rfl
      · split_ifs <;> simp
      · by_cases halive : s.alive = 0
        swap
        · rw [if_neg halive] at hseen
          exact absurd hseen id
        -- the counter is zero, so nobody is left inside
        have hempty : inside n s = ∅ := Finset.card_eq_zero.mp (h.alive.symm.trans halive)
        refine (left_or_alive (hentered w hw)).resolve_right fun hlife => ?_
        have hmem : w ∈ inside n s := mem_inside.mpr ⟨hw, hlife⟩
        rw [hempty] at hmem
        exact Finset.notMem_empty w hmem
      · split_ifs at hw
        · exact absurd hw (Nat.not_lt_zero w)
        · exact absurd hw (Nat.not_lt_zero w)
  | broadcast =>
      exact .inl ⟨_, rfl, h.broadcast hen, id⟩
  | rest =>
      have howner : s.owner = .sleeping := hen
      exact .inl ⟨_, rfl, h.setOwner (by rw [howner]; exact Iff.rfl) (by simp [howner])
        (fun _ => h.entered (by rw [howner]; exact id)) (fun hseen => absurd hseen id)
        fun w hw => absurd hw (Nat.not_lt_zero w), id⟩
  | join =>
      obtain ⟨i, hi, howner, hlife⟩ := hen
      refine .inl ⟨{ s with owner := .joining (i + 1) }, by rw [exec, howner],
        h.setOwner (by rw [howner]; exact Iff.rfl) (by simp [howner])
          (fun _ => h.entered (by rw [howner]; exact id))
          (fun _ => h.seenZero (by rw [howner]; trivial)) (fun w hw => ?_), id⟩
      rcases Nat.lt_succ_iff_lt_or_eq.mp hw with hlt | rfl
      · exact h.joined w (by rw [howner]; exact hlt)
      · exact hlife
  | teardown =>
      have howner : s.owner = .joining n := hen
      exact .inl ⟨_, rfl, h.setOwner (by rw [howner]; exact Iff.rfl) (by simp [howner])
        (fun _ => h.entered (by rw [howner]; exact id))
        (fun _ => h.seenZero (by rw [howner]; trivial))
        fun w hw => h.joined w (by rw [howner]; exact hw), id⟩

end Inv

/-- **Every run.** -/
lemma inv_of_run (hn : 0 < n) {l : List (PoolLife α × LifeStep α)}
    (hrun : (lifeSystem α n).Run l s) : s.Inv n :=
  System.Run.invariant_of_cases (M := lifeSystem α n) (fun _ s => s.Inv n) (inv_init n)
    (fun h hen => (h.step hn hen).imp (fun ⟨s', hexec, h', _⟩ => ⟨s', hexec, h'⟩)
      fun ⟨hexec, _⟩ => ⟨_, hexec⟩) hrun

/-! ## The rounds of `ts_threadpool_destroy` -/

/-- Whoever is in the loop of the workers sleeps. -/
def Quiet (n : ℕ) (s : PoolLife α) : Prop := ∀ w < n, s.life w = .alive → s.pool.worker w = .asleep

instance (n : ℕ) (s : PoolLife α) : Decidable (s.Quiet n) :=
  inferInstanceAs (Decidable (∀ w < n, _ → _))

/-- The step is a broadcast. -/
def isBroadcast : LifeStep α → Bool
  | .broadcast => true
  | .create | .ready | .enter _ | .work _ | .dequeueReturn _ | .leave _ | .returns _ | .destroy
  | .test | .rest | .join | .teardown => false

/-- The workers are quiet when the counter is looked at. -/
def TestsQuietly (n : ℕ) : PoolLife α × LifeStep α → Prop
  | (s, .test) => s.Quiet n
  | (_, .create) | (_, .ready) | (_, .enter _) | (_, .work _) | (_, .dequeueReturn _)
  | (_, .leave _) | (_, .returns _) | (_, .destroy) | (_, .broadcast) | (_, .rest) | (_, .join)
  | (_, .teardown) => True

instance (n : ℕ) : DecidablePred (TestsQuietly n : PoolLife α × LifeStep α → Prop) := fun q =>
  match q with
  | (s, .test) => inferInstanceAs (Decidable (s.Quiet n))
  | (_, .create) | (_, .ready) | (_, .enter _) | (_, .work _) | (_, .dequeueReturn _)
  | (_, .leave _) | (_, .returns _) | (_, .destroy) | (_, .broadcast) | (_, .rest) | (_, .join)
  | (_, .teardown) => inferInstanceAs (Decidable True)

/-- The number of broadcasts in a history. -/
def rounds (l : List (PoolLife α × LifeStep α)) : ℕ := l.countP fun q => isBroadcast q.2

/-- After `b` broadcasts: every one of them has taken a worker out of those that wait, or its signal
is there to be taken and nobody sleeps. -/
structure RoundsOk (n b : ℕ) (s : PoolLife α) : Prop where
  before : s.owner.BeforeDestroy → b = 0
  le : b ≤ n
  inRound : s.owner = .testing ∨ s.owner = .sleeping → (waiting n s).card + b ≤ n ∨
    s.pool.signal = true ∧ (∀ w, s.pool.worker w ≠ .asleep) ∧ (waiting n s).card + b ≤ n + 1
  next : s.owner = .broadcasting → (waiting n s).card + b ≤ n ∧ b + 1 ≤ n

namespace RoundsOk

variable {b : ℕ}

lemma card_waiting_le (n : ℕ) (s : PoolLife α) : (waiting n s).card ≤ n :=
  (Finset.card_filter_le _ _).trans (Finset.card_range n).le

/-- A broadcast leaves everyone waiting who does. -/
lemma waiting_broadcast (n : ℕ) (s : PoolLife α) (owner : OwnerPos) :
    waiting n { s with
      pool := { s.pool with
        signal := true
        worker := fun w => if s.pool.worker w = .asleep then .awake else s.pool.worker w }
      owner := owner } = waiting n s := by
  ext w
  rw [mem_waiting, mem_waiting]
  refine and_congr_right fun _ => and_congr_right fun _ => ?_
  simp only [EventPool.Waits]
  split_ifs with hasleep
  · simp [hasleep]
  · simp [hasleep]

/-- Nobody comes to wait by leaving. -/
lemma waiting_setLife (n : ℕ) (s : PoolLife α) (w : ThreadId) {life : ThreadLife}
    (hlife : life ≠ .alive) : waiting n (s.setLife w life) ⊆ waiting n s := by
  intro w' hw'
  obtain ⟨hlt, halive, hwaits⟩ := mem_waiting.mp hw'
  rw [Inv.life_setLife] at halive
  split_ifs at halive
  · exact absurd halive hlife
  · exact mem_waiting.mpr ⟨hlt, halive, hwaits⟩

/-- The owner is not in a round, and stays out. -/
lemma of_before (h : RoundsOk n b s) (hbefore : s.owner.BeforeDestroy)
    (hbefore' : s'.owner.BeforeDestroy) : RoundsOk n b s' where
  before _ := h.before hbefore
  le := h.le
  inRound howner := by
    rcases howner with howner | howner
    all_goals
      rw [howner] at hbefore'
      exact absurd hbefore' id
  next howner := by
    rw [howner] at hbefore'
    exact absurd hbefore' id

/-- The workers that wait are fewer, if any change, and the flag is as it was or there is one less
of them. -/
lemma of_work (h : RoundsOk n b s) (howner : s'.owner = s.owner)
    (hsub : waiting n s' ⊆ waiting n s)
    (hsignal : s'.pool.signal = s.pool.signal ∧ (s.pool.signal = true →
        ∀ w, s'.pool.worker w = .asleep → s.pool.worker w = .asleep) ∨
      (waiting n s').card + 1 ≤ (waiting n s).card) : RoundsOk n b s' where
  before hbefore := h.before (howner ▸ hbefore)
  le := h.le
  inRound hin := by
    have hcard := Finset.card_le_card hsub
    rcases h.inRound (howner ▸ hin) with hle | ⟨htrue, hawake, hle⟩
    · exact .inl (by omega)
    · rcases hsignal with ⟨hsame, hasleep⟩ | hless
      · exact .inr ⟨hsame.trans htrue, fun w hw => hawake w (hasleep htrue w hw), by omega⟩
      · exact .inl (by omega)
  next hin := by
    have hcard := Finset.card_le_card hsub
    have := h.next (howner ▸ hin)
    omega

/-- **One step.** -/
lemma step (hinv : s.Inv n) (h : RoundsOk n b s) {a : LifeStep α} (hen : s.Enabled n a)
    (hquiet : TestsQuietly n (s, a)) (hexec : exec n a s = .ok s') :
    RoundsOk n (b + if isBroadcast a then 1 else 0) s' := by
  cases a with
  | create =>
      obtain ⟨i, hi, howner⟩ := hen
      rw [exec, howner] at hexec
      cases hexec
      refine h.of_before (by rw [howner]; trivial) ?_
      show OwnerPos.BeforeDestroy (if i + 1 < n then .creating (i + 1) else .spinning)
      split_ifs <;> trivial
  | ready =>
      cases hexec
      exact h.of_before (by rw [hen.1]; trivial) trivial
  | enter w =>
      cases hexec
      -- a worker that has not entered is one of a pool in its creation
      have hinit : s.owner.InInit := by
        by_contra hnot
        have hentered := hinv.entered hnot w hen.1
        rw [hen.2] at hentered
        exact hentered
      have hbefore := OwnerPos.beforeDestroy_of_inInit hinit
      exact h.of_before hbefore hbefore
  | work a =>
      obtain ⟨pool, hpool, rfl⟩ := map_eq_ok.mp hexec
      have hpool := mapError_eq_ok.mp hpool
      by_cases hexit : s.pool.exit = true
      · have hserving : s.owner ≠ .serving := fun he => hinv.exit.mp hexit (by rw [he]; trivial)
        obtain ⟨hsub, hsignal⟩ := work_exiting hexit hserving hen.1 hen.2 hpool
        exact h.of_work rfl hsub hsignal
      · have hbefore : s.owner.BeforeDestroy := by
          by_contra hnot
          exact hexit (hinv.exit.mpr hnot)
        exact h.of_before hbefore hbefore
  | dequeueReturn w =>
      rw [exec] at hexec
      split_ifs at hexec
      cases hexec
      exact h.of_work rfl subset_rfl (.inl ⟨rfl, fun _ _ => id⟩)
  | leave w =>
      cases hexec
      exact h.of_work rfl (waiting_setLife n s w (by simp)) (.inl ⟨rfl, fun _ _ => id⟩)
  | returns w =>
      cases hexec
      exact h.of_work rfl (waiting_setLife n s w (by simp)) (.inl ⟨rfl, fun _ _ => id⟩)
  | destroy =>
      cases hexec
      have hb := h.before (by rw [hen.1]; trivial)
      subst hb
      exact ⟨fun hbefore => absurd hbefore id, h.le, fun _ => .inl (card_waiting_le n _), by simp⟩
  | test =>
      have howner : s.owner = .testing := hen
      cases hexec
      refine ⟨fun hbefore => absurd hbefore ?_, h.le, ?_, fun hin => ?_⟩
      · show ¬OwnerPos.BeforeDestroy (if s.alive = 0 then .joining 0 else .broadcasting)
        split_ifs <;> exact id
      · show (if s.alive = 0 then OwnerPos.joining 0 else .broadcasting) = .testing ∨ _ = _ → _
        split_ifs <;> simp
      · -- somebody is inside, and sleeps, so no signal is there to be taken
        have halive : s.alive ≠ 0 := fun hzero => by
          have hin : (if s.alive = 0 then OwnerPos.joining 0 else .broadcasting) =
            .broadcasting := hin
          rw [if_pos hzero] at hin
          cases hin
        obtain ⟨w, hw⟩ := Finset.card_pos.mp (Nat.pos_of_ne_zero (hinv.alive ▸ halive))
        obtain ⟨hlt, hlife⟩ := mem_inside.mp hw
        have hasleep : s.pool.worker w = .asleep := hquiet w hlt hlife
        have hpos : 0 < (waiting n s).card :=
          Finset.card_pos.mpr ⟨w, mem_waiting.mpr ⟨hlt, hlife, .inr hasleep⟩⟩
        rcases h.inRound (.inl howner) with hle | ⟨-, hawake, -⟩
        · have hsame : waiting n { s with owner := if s.alive = 0 then .joining 0 else
              .broadcasting } = waiting n s := rfl
          simp only [isBroadcast, Bool.false_eq_true, if_false, hsame]
          omega
        · exact absurd hasleep (hawake w)
  | broadcast =>
      have howner : s.owner = .broadcasting := hen
      cases hexec
      obtain ⟨hle, hlt⟩ := h.next howner
      refine ⟨fun hbefore => absurd hbefore id, hlt, fun _ => .inr ⟨rfl, fun w hw => ?_, ?_⟩,
        by simp⟩
      · have hw : (if s.pool.worker w = .asleep then WaiterPos.awake else s.pool.worker w) =
          .asleep := hw
        split_ifs at hw with hasleep
        exact hasleep hw
      · rw [waiting_broadcast, isBroadcast, if_pos rfl]
        omega
  | rest =>
      have howner : s.owner = .sleeping := hen
      cases hexec
      exact ⟨fun hbefore => absurd hbefore id, h.le, fun _ => h.inRound (.inr howner), by simp⟩
  | join =>
      obtain ⟨i, hi, howner, -⟩ := hen
      rw [exec, howner] at hexec
      cases hexec
      exact ⟨fun hbefore => absurd hbefore id, h.le, by simp, by simp⟩
  | teardown =>
      cases hexec
      exact ⟨fun hbefore => absurd hbefore id, h.le, by simp, by simp⟩

/-- **Every run** in which the workers are quiet when the counter is looked at. -/
lemma of_run (hn : 0 < n) {l : List (PoolLife α × LifeStep α)} (hrun : (lifeSystem α n).Run l s)
    (hquiet : ∀ q ∈ l, TestsQuietly n q) : RoundsOk n (rounds l) s := by
  refine System.Run.invariant (fun l s => (∀ q ∈ l, TestsQuietly n q) → RoundsOk n (rounds l) s)
    (fun _ => ⟨fun _ => rfl, Nat.zero_le n, ?_, ?_⟩) ?_ hrun hquiet
  · rintro (he | he) <;> cases he
  · rintro he
    cases he
  · intro l s a s' hrun' ih hen hexec hquiet
    rw [List.forall_mem_cons] at hquiet
    have hrounds : rounds ((s, a) :: l) = rounds l + if isBroadcast a then 1 else 0 :=
      List.countP_cons
    rw [hrounds]
    exact step (inv_of_run hn hrun') (ih hquiet.2) hen hquiet.1 hexec

end RoundsOk

/-! ## The result -/

/-- A step of the pool is taken by the owner, who serves, or by a worker in its loop. -/
lemma takes_cases {a : EventStep α} (htakes : s.Takes a) (hen : s.pool.Enabled n a) :
    s.owner = .serving ∨ ∃ w < n, s.life w = .alive := by
  cases a with
  | enqueue p el task => exact .inl htakes.2
  | signal p woken => exact .inl htakes.2
  | loop w => exact .inr ⟨w, hen.1, htakes.1⟩
  | test w => exact .inr ⟨w, hen.1, htakes⟩
  | spurious w => exact .inr ⟨w, hen.1, htakes⟩
  | check w => exact .inr ⟨w, hen.1, htakes⟩
  | dequeue w => exact .inr ⟨w, hen.1, htakes⟩
  | finish w => exact .inr ⟨w, hen.1, htakes⟩
  | exit => exact absurd htakes id
  | broadcast => exact absurd htakes id

/-- Once the counter has been seen at zero, the threads end and are joined, and no more. -/
lemma enabled_of_seenZero (hzero : s.owner.SeenZero) (hleft : ∀ w < n, (s.life w).Left)
    {a : LifeStep α} (hen : s.Enabled n a) : (∃ w, a = .returns w) ∨ a = .join ∨ a = .teardown := by
  have howner : ∀ {owner : OwnerPos}, s.owner = owner → owner.SeenZero := fun he => he ▸ hzero
  have hlife : ∀ {w life}, w < n → s.life w = life → life.Left := fun hw he => he ▸ hleft _ hw
  cases a with
  | create =>
      obtain ⟨i, -, hcreating⟩ := hen
      exact absurd (howner hcreating) id
  | ready => exact absurd (howner hen.1) id
  | enter w => exact absurd (hlife hen.1 hen.2) id
  | work a =>
      rcases takes_cases hen.1 hen.2 with hserving | ⟨w, hw, halive⟩
      · exact absurd (howner hserving) id
      · exact absurd (hlife hw halive) id
  | dequeueReturn w => exact absurd (hlife hen.1 hen.2.1) id
  | leave w => exact absurd (hlife hen.1 hen.2.1) id
  | returns w => exact .inl ⟨w, rfl⟩
  | destroy => exact absurd (howner hen.1) id
  | test => exact absurd (howner hen) id
  | broadcast => exact absurd (howner hen) id
  | rest => exact absurd (howner hen) id
  | join => exact .inr (.inl rfl)
  | teardown => exact .inr (.inr rfl)

/-- **The life of a pool.**  In every state that a pool of at least one worker reaches (and of fewer
than `2 ^ 30`, where a dequeue returns no negative size), its counter is the number of workers in
their loop.  Once `ts_threadpool_init` has returned, every worker has entered its loop.  Once
`ts_threadpool_destroy` has seen the counter at zero, every worker is behind its `ts_atomic_decr`,
and nothing is left but that the threads end and are joined; before the owner frees anything, all
have ended.  A step succeeds, unless a worker whose dequeue has found no task reads the size of the
queue when one has arrived, and runs a task that it does not have.  If the workers are quiet
whenever `ts_threadpool_destroy` looks at the counter, it does not broadcast more often than there
are workers: after the last of these rounds the counter is zero. -/
theorem pool_life (hn : 0 < n) {l : List (PoolLife α × LifeStep α)}
    (hrun : (lifeSystem α n).Run l s) :
    s.alive = (inside n s).card ∧
      (¬s.owner.InInit → ∀ w < n, (s.life w).Entered) ∧
      (s.owner.SeenZero → (∀ w < n, (s.life w).Left) ∧
        ∀ a, s.Enabled n a → (∃ w, a = .returns w) ∨ a = .join ∨ a = .teardown) ∧
      (s.Enabled n .teardown ∨ s.owner = .destroyed →
        (∀ w < n, s.life w = .returned) ∧ ∀ a, s.Enabled n a → a = .teardown) ∧
      (∀ a, s.Enabled n a → (∃ s', exec n a s = .ok s') ∧ ¬s.RunsStale a ∨
        exec n a s = .error .staleTask ∧ s.RunsStale a) ∧
      ((∀ q ∈ l, TestsQuietly n q) → rounds l ≤ n ∧
        (rounds l = n → s.owner = .testing → s.Quiet n → s.alive = 0)) := by
  have hinv := inv_of_run hn hrun
  refine ⟨hinv.alive, hinv.entered, fun hzero => ⟨hinv.seenZero hzero, fun a hen => ?_⟩,
    fun hend => ?_, fun a hen => ?_, fun hquiet => ?_⟩
  · exact enabled_of_seenZero hzero (hinv.seenZero hzero) hen
  · obtain ⟨hzero, hjoined⟩ : s.owner.SeenZero ∧ s.owner.joined n = n := by
      rcases hend with howner | howner
      · rw [show s.owner = .joining n from howner]
        exact ⟨trivial, rfl⟩
      · rw [howner]
        exact ⟨trivial, rfl⟩
    have hreturned : ∀ w < n, s.life w = .returned := fun w hw =>
      hinv.joined w (hw.trans_eq hjoined.symm)
    refine ⟨hreturned, fun a hen => ?_⟩
    rcases enabled_of_seenZero hzero (hinv.seenZero hzero) hen with ⟨w, rfl⟩ | rfl | rfl
    · have hlife := hreturned w hen.1
      simp [hen.2] at hlife
    · obtain ⟨i, hi, howner, -⟩ := hen
      rw [howner] at hjoined
      exact absurd hjoined hi.ne
    · rfl
  · exact (hinv.step hn hen).imp_left fun ⟨s', hexec, _, hnot⟩ => ⟨⟨s', hexec⟩, hnot⟩
  · have hrounds := RoundsOk.of_run hn hrun hquiet
    refine ⟨hrounds.le, fun hall howner hnow => ?_⟩
    by_contra halive
    have hen : s.Enabled n .test := howner
    have hnext := (hrounds.step hinv hen hnow rfl).next (if_neg halive)
    simp only [isBroadcast, Bool.false_eq_true, if_false] at hnext
    omega

/-- A pool of two workers that runs a task, and is destroyed in two rounds: the signal of a
broadcast is taken by one of the workers, and the other one goes back to sleep. -/
def twoWorkers : List (LifeStep ℕ) :=
  [.create, .create, .enter 1, .enter 0, .ready] ++
  [.loop 0, .loop 1, .test 0, .test 1, .enqueue ownerId 0 7, .signal ownerId (some 0), .test 0,
    .check 0, .dequeue 0, .finish 0, .dequeue 0].map .work ++
  [.dequeueReturn 0, .work (.loop 0), .work (.test 0), .destroy, .test, .broadcast,
    .work (.test 0), .work (.test 1), .work (.check 0), .leave 0, .rest, .test, .broadcast,
    .work (.test 1), .work (.check 1), .leave 1, .returns 0, .rest, .test, .join, .returns 1,
    .join]

theorem pool_life_sample :
    ∃ l, ∃ s : PoolLife ℕ, (lifeSystem ℕ 2).Run l s ∧ s.Enabled 2 .teardown ∧ rounds l = 2 ∧
      s.alive = (inside 2 s).card ∧ (∀ w < 2, s.life w = .returned) ∧ rounds l ≤ 2 := by
  obtain ⟨l, s, hrun, htest⟩ := System.exists_run_of_execAll (M := lifeSystem ℕ 2)
    (fun l s => decide (s.Enabled 2 .teardown ∧ rounds l = 2 ∧ ∀ q ∈ l, TestsQuietly 2 q))
    twoWorkers (by decide +kernel)
  obtain ⟨hend, hrounds, hquiet⟩ := of_decide_eq_true htest
  obtain ⟨halive, -, -, hreturned, -, hle⟩ := pool_life (by norm_num) hrun
  exact ⟨l, s, hrun, hend, hrounds, halive, (hreturned (.inl hend)).1, (hle hquiet).1⟩

/-- A dequeue that finds the queue empty, and a task that arrives before it returns. -/
example : ∃ l, ∃ s : PoolLife ℕ, (lifeSystem ℕ 1).Run l s ∧ s.Enabled 1 (.dequeueReturn 0) ∧
    s.RunsStale (.dequeueReturn 0) := by
  obtain ⟨l, s, hrun, htest⟩ := System.exists_run_of_execAll (M := lifeSystem ℕ 1)
    (fun _ s => decide (s.Enabled 1 (.dequeueReturn 0) ∧ 0 < s.pool.queue.readSize))
    ([.create, .enter 0, .ready] ++ [.loop 0, .enqueue ownerId 0 7, .signal ownerId none, .test 0,
      .check 0, .dequeue 0, .finish 0, .dequeue 0, .enqueue ownerId 1 8].map .work)
    (by decide +kernel)
  obtain ⟨hen, hstale⟩ := of_decide_eq_true htest
  exact ⟨l, s, hrun, hen, hstale⟩

end PoolLife

end TsEngine
