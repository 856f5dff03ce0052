import TsEngine.Tasks.QueueRuns

/-!
# The thread pool

`ts_threadpool_t`: the queue, the flag of its event, and the workers' way through
`ts_threadpool_loop`.  A push is one step here, for nothing that follows its critical section
reads the queue; `Tasks/Wakeup` takes it apart to follow the flag.

`ts_threadpool_push` drops the result of the enqueue and returns `0`.  So the caller is told that a
task is accepted where the queue was full and the task is gone; `pool_keeps_tasks` says that this
is the only way a push misleads its caller, and that without it, and with truthful return values
of the dequeues (`ReadsTruly`), the tasks accepted are those run, those being run and those queued.
-/

namespace TsEngine

open Framework

/-- Where a worker is in `ts_threadpool_loop`. -/
inductive WorkerPos
  /-- In front of `while (!tp->exit)`. -/
  | looping
  /-- In `ts_tpevent_wait`. -/
  | waiting
  /-- In front of `if (tp->exit)`. -/
  | checking
  /-- In the loop around the dequeue. -/
  | draining
  | done
  deriving DecidableEq

/-- `ts_threadpool_t`. -/
structure ThreadPool (α : Type) where
  threads : QueueThreads α
  threadNum : ℕ
  signal : Bool
  exit : Bool
  pos : ThreadId → WorkerPos

/-- The steps of the callers, the workers and `ts_threadpool_destroy`. -/
inductive PoolStep (α : Type)
  | push (el : ElemPtr) (task : α)
  | loop (w : ThreadId)
  | wake (w : ThreadId)
  | check (w : ThreadId)
  | dequeue (w : ThreadId)
  | dequeueReturn (w : ThreadId)
  | run (w : ThreadId)
  | exit
  | broadcast

namespace ThreadPool

variable {α : Type}

/-- `ts_threadpool_init`, once its workers are alive. -/
def init (threadNum : ℕ) : ThreadPool α where
  threads := .init (threadNum * 2 % 2 ^ 32)
  threadNum := threadNum
  signal := false
  exit := false
  pos _ := .looping

def setPos (tp : ThreadPool α) (w : ThreadId) (pos : WorkerPos) : ThreadPool α :=
  { tp with pos := Function.update tp.pos w pos }

/-- `ts_threadpool_push`, with the element of the queue at `el`. -/
def push (tp : ThreadPool α) (el : ElemPtr) (task : α) :
    Except Queue.Error (ThreadPool α × ℤ) := do
  let (queue, _) ← tp.threads.queue.enqueue el task false
  let tp := { tp with threads := { tp.threads with queue } }
  return ({ tp with signal := true }, 0)

/-- A worker whose dequeue has returned nothing positive leaves the inner loop. -/
def leave (tp : ThreadPool α) (w : ThreadId) : ThreadPool α :=
  tp.setPos w (if tp.threads.pc w = .ready then .looping else .draining)

/-- The effect of a step. -/
def exec : PoolStep α → ThreadPool α → Except Queue.Error (ThreadPool α)
  | .push el task, tp => (tp.push el task).map Prod.fst
  | .loop w, tp => .ok (tp.setPos w (if tp.exit then .done else .waiting))
  | .wake w, tp => .ok ({ tp with signal := false }.setPos w .checking)
  | .check w, tp => .ok (tp.setPos w (if tp.exit then .done else .draining))
  | .dequeue w, tp => (QueueThreads.exec (.dequeue w) tp.threads).map fun threads =>
      { tp with threads }.leave w
  | .dequeueReturn w, tp => (QueueThreads.exec (.dequeueReturn w) tp.threads).map fun threads =>
      { tp with threads }.leave w
  | .run w, tp => (QueueThreads.exec (.run w) tp.threads).map fun threads => { tp with threads }
  | .exit, tp => .ok { tp with exit := true }
  | .broadcast, tp => .ok { tp with signal := true }

/-- When a step may be taken. -/
def Enabled (tp : ThreadPool α) : PoolStep α → Prop
  | .push el _ => tp.threads.queue.elements el = none
  | .loop w => w < tp.threadNum ∧ tp.pos w = .looping
  | .wake w => w < tp.threadNum ∧ tp.pos w = .waiting ∧ tp.signal = true
  | .check w => w < tp.threadNum ∧ tp.pos w = .checking
  | .dequeue w => w < tp.threadNum ∧ tp.pos w = .draining ∧ tp.threads.Enabled (.dequeue w)
  | .dequeueReturn w =>
      w < tp.threadNum ∧ tp.pos w = .draining ∧ tp.threads.Enabled (.dequeueReturn w)
  | .run w => w < tp.threadNum ∧ tp.pos w = .draining ∧ tp.threads.Enabled (.run w)
  | .exit => True
  | .broadcast => tp.exit = true

instance (tp : ThreadPool α) (a : PoolStep α) : Decidable (tp.Enabled a) :=
  match a with
  | .push el _ => decidable_of_iff ((tp.threads.queue.elements el).isNone = true)
      Option.isNone_iff_eq_none
  | .loop w => inferInstanceAs (Decidable (w < tp.threadNum ∧ tp.pos w = .looping))
  | .wake w => inferInstanceAs (Decidable (w < tp.threadNum ∧ tp.pos w = .waiting ∧ _ = true))
  | .check w => inferInstanceAs (Decidable (w < tp.threadNum ∧ tp.pos w = .checking))
  | .dequeue w => inferInstanceAs (Decidable (_ < _ ∧ _ = _ ∧ tp.threads.Enabled (.dequeue w)))
  | .dequeueReturn w =>
      inferInstanceAs (Decidable (_ < _ ∧ _ = _ ∧ tp.threads.Enabled (.dequeueReturn w)))
  | .run w => inferInstanceAs (Decidable (_ < _ ∧ _ = _ ∧ tp.threads.Enabled (.run w)))
  | .exit => inferInstanceAs (Decidable True)
  | .broadcast => inferInstanceAs (Decidable (tp.exit = true))

/-- The tasks that workers are running. -/
def inFlight (tp : ThreadPool α) : List (Option α) :=
  (List.range tp.threadNum).flatMap tp.threads.pending

end ThreadPool

/-- The pool of `threadNum` workers. -/
def poolSystem (α : Type) (threadNum : ℕ) : System (ThreadPool α) (PoolStep α) Queue.Error where
  init := .init threadNum
  enabled _ tp a := tp.Enabled a
  exec := ThreadPool.exec

instance (α : Type) (threadNum : ℕ) (l : List (ThreadPool α × PoolStep α)) (tp : ThreadPool α)
    (a : PoolStep α) : Decidable ((poolSystem α threadNum).enabled l tp a) :=
  inferInstanceAs (Decidable (tp.Enabled a))

/-! ## What a history says -/

section Histories

variable {α : Type}

/-- The step of the queue's threads in a step of a worker. -/
def PoolStep.queueStep : PoolStep α → Option (QueueStep α)
  | .dequeue w => some (.dequeue w)
  | .dequeueReturn w => some (.dequeueReturn w)
  | .run w => some (.run w)
  | _ => none

/-- The steps of the queue's threads in a history. -/
def queueSteps (l : List (ThreadPool α × PoolStep α)) : List (QueueThreads α × QueueStep α) :=
  l.filterMap fun q => q.2.queueStep.map fun a => (q.1.threads, a)

/-- The task of a push that returns a value that is not negative. -/
def pushedBy : ThreadPool α × PoolStep α → Option α
  | (tp, .push el task) =>
      match tp.push el task with
      | .ok (_, r) => if 0 ≤ r then some task else none
      | .error _ => none
  | _ => none

/-- The tasks accepted, as far as their callers can see, oldest first. -/
def pushed (l : List (ThreadPool α × PoolStep α)) : List α := (l.filterMap pushedBy).reverse

/-- A push tells its caller whether it has appended its task. -/
def PushRight : ThreadPool α × PoolStep α → Prop
  | (tp, .push el task) => ∀ tp' r xs, tp.push el task = .ok (tp', r) →
      tp.threads.queue.Represents xs →
      (0 ≤ r ↔ tp'.threads.queue.Represents (xs ++ [task]))
  | _ => True

/-- A push finds room in the queue. -/
def FindsRoom : ThreadPool α × PoolStep α → Prop
  | (tp, .push _ _) => tp.threads.queue.isFull = false
  | _ => True

instance : DecidablePred (FindsRoom (α := α)) := fun q =>
  match q with
  | (tp, .push _ _) => inferInstanceAs (Decidable (tp.threads.queue.isFull = false))
  | (_, .loop _) | (_, .wake _) | (_, .check _) | (_, .dequeue _) | (_, .dequeueReturn _)
  | (_, .run _) | (_, .exit) | (_, .broadcast) => inferInstanceAs (Decidable True)

/-- What callers and workers rely on, after the history `l`. -/
structure PoolSafe (l : List (ThreadPool α × PoolStep α)) (tp : ThreadPool α) : Prop where
  pushes : ∀ q ∈ l, PushRight q
  /-- The tasks accepted are those run, those being run and those queued, each once. -/
  tasks : ∃ xs, tp.threads.queue.Represents xs ∧
    ((pushed l).map some).Perm
      ((ran (queueSteps l)).map Prod.snd ++ tp.inFlight ++ xs.map some)

end Histories

/-! ## Counting by threads -/

section Counting

variable {β α : Type} {n : ℕ}

/-- The entries of finitely many threads, thread by thread. -/
lemma perm_flatMap_ofThread (l : List (ThreadId × β)) (h : ∀ e ∈ l, e.1 < n) :
    (l.map Prod.snd).Perm ((List.range n).flatMap fun t => ofThread t l) := by
  induction n generalizing l with
  | zero =>
      obtain rfl : l = [] := List.eq_nil_iff_forall_not_mem.mpr fun e he => by simpa using h e he
      rfl
  | succ n ih =>
      have hsplit := (List.filter_append_perm (fun e : ThreadId × β => decide (e.1 < n)) l).symm
      have hlow := ih (l.filter fun e => e.1 < n) fun e he => by
        simpa using (List.mem_filter.mp he).2
      have hsame : ∀ t ∈ List.range n, ofThread t (l.filter fun e => e.1 < n) = ofThread t l := by
        intro t ht
        rw [ofThread, ofThread, List.filter_filter]
        refine congrArg _ (List.filter_congr fun e _ => ?_)
        have hlt : t < n := List.mem_range.mp ht
        by_cases he : e.1 = t
        · simp [he, hlt]
        · simp [he]
      have hhigh : (l.filter fun e => !decide (e.1 < n)).map Prod.snd = ofThread n l := by
        refine congrArg _ (List.filter_congr fun e he => ?_)
        have hle : e.1 ≤ n := Nat.lt_succ_iff.mp (h e he)
        by_cases hn : e.1 = n
        · simp [hn]
        · have hlt : e.1 < n := lt_of_le_of_ne hle hn
          simp [hn, hlt]
      rw [List.range_succ, List.flatMap_append, List.flatMap_singleton, ← hhigh]
      rw [List.flatMap_congr hsame] at hlow
      apply (hsplit.map Prod.snd).trans
      rw [List.map_append]
      exact hlow.append_right _

/-- **What finitely many threads ran and have pending** is what was stored for them. -/
lemma Fresh.perm {pending : ThreadId → List (Option α)} {sto : List (ThreadId × α)}
    {rn : List (ThreadId × Option α)} (h : Fresh pending sto rn) (hsto : ∀ e ∈ sto, e.1 < n)
    (hrn : ∀ e ∈ rn, e.1 < n) :
    ((sto.map Prod.snd).map some).Perm (rn.map Prod.snd ++ (List.range n).flatMap pending) := by
  have hstored := (perm_flatMap_ofThread sto hsto).map some
  rw [List.map_flatMap, List.flatMap_congr fun t _ => h t] at hstored
  apply hstored.trans
  refine (List.flatMap_append_perm (List.range n) (fun t => ofThread t rn) pending).symm.trans ?_
  exact (perm_flatMap_ofThread rn hrn).symm.append_right _

end Counting

/-! ## The steps -/

section Results

variable {α : Type} {n : ℕ} {l : List (ThreadPool α × PoolStep α)} {tp : ThreadPool α}

/-- The invariant of the pool: the threads' accounts, in which the tasks accepted are those that
were pushed if every push found room, and the entries of the workers only. -/
structure PoolInv (n : ℕ) (l : List (ThreadPool α × PoolStep α)) (tp : ThreadPool α) : Prop where
  threadNum : tp.threadNum = n
  accounts : ∃ acc, Accounts acc (queueSteps l) tp.threads ∧
    ((∀ q ∈ l, FindsRoom q) → acc = pushed l)
  stored_lt : ∀ e ∈ stored (queueSteps l), e.1 < n
  ran_lt : ∀ e ∈ ran (queueSteps l), e.1 < n

lemma pushed_cons (q : ThreadPool α × PoolStep α) (l) :
    pushed (q :: l) = pushed l ++ (pushedBy q).toList := by
  cases h : pushedBy q <;> simp [pushed, h]

lemma queueSteps_cons (tp : ThreadPool α) (a : PoolStep α) (l) : queueSteps ((tp, a) :: l) =
    (a.queueStep.map fun b => (tp.threads, b)).toList ++ queueSteps l := by
  cases h : a.queueStep <;> simp [queueSteps, h]

lemma poolInv_init (n : ℕ) : PoolInv n [] (.init n : ThreadPool α) :=
  ⟨rfl, ⟨[], accounts_init _, fun _ => rfl⟩, by simp [queueSteps, stored],
    by simp [queueSteps, ran]⟩

/-- **A push** returns `0`, and appends its task if there is room. -/
lemma Fifo.push {acc del : List α} {el : ElemPtr} (h : Fifo tp.threads.queue acc del)
    (hel : tp.threads.queue.elements el = none) (task : α) :
    ∃ queue, tp.push el task =
        .ok ({ tp with threads := { tp.threads with queue := queue }, signal := true }, 0) ∧
      Fifo queue (acc ++ if tp.threads.queue.isFull = false then [task] else []) del := by
  obtain ⟨queue, heq, -, hfifo⟩ := h.enqueue hel task false
  refine ⟨queue, ?_, by simpa using hfifo⟩
  exact bind_eq_ok.mpr ⟨_, heq, rfl⟩

/-- **When a push is right**: exactly if it finds room. -/
lemma Fifo.pushRight_iff {acc del : List α} {el : ElemPtr} {task : α}
    (h : Fifo tp.threads.queue acc del) (hel : tp.threads.queue.elements el = none) :
    PushRight (tp, .push el task) ↔ FindsRoom (tp, .push el task) := by
  obtain ⟨xs, hrep, -⟩ := h
  obtain ⟨queue, heq, -, hrep'⟩ := hrep.enqueue hel task false
  have hpush : tp.push el task = .ok
      ({ tp with threads := { tp.threads with queue := queue }, signal := true }, 0) := by
    exact bind_eq_ok.mpr ⟨_, heq, rfl⟩
  simp only [PushRight, FindsRoom, hpush, Except.ok.injEq, Prod.mk.injEq]
  constructor
  · intro hright
    by_contra hfull
    -- a full queue stays as it was
    rw [if_neg (by simpa using hfull)] at hrep'
    have happended := (hright _ 0 xs ⟨rfl, rfl⟩ hrep).mp le_rfl
    simpa using hrep'.unique happended
  · rintro hroom tp' r ys ⟨rfl, rfl⟩ hrep₁
    obtain rfl := hrep.unique hrep₁
    rw [if_pos (by simp [hroom])] at hrep'
    simpa using hrep'

/-- A step of a worker that touches the queue. -/
lemma PoolInv.queueStep (h : PoolInv n l tp) {a : PoolStep α} {b : QueueStep α} {w : ThreadId}
    (hw : w < n) (ha : a.queueStep = some b) (hb : tp.threads.Enabled b)
    (hstored : ∀ e ∈ storedBy (tp.threads, b), e.1 = w)
    (hran : ∀ e ∈ ranBy (tp.threads, b), e.1 = w)
    (hpushed : pushedBy (tp, a) = none) (haccepted : acceptedBy (tp.threads, b) = none) :
    ∃ threads, QueueThreads.exec b tp.threads = .ok threads ∧
      ∀ tp' : ThreadPool α, tp'.threadNum = n → tp'.threads = threads →
        PoolInv n ((tp, a) :: l) tp' := by
  obtain ⟨acc, haccounts, hacc⟩ := h.accounts
  obtain ⟨threads, hexec, haccounts'⟩ := haccounts.step hb
  have hsteps : queueSteps ((tp, a) :: l) = (tp.threads, b) :: queueSteps l := by
    simp [queueSteps_cons, ha]
  rw [haccepted, Option.toList_none, List.append_nil] at haccounts'
  refine ⟨threads, hexec, fun tp' hnum hthreads => ⟨hnum, ⟨acc, ?_, fun hroom => ?_⟩, ?_, ?_⟩⟩
  · rwa [hsteps, hthreads]
  · rw [pushed_cons, hpushed]
    simpa using hacc fun q hq => hroom q (List.mem_cons_of_mem _ hq)
  · intro e he
    rw [hsteps, stored_cons, List.mem_append, Option.mem_toList] at he
    exact he.elim (h.stored_lt e) fun he => (hstored e he).symm ▸ hw
  · intro e he
    rw [hsteps, ran_cons, List.mem_append, Option.mem_toList] at he
    exact he.elim (h.ran_lt e) fun he => (hran e he).symm ▸ hw

/-- A step that leaves the queue and its threads alone. -/
lemma PoolInv.neutral (h : PoolInv n l tp) {a : PoolStep α} {tp' : ThreadPool α}
    (ha : a.queueStep = none) (hpushed : pushedBy (tp, a) = none)
    (hthreads : tp'.threads = tp.threads) (hnum : tp'.threadNum = tp.threadNum) :
    PoolInv n ((tp, a) :: l) tp' := by
  obtain ⟨acc, haccounts, hacc⟩ := h.accounts
  have hsteps : queueSteps ((tp, a) :: l) = queueSteps l := by simp [queueSteps_cons, ha]
  refine ⟨hnum.trans h.threadNum, ⟨acc, ?_, fun hroom => ?_⟩, ?_, ?_⟩
  · rwa [hsteps, hthreads]
  · rw [pushed_cons, hpushed]
    simpa using hacc fun q hq => hroom q (List.mem_cons_of_mem _ hq)
  · rw [hsteps]
    exact h.stored_lt
  · rw [hsteps]
    exact h.ran_lt

/-- **One step.** -/
lemma PoolInv.step (h : PoolInv n l tp) {a : PoolStep α} (hen : tp.Enabled a) :
    ∃ tp', ThreadPool.exec a tp = .ok tp' ∧ PoolInv n ((tp, a) :: l) tp' := by
  cases a with
  | push el task =>
      obtain ⟨acc, haccounts, hacc⟩ := h.accounts
      obtain ⟨queue, hpush, hfifo⟩ := haccounts.fifo.push hen task
      have hexec : ThreadPool.exec (.push el task) tp = .ok
          { tp with threads := { tp.threads with queue := queue }, signal := true } := by
        simp only [ThreadPool.exec, hpush, Except.map]
      refine ⟨_, hexec, h.threadNum, ⟨_, ⟨hfifo, haccounts.fresh⟩, fun hroom => ?_⟩,
        h.stored_lt, h.ran_lt⟩
      have hfree : tp.threads.queue.isFull = false := hroom _ List.mem_cons_self
      rw [pushed_cons, if_pos hfree, hacc fun q hq => hroom q (List.mem_cons_of_mem _ hq)]
      simp [pushedBy, hpush]
  | dequeue w =>
      obtain ⟨hw, -, hq⟩ := hen
      have hstored : ∀ e ∈ storedBy (tp.threads, .dequeue w), e.1 = w := by
        intro e he
        simp only [storedBy] at he
        split at he
        · exact (Option.some.inj he) ▸ rfl
        · simp at he
      obtain ⟨threads, hexec, hinv⟩ := h.queueStep (a := .dequeue w) (h.threadNum ▸ hw) rfl hq
        hstored (by simp [ranBy]) rfl rfl
      have hstep : ThreadPool.exec (.dequeue w) tp = .ok ({ tp with threads }.leave w) := by
        simp only [ThreadPool.exec, hexec, Except.map]
      exact ⟨_, hstep, hinv _ h.threadNum rfl⟩
  | dequeueReturn w =>
      obtain ⟨hw, -, hq⟩ := hen
      obtain ⟨threads, hexec, hinv⟩ := h.queueStep (a := .dequeueReturn w) (h.threadNum ▸ hw) rfl
        hq (by simp [storedBy]) (by simp [ranBy]) rfl rfl
      have hstep : ThreadPool.exec (.dequeueReturn w) tp = .ok ({ tp with threads }.leave w) := by
        simp only [ThreadPool.exec, hexec, Except.map]
      exact ⟨_, hstep, hinv _ h.threadNum rfl⟩
  | run w =>
      obtain ⟨hw, -, hq⟩ := hen
      obtain ⟨threads, hexec, hinv⟩ := h.queueStep (a := .run w) (h.threadNum ▸ hw) rfl hq
        (by simp [storedBy]) (by simp [ranBy]) rfl rfl
      have hstep : ThreadPool.exec (.run w) tp = .ok { tp with threads } := by
        simp only [ThreadPool.exec, hexec, Except.map]
      exact ⟨_, hstep, hinv _ h.threadNum rfl⟩
  | loop => exact ⟨_, rfl, h.neutral rfl rfl rfl rfl⟩
  | wake => exact ⟨_, rfl, h.neutral rfl rfl rfl rfl⟩
  | check => exact ⟨_, rfl, h.neutral rfl rfl rfl rfl⟩
  | exit => exact ⟨_, rfl, h.neutral rfl rfl rfl rfl⟩
  | broadcast => exact ⟨_, rfl, h.neutral rfl rfl rfl rfl⟩

/-- **Every run.** -/
lemma poolInv_of_run (hrun : (poolSystem α n).Run l tp) : PoolInv n l tp :=
  System.Run.invariant_of_ok (M := poolSystem α n) (PoolInv n) (poolInv_init n)
    (fun h hen => h.step hen) hrun

/-! ## The result -/

/-- **When the pool keeps its tasks.**  No step of a pool fails.  In any state it can reach, a push
is right exactly if it finds room; and if every push found room and every dequeue could take its
return value from the counter, the tasks accepted are those run, those being run and those
queued. -/
theorem pool_keeps_tasks (hrun : (poolSystem α n).Run l tp) :
    (∀ a, tp.Enabled a → ∃ tp', ThreadPool.exec a tp = .ok tp') ∧
    (∀ el task, tp.Enabled (.push el task) →
      (PushRight (tp, .push el task) ↔ FindsRoom (tp, .push el task))) ∧
    ((∀ q ∈ l, FindsRoom q) → (∀ q ∈ queueSteps l, ReadsTruly q) → PoolSafe l tp) := by
  have h := poolInv_of_run hrun
  obtain ⟨acc, haccounts, hacc⟩ := h.accounts
  refine ⟨fun a hen => ?_, fun el task hen => haccounts.fifo.pushRight_iff hen,
    fun hroom htrue => ⟨fun q hq => ?_, ?_⟩⟩
  · obtain ⟨tp', hexec, -⟩ := h.step hen
    exact ⟨tp', hexec⟩
  · obtain ⟨tp₁, a⟩ := q
    cases a with
    | push el task =>
        obtain ⟨l₁, l₂, tp', rfl, hrun₁, hen, -⟩ := System.Run.split hrun hq
        obtain ⟨acc₁, haccounts₁, -⟩ := (poolInv_of_run hrun₁).accounts
        exact (haccounts₁.fifo.pushRight_iff hen).mpr (hroom _ hq)
    | _ => trivial
  · obtain ⟨xs, hrep, hsplit⟩ := haccounts.fifo
    refine ⟨xs, hrep, ?_⟩
    rw [← hacc hroom, hsplit, List.map_append, ThreadPool.inFlight, h.threadNum]
    exact ((haccounts.fresh htrue).perm h.stored_lt h.ran_lt).append_right _

/-- `pool_keeps_tasks` with one worker and two tasks, of which it has run the first. -/
theorem pool_keeps_tasks_sample :
    ∃ l tp, (poolSystem ℕ 1).Run l tp ∧ pushed l = [5, 6] ∧
      ran (queueSteps l) = [(0, some 5)] ∧ PoolSafe l tp := by
  obtain ⟨l, tp, hrun, htest⟩ := System.exists_run_of_execAll (M := poolSystem ℕ 1)
    (fun l _ => decide (pushed l = [5, 6] ∧ ran (queueSteps l) = [(0, some 5)] ∧
      (∀ q ∈ l, FindsRoom q) ∧ ∀ q ∈ queueSteps l, ReadsTruly q))
    [.loop 0, .push 0 5, .wake 0, .push 1 6, .check 0, .dequeue 0, .run 0] (by decide +kernel)
  obtain ⟨hpushed, hran, hroom, htrue⟩ := of_decide_eq_true htest
  exact ⟨l, tp, hrun, hpushed, hran, (pool_keeps_tasks hrun).2.2 hroom htrue⟩

/-- **An accepted task that is gone**: the third push into the queue of a single worker, which has
room for two, returns `0`. -/
theorem push_drops_task :
    ∃ l tp, (poolSystem ℕ 1).Run l tp ∧ pushed l = [5, 6, 7] ∧ ran (queueSteps l) = [] ∧
      tp.inFlight = [] ∧ tp.threads.queue.size = 2 ∧ ¬PoolSafe l tp := by
  obtain ⟨l, tp, hrun, htest⟩ := System.exists_run_of_execAll (M := poolSystem ℕ 1)
    (fun l tp => decide (pushed l = [5, 6, 7] ∧ ran (queueSteps l) = [] ∧ tp.inFlight = [] ∧
      tp.threads.queue.size = 2))
    [.push 0 5, .push 1 6, .push 2 7] (by decide +kernel)
  obtain ⟨hpushed, hran, hflight, hsize⟩ := of_decide_eq_true htest
  refine ⟨l, tp, hrun, hpushed, hran, hflight, hsize, fun hsafe => ?_⟩
  obtain ⟨xs, hrep, hperm⟩ := hsafe.tasks
  -- three tasks accepted, none run, and two queued
  have hlength := hperm.length_eq
  rw [hpushed, hran, hflight] at hlength
  have hxs : xs.length = 3 := by simpa using hlength.symm
  rw [hrep.size, hxs] at hsize
  omega

end Results

end TsEngine
