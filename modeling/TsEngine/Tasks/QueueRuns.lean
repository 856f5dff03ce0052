import TsEngine.Framework.Runs
import TsEngine.Tasks.Queue

/-!
# The queue between its threads

Any number of threads enqueue and dequeue.  A critical section is one step; the read of
`queue->size` that `return queue->size` makes after the unlock is another.  A thread that dequeues
is a loop `while (dequeue(&queue, &task) > 0)` around the handler of `task`, as in
`ts_engine_input_processor` and `ts_threadpool_loop`.

Items are neither lost nor reordered in any run: what was accepted is what was delivered followed
by what is queued (`Accounts.fifo`).  The return value is another matter.  It is read after the
unlock, where other threads may have been at work, and `queue_safe_iff` says for which runs it
tells whether an item was stored.
-/

namespace TsEngine

open Framework

/-- A thread that uses a queue. -/
abbrev ThreadId := ℕ

/-- Where a thread is: at the start of a call, behind the unlock of an enqueue or of a dequeue
that found nothing, or in the body of the loop around a dequeue. -/
inductive QueuePc
  | ready
  | enqueued
  | emptied
  | body
  deriving DecidableEq

/-- The queue, and each thread's position and its variable `task`, unset at first. -/
structure QueueThreads (α : Type) where
  queue : Queue α
  pc : ThreadId → QueuePc
  task : ThreadId → Option α

/-- The steps of the threads. -/
inductive QueueStep (α : Type)
  /-- `enqueue(queue, data, force)` up to the unlock, with an element at `el`. -/
  | enqueue (t : ThreadId) (el : ElemPtr) (data : α) (force : Bool)
  /-- The `return queue->size` of an enqueue. -/
  | enqueueReturn (t : ThreadId)
  /-- `dequeue(queue, &task)` up to the unlock. -/
  | dequeue (t : ThreadId)
  /-- The `return queue->size` of a dequeue. -/
  | dequeueReturn (t : ThreadId)
  /-- The body of the loop: the handler of `task`. -/
  | run (t : ThreadId)

namespace QueueThreads

variable {α : Type}

def init (maxSize : ℕ) : QueueThreads α := ⟨.init maxSize, fun _ => .ready, fun _ => none⟩

def setPc (s : QueueThreads α) (t : ThreadId) (pc : QueuePc) : QueueThreads α :=
  { s with pc := Function.update s.pc t pc }

@[simp]
lemma setPc_queue (s : QueueThreads α) (t : ThreadId) (pc : QueuePc) :
    (s.setPc t pc).queue = s.queue := rfl

/-- The condition of the loop, once the dequeue has returned `r`. -/
def loop (s : QueueThreads α) (t : ThreadId) (r : ℤ) : QueueThreads α :=
  s.setPc t (if 0 < r then .body else .ready)

@[simp]
lemma loop_queue (s : QueueThreads α) (t : ThreadId) (r : ℤ) : (s.loop t r).queue = s.queue := rfl

/-- The effect of a step. -/
def exec : QueueStep α → QueueThreads α → Except Queue.Error (QueueThreads α)
  | .enqueue t el data force, s => do
      let (queue, accepted) ← s.queue.enqueue el data force
      return { s with queue }.setPc t (if accepted then .enqueued else .ready)
  | .enqueueReturn t, s => .ok (s.setPc t .ready)
  | .dequeue t, s => do
      match ← s.queue.dequeue with
      | (queue, some (x, r)) =>
          return { s with queue, task := Function.update s.task t (some x) }.loop t r
      | (queue, none) => return { s with queue }.setPc t .emptied
  | .dequeueReturn t, s => .ok (s.loop t s.queue.readSize)
  | .run t, s => .ok (s.setPc t .ready)

/-- When a step may be taken: the allocator gives an address that is not in use. -/
def Enabled (s : QueueThreads α) : QueueStep α → Prop
  | .enqueue t el _ _ => s.pc t = .ready ∧ s.queue.elements el = none
  | .enqueueReturn t => s.pc t = .enqueued
  | .dequeue t => s.pc t = .ready
  | .dequeueReturn t => s.pc t = .emptied
  | .run t => s.pc t = .body

instance (s : QueueThreads α) (a : QueueStep α) : Decidable (s.Enabled a) :=
  match a with
  | .enqueue _ el _ _ =>
      have : Decidable (s.queue.elements el = none) :=
        decidable_of_iff _ Option.isNone_iff_eq_none
      inferInstanceAs (Decidable (_ ∧ _))
  | .enqueueReturn t => inferInstanceAs (Decidable (s.pc t = .enqueued))
  | .dequeue t => inferInstanceAs (Decidable (s.pc t = .ready))
  | .dequeueReturn t => inferInstanceAs (Decidable (s.pc t = .emptied))
  | .run t => inferInstanceAs (Decidable (s.pc t = .body))

/-- What the body of a thread's loop is about to run. -/
def pending (s : QueueThreads α) (t : ThreadId) : List (Option α) :=
  if s.pc t = .body then [s.task t] else []

end QueueThreads

/-- The threads of a queue, taking turns in any order. -/
def queueSystem (α : Type) (maxSize : ℕ) : System (QueueThreads α) (QueueStep α) Queue.Error where
  init := .init maxSize
  enabled _ s a := s.Enabled a
  exec := QueueThreads.exec

instance (α : Type) (maxSize : ℕ) (l : List (QueueThreads α × QueueStep α)) (s : QueueThreads α)
    (a : QueueStep α) : Decidable ((queueSystem α maxSize).enabled l s a) :=
  inferInstanceAs (Decidable (s.Enabled a))

/-! ## What a history says -/

section Histories

variable {α : Type}

/-- The item that a step adds to the queue. -/
def acceptedBy : QueueThreads α × QueueStep α → Option α
  | (s, .enqueue _ _ data force) => if !s.queue.isFull || force then some data else none
  | _ => none

/-- The item that a step stores in `*data`, and the thread it does so for. -/
def storedBy : QueueThreads α × QueueStep α → Option (ThreadId × α)
  | (s, .dequeue t) =>
      match s.queue.dequeue with
      | .ok (_, some (x, _)) => some (t, x)
      | _ => none
  | _ => none

/-- What a step runs. -/
def ranBy : QueueThreads α × QueueStep α → Option (ThreadId × Option α)
  | (s, .run t) => some (t, s.task t)
  | _ => none

/-- The call of dequeue that a step completes: whether it stored an item, and what it returns. -/
def returnedBy : QueueThreads α × QueueStep α → Option (Bool × ℤ)
  | (s, .dequeue _) =>
      match s.queue.dequeue with
      | .ok (_, some (_, r)) => some (true, r)
      | _ => none
  | (s, .dequeueReturn _) => some (false, s.queue.readSize)
  | _ => none

/-- The items accepted in a history, oldest first. -/
def accepted (l : List (QueueThreads α × QueueStep α)) : List α := (l.filterMap acceptedBy).reverse

/-- The items stored, oldest first. -/
def stored (l : List (QueueThreads α × QueueStep α)) : List (ThreadId × α) :=
  (l.filterMap storedBy).reverse

/-- The tasks run, oldest first. -/
def ran (l : List (QueueThreads α × QueueStep α)) : List (ThreadId × Option α) :=
  (l.filterMap ranBy).reverse

/-- The entries of one thread. -/
def ofThread {β : Type} (t : ThreadId) (l : List (ThreadId × β)) : List β :=
  (l.filter fun q => q.1 = t).map Prod.snd

end Histories

/-! ## First in, first out -/

section Fifo

variable {α : Type} {q : Queue α} {acc del : List α} {el : ElemPtr}

/-- Of the items accepted, those delivered came first, in order, and the others are queued. -/
def Fifo (q : Queue α) (acc del : List α) : Prop := ∃ xs, q.Represents xs ∧ acc = del ++ xs

lemma fifo_init (maxSize : ℕ) : Fifo (.init maxSize : Queue α) [] [] :=
  ⟨[], Queue.represents_init maxSize, rfl⟩

/-- An enqueue keeps the order. -/
lemma Fifo.enqueue (h : Fifo q acc del) (hel : q.elements el = none) (x : α) (force : Bool) :
    ∃ q', q.enqueue el x force = .ok (q', !q.isFull || force) ∧ q'.maxSize = q.maxSize ∧
      Fifo q' (acc ++ if (!q.isFull || force) = true then [x] else []) del := by
  obtain ⟨xs, hrep, rfl⟩ := h
  obtain ⟨q', heq, hmax, hrep'⟩ := hrep.enqueue hel x force
  refine ⟨q', heq, hmax, _, hrep', ?_⟩
  split_ifs <;> simp

/-- A dequeue delivers the item that is next. -/
lemma Fifo.dequeue (h : Fifo q acc del) (hsize : 0 < q.size) :
    ∃ x q', q.dequeue = .ok (q', some (x, toInt32 q.size)) ∧ q'.maxSize = q.maxSize ∧
      Fifo q' acc (del ++ [x]) := by
  obtain ⟨xs, hrep, rfl⟩ := h
  obtain ⟨x, rest, q', rfl, heq, hmax, hrep'⟩ := hrep.dequeue hsize
  exact ⟨x, q', heq, hmax, rest, hrep', by simp⟩

lemma Fifo.size_lt (h : Fifo q acc del) : q.size < 2 ^ 32 :=
  have ⟨_, hrep, _⟩ := h
  hrep.size_lt

end Fifo

/-! ## What is run was stored -/

section Fresh

variable {α : Type} {pending : ThreadId → List (Option α)} {sto : List (ThreadId × α)}
  {rn : List (ThreadId × Option α)} {t : ThreadId} {y : Option α}

/-- Each thread ran the items stored for it, in order and up to what is pending. -/
def Fresh (pending : ThreadId → List (Option α)) (sto : List (ThreadId × α))
    (rn : List (ThreadId × Option α)) : Prop :=
  ∀ t, (ofThread t sto).map some = ofThread t rn ++ pending t

lemma ofThread_append {β : Type} (t : ThreadId) (l l' : List (ThreadId × β)) :
    ofThread t (l ++ l') = ofThread t l ++ ofThread t l' := by
  simp [ofThread]

lemma ofThread_singleton {β : Type} (t t' : ThreadId) (b : β) :
    ofThread t [(t', b)] = if t' = t then [b] else [] := by
  simp only [ofThread, List.filter_cons, List.filter_nil, decide_eq_true_eq]
  split_ifs <;> rfl

lemma Fresh.store (h : Fresh pending sto rn) (ht : pending t = []) (x : α) :
    Fresh (Function.update pending t [some x]) (sto ++ [(t, x)]) rn := by
  intro t'
  rw [ofThread_append, ofThread_singleton, List.map_append, h t']
  by_cases heq : t = t'
  · subst heq
    simp [ht]
  · simp [heq, Function.update_of_ne (Ne.symm heq)]

lemma Fresh.run (h : Fresh pending sto rn) (ht : pending t = [y]) :
    Fresh (Function.update pending t []) sto (rn ++ [(t, y)]) := by
  intro t'
  rw [ofThread_append, ofThread_singleton, h t']
  by_cases heq : t = t'
  · subst heq
    simp [ht]
  · simp [heq, Function.update_of_ne (Ne.symm heq)]

end Fresh

namespace QueueThreads

variable {α : Type} {s s' : QueueThreads α} {t : ThreadId} {pc : QueuePc}

/-- Only the thread that moves changes what it has pending. -/
lemma pending_setPc (s : QueueThreads α) (t : ThreadId) (pc : QueuePc) :
    (s.setPc t pc).pending =
      Function.update s.pending t (if pc = .body then [s.task t] else []) := by
  funext t'
  by_cases heq : t' = t
  · subst heq
    simp [pending, setPc]
  · simp [pending, setPc, Function.update_of_ne heq]

/-- A step from a position outside the body to another one leaves nothing pending. -/
lemma pending_setPc_eq (hpc : s.pc t ≠ .body) (hpc' : pc ≠ .body) :
    (s.setPc t pc).pending = s.pending := by
  rw [pending_setPc, if_neg hpc']
  have hnone : s.pending t = [] := if_neg hpc
  rw [← hnone, Function.update_eq_self]

/-- **A step of a dequeue up to the unlock**, and what a history notes of it. -/
lemma exec_dequeue {acc del : List α} (h : Fifo s.queue acc del) (hpc : s.pc t ≠ .body) :
    (s.queue.size = 0 ∧ exec (.dequeue t) s = .ok (s.setPc t .emptied) ∧
      storedBy (s, .dequeue t) = none ∧ returnedBy (s, .dequeue t) = none) ∨
    ∃ x s', 0 < s.queue.size ∧ exec (.dequeue t) s = .ok s' ∧
      storedBy (s, .dequeue t) = some (t, x) ∧
      returnedBy (s, .dequeue t) = some (true, toInt32 s.queue.size) ∧
      Fifo s'.queue acc (del ++ [x]) ∧
      (s.queue.size < 2 ^ 31 → s'.pending = Function.update s.pending t [some x]) := by
  by_cases hsize : s.queue.size = 0
  · have heq := Queue.dequeue_of_size_eq_zero hsize
    refine .inl ⟨hsize, ?_, ?_, ?_⟩
    · exact bind_eq_ok.mpr ⟨_, heq, rfl⟩
    · simp [storedBy, heq]
    · simp [returnedBy, heq]
  · have hsize : 0 < s.queue.size := Nat.pos_of_ne_zero hsize
    obtain ⟨x, q', heq, -, hfifo⟩ := h.dequeue hsize
    refine .inr ⟨x, { s with queue := q', task := Function.update s.task t (some x) }.loop t
      (toInt32 s.queue.size), hsize, ?_, ?_, ?_, hfifo, fun hlt => ?_⟩
    · exact bind_eq_ok.mpr ⟨_, heq, rfl⟩
    · simp [storedBy, heq]
    · simp [returnedBy, heq]
    · have hpos := (toInt32_pos_iff h.size_lt).mpr ⟨hsize, hlt⟩
      rw [loop, if_pos hpos, pending_setPc, if_pos rfl]
      funext t'
      by_cases heq : t' = t
      · subst heq
        simp
      · simp [Function.update_of_ne heq, pending]

end QueueThreads

/-! ## The result -/

section Results

variable {α : Type} {maxSize : ℕ} {l : List (QueueThreads α × QueueStep α)} {s : QueueThreads α}

/-- The counter tells the truth where a dequeue takes its return value from it: a dequeue that
found no item reads `0`, or at least nothing positive, and one that stores an item finds a counter
that is positive as an `int`. -/
def ReadsTruly : QueueThreads α × QueueStep α → Prop
  | (s, .dequeue _) => s.queue.size < 2 ^ 31
  | (s, .dequeueReturn _) => s.queue.size = 0 ∨ 2 ^ 31 ≤ s.queue.size
  | _ => True

instance : DecidablePred (ReadsTruly (α := α)) := fun q =>
  match q with
  | (s, .dequeue _) => inferInstanceAs (Decidable (s.queue.size < 2 ^ 31))
  | (s, .dequeueReturn _) => inferInstanceAs (Decidable (s.queue.size = 0 ∨ 2 ^ 31 ≤ s.queue.size))
  | (_, .enqueue ..) | (_, .enqueueReturn _) | (_, .run _) => inferInstanceAs (Decidable True)

/-- What the loops around a dequeue rely on, after the history `l`. -/
structure QueueSafe (l : List (QueueThreads α × QueueStep α)) (s : QueueThreads α) : Prop where
  /-- What was accepted is what was delivered, in this order, and what is queued. -/
  fifo : Fifo s.queue (accepted l) ((stored l).map Prod.snd)
  /-- A dequeue returns a positive value if and only if it stored an item. -/
  returns : ∀ q ∈ l, ∀ b r, returnedBy q = some (b, r) → (0 < r ↔ b = true)
  /-- Each loop runs the items stored for it. -/
  fresh : Fresh s.pending (stored l) (ran l)

lemma accepted_cons (q : QueueThreads α × QueueStep α) (l) :
    accepted (q :: l) = accepted l ++ (acceptedBy q).toList := by
  cases h : acceptedBy q <;> simp [accepted, h]

lemma stored_cons (q : QueueThreads α × QueueStep α) (l) :
    stored (q :: l) = stored l ++ (storedBy q).toList := by
  cases h : storedBy q <;> simp [stored, h]

lemma ran_cons (q : QueueThreads α × QueueStep α) (l) :
    ran (q :: l) = ran l ++ (ranBy q).toList := by
  cases h : ranBy q <;> simp [ran, h]

/-- The two halves of the invariant, with `acc` accepted so far: the order in any history, the rest
if the counter tells the truth. -/
structure Accounts (acc : List α) (l : List (QueueThreads α × QueueStep α))
    (s : QueueThreads α) : Prop where
  fifo : Fifo s.queue acc ((stored l).map Prod.snd)
  fresh : (∀ q ∈ l, ReadsTruly q) → Fresh s.pending (stored l) (ran l)

lemma accounts_init (maxSize : ℕ) : Accounts [] [] (.init maxSize : QueueThreads α) :=
  ⟨fifo_init maxSize, fun _ _ => rfl⟩

/-- **One step.** -/
lemma Accounts.step {acc : List α} (h : Accounts acc l s) {a : QueueStep α} (hen : s.Enabled a) :
    ∃ s', QueueThreads.exec a s = .ok s' ∧
      Accounts (acc ++ (acceptedBy (s, a)).toList) ((s, a) :: l) s' := by
  have htail : ∀ {q}, (∀ q' ∈ q :: l, ReadsTruly q') → ∀ q' ∈ l, ReadsTruly q' :=
    fun hall q' hq' => hall q' (List.mem_cons_of_mem _ hq')
  cases a with
  | enqueue t el x force =>
      obtain ⟨hpc, hel⟩ := hen
      obtain ⟨q', heq, -, hfifo⟩ := h.fifo.enqueue hel x force
      refine ⟨{ s with queue := q' }.setPc t (if !s.queue.isFull || force then .enqueued
        else .ready), ?_, ?_, fun hall => ?_⟩
      · exact bind_eq_ok.mpr ⟨_, heq, rfl⟩
      · rw [stored_cons]
        have hacc : (acceptedBy (s, .enqueue t el x force)).toList =
            if (!s.queue.isFull || force) = true then [x] else [] := by
          simp only [acceptedBy]
          split_ifs <;> rfl
        rw [hacc]
        simpa only [storedBy, Option.toList_none, List.append_nil, QueueThreads.setPc_queue]
          using hfifo
      · rw [stored_cons, ran_cons, QueueThreads.pending_setPc_eq (by simp [hpc])
          (by split_ifs <;> simp)]
        have hpending : ({ s with queue := q' } : QueueThreads α).pending = s.pending := rfl
        simpa [storedBy, ranBy, hpending] using h.fresh (htail hall)
  | enqueueReturn t =>
      have hpc : s.pc t = .enqueued := hen
      refine ⟨s.setPc t .ready, rfl, ?_, fun hall => ?_⟩
      · simpa [stored_cons, acceptedBy, storedBy] using h.fifo
      · rw [stored_cons, ran_cons, QueueThreads.pending_setPc_eq (by simp [hpc]) (by simp)]
        simpa [storedBy, ranBy] using h.fresh (htail hall)
  | dequeue t =>
      have hpc : s.pc t = .ready := hen
      have hran : ranBy (s, .dequeue t) = none := rfl
      have hacc : acceptedBy (s, .dequeue t) = none := rfl
      rcases QueueThreads.exec_dequeue h.fifo (by simp [hpc] : s.pc t ≠ .body) with
        ⟨-, hexec, hsto, -⟩ | ⟨x, s', -, hexec, hsto, -, hfifo, hpending⟩
      · refine ⟨_, hexec, ?_, fun hall => ?_⟩
        · simpa [stored_cons, hacc, hsto] using h.fifo
        · rw [stored_cons, ran_cons, hsto, hran,
            QueueThreads.pending_setPc_eq (by simp [hpc]) (by simp)]
          simpa using h.fresh (htail hall)
      · refine ⟨s', hexec, ?_, fun hall => ?_⟩
        · simpa [stored_cons, hacc, hsto] using hfifo
        · have hnone : s.pending t = [] := by simp [QueueThreads.pending, hpc]
          rw [stored_cons, ran_cons, hsto, hran, hpending (hall _ List.mem_cons_self)]
          simpa using (h.fresh (htail hall)).store hnone x
  | dequeueReturn t =>
      have hpc : s.pc t = .emptied := hen
      refine ⟨s.loop t s.queue.readSize, rfl, ?_, fun hall => ?_⟩
      · simpa [stored_cons, acceptedBy, storedBy] using h.fifo
      · have htrue : ReadsTruly (s, .dequeueReturn t) := hall _ List.mem_cons_self
        have hneg : ¬0 < s.queue.readSize := by
          obtain ⟨_, hrep, -⟩ := h.fifo
          rw [hrep.readSize_pos_iff]
          unfold ReadsTruly at htrue
          omega
        rw [stored_cons, ran_cons, QueueThreads.loop, if_neg hneg,
          QueueThreads.pending_setPc_eq (by simp [hpc]) (by simp)]
        simpa [storedBy, ranBy] using h.fresh (htail hall)
  | run t =>
      have hpc : s.pc t = .body := hen
      refine ⟨s.setPc t .ready, rfl, ?_, fun hall => ?_⟩
      · simpa [stored_cons, acceptedBy, storedBy] using h.fifo
      · have hbody : s.pending t = [s.task t] := by simp [QueueThreads.pending, hpc]
        rw [stored_cons, ran_cons, QueueThreads.pending_setPc]
        simpa [storedBy, ranBy] using (h.fresh (htail hall)).run hbody

/-- **Every run.** -/
lemma accounts_of_run (hrun : (queueSystem α maxSize).Run l s) : Accounts (accepted l) l s := by
  refine System.Run.invariant_of_ok (M := queueSystem α maxSize)
    (fun l s => Accounts (accepted l) l s) (accounts_init maxSize) (fun h hen => ?_) hrun
  rw [accepted_cons]
  exact h.step hen

/-- A return value is right exactly if the counter tells the truth. -/
lemma Fifo.returnedBy_iff {acc del : List α} (h : Fifo s.queue acc del) (a : QueueStep α) :
    (∀ b r, returnedBy (s, a) = some (b, r) → (0 < r ↔ b = true)) ↔ ReadsTruly (s, a) := by
  obtain ⟨xs, hrep, -⟩ := id h
  cases a with
  | dequeue t =>
      by_cases hsize : s.queue.size = 0
      · simp [returnedBy, Queue.dequeue_of_size_eq_zero hsize, ReadsTruly, hsize]
      · obtain ⟨x, q', heq, -, -⟩ := h.dequeue (Nat.pos_of_ne_zero hsize)
        have hpos := toInt32_pos_iff hrep.size_lt
        simp only [returnedBy, heq, Option.some.injEq, Prod.mk.injEq, ReadsTruly]
        constructor
        · intro hall
          exact (hpos.mp ((hall true _ ⟨rfl, rfl⟩).mpr rfl)).2
        · rintro hlt b r ⟨rfl, rfl⟩
          simpa using hpos.mpr ⟨Nat.pos_of_ne_zero hsize, hlt⟩
  | dequeueReturn t =>
      have hpos := hrep.readSize_pos_iff
      simp only [returnedBy, Option.some.injEq, Prod.mk.injEq, ReadsTruly]
      constructor
      · intro hall
        have hneg : ¬0 < s.queue.readSize := fun hp => by
          simpa using (hall false _ ⟨rfl, rfl⟩).mp hp
        omega
      · rintro htrue b r ⟨rfl, rfl⟩
        have hneg : ¬0 < s.queue.readSize := by omega
        simp [hneg]
  | enqueue => simp [returnedBy, ReadsTruly]
  | enqueueReturn => simp [returnedBy, ReadsTruly]
  | run => simp [returnedBy, ReadsTruly]

/-- **When a queue is safe.**  In any run no element is used that is not there, and items are
delivered once and in the order they were accepted.  The return values of the dequeues are right,
and the loops around them run what was stored for them and nothing else, exactly if the counter
tells the truth wherever a return value is taken from it. -/
theorem queue_safe_iff (hrun : (queueSystem α maxSize).Run l s) :
    (∀ a, s.Enabled a → ∃ s', QueueThreads.exec a s = .ok s') ∧
    Fifo s.queue (accepted l) ((stored l).map Prod.snd) ∧
    (QueueSafe l s ↔ ∀ q ∈ l, ReadsTruly q) := by
  have h := accounts_of_run hrun
  refine ⟨fun a hen => ?_, h.fifo, fun hsafe q hq => ?_, fun htrue => ⟨h.fifo, ?_, h.fresh htrue⟩⟩
  · obtain ⟨s', hexec, -⟩ := h.step hen
    exact ⟨s', hexec⟩
  · obtain ⟨l₁, l₂, s', rfl, hrun₁, -⟩ := System.Run.split hrun (s := q.1) (a := q.2) hq
    exact ((accounts_of_run hrun₁).fifo.returnedBy_iff q.2).mp (hsafe.returns q hq)
  · intro q hq
    obtain ⟨l₁, l₂, s', rfl, hrun₁, -⟩ := System.Run.split hrun (s := q.1) (a := q.2) hq
    exact ((accounts_of_run hrun₁).fifo.returnedBy_iff q.2).mpr (htrue q hq)

/-- `queue_safe_iff` with a consumer that comes after two producers. -/
theorem queue_safe_iff_sample :
    ∃ l s, (queueSystem ℕ 8).Run l s ∧ accepted l = [5, 6] ∧ ran l = [(2, some 5)] ∧
      QueueSafe l s := by
  obtain ⟨l, s, hrun, htest⟩ := System.exists_run_of_execAll (M := queueSystem ℕ 8)
    (fun l _ => decide (accepted l = [5, 6] ∧ ran l = [(2, some 5)] ∧ ∀ q ∈ l, ReadsTruly q))
    [.enqueue 0 0 5 false, .enqueue 1 1 6 false, .enqueueReturn 1, .dequeue 2, .run 2]
    (by decide +kernel)
  obtain ⟨hacc, hran, htrue⟩ := of_decide_eq_true htest
  exact ⟨l, s, hrun, hacc, hran, (queue_safe_iff hrun).2.2.mpr htrue⟩

/-- **A dequeue that stores nothing and returns `1`**: an item is enqueued between the unlock and
the read, and the loop runs a variable that was never set. -/
theorem dequeue_returns_without_storing :
    ∃ l s, (queueSystem ℕ 8).Run l s ∧ stored l = [] ∧ ran l = [(0, none)] ∧ ¬QueueSafe l s := by
  obtain ⟨l, s, hrun, htest⟩ := System.exists_run_of_execAll (M := queueSystem ℕ 8)
    (fun l _ => decide (stored l = [] ∧ ran l = [(0, none)] ∧
      ∃ q ∈ l, returnedBy q = some (false, 1)))
    [.dequeue 0, .enqueue 1 0 5 false, .dequeueReturn 0, .run 0] (by decide +kernel)
  obtain ⟨hstored, hran, q, hq, hret⟩ := of_decide_eq_true htest
  refine ⟨l, s, hrun, hstored, hran, fun hsafe => ?_⟩
  simpa using (hsafe.returns q hq false 1 hret).mp one_pos

end Results

end TsEngine
