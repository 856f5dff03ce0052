import TsEngine.Engine.Handshake
import TsEngine.Net.Acknowledge

/-!
# The engine behind its input queue

A client's `engine->add` or `engine->remove` puts a task on the bounded queue, the merger forces its
own tasks in, and the input thread takes one after the other out and calls its handler.  Elsewhere a
handler may run at any moment; here it runs when its task is at the head of the queue.

`threads` is the engine with the merger's position, and `Flow` is what holds of the queue: the
tasks handled, the one in hand and those queued are the tasks accepted, in order, and at most one of
those that wait is the merger's.  So the queue holds at most one task more than its bound, and the
tasks that the engine records in `inputQueue` are those that the queue has.
-/

namespace TsEngine

open Framework System

/-- A task of the input queue, with its argument. -/
inductive EngineTask
  | add (d : DocPtr)
  | remove (pk : ℕ)
  | embedded (task : MergerTask)
  deriving DecidableEq

namespace EngineTask

/-- `task->handler`. -/
def handler : EngineTask → Action
  | .add d => .add d
  | .remove pk => .remove pk
  | .embedded .replace => .replaceSegs
  | .embedded .redelete => .redelete

/-- The document of an addition. -/
def document? : EngineTask → Option DocPtr
  | .add d => some d
  | .remove _ | .embedded _ => none

/-- The primary key of a removal. -/
def removed? : EngineTask → Option ℕ
  | .remove pk => some pk
  | .add _ | .embedded _ => none

/-- The merger's task, if it is one. -/
def embedded? : EngineTask → Option MergerTask
  | .add _ | .remove _ => none
  | .embedded task => some task

@[simp] lemma document?_add (d : DocPtr) : (add d).document? = some d := rfl

@[simp] lemma document?_remove (pk : ℕ) : (remove pk).document? = none := rfl

@[simp] lemma document?_embedded (task : MergerTask) : (embedded task).document? = none := rfl

@[simp] lemma embedded?_add (d : DocPtr) : (add d).embedded? = none := rfl

@[simp] lemma embedded?_remove (pk : ℕ) : (remove pk).embedded? = none := rfl

@[simp] lemma embedded?_embedded (task : MergerTask) : (embedded task).embedded? = some task := rfl

end EngineTask

/-- What goes wrong with the queue goes wrong with the engine. -/
def Fault.ofQueue : Queue.Error → Fault
  | .nullDereference => .nullDereference
  | .useAfterFree => .useAfterFree

/-- The task that a procedure enqueues at a stage. -/
def Action.enqueues : Action → ℕ → Option MergerTask
  | .procMigrate, stage => if stage = 1 then some .replace else none
  | .procRedelete, stage => if stage = 4 then some .redelete else none
  | _, _ => none

/-- The action is the handler of a task. -/
def Action.isHandler : Action → Bool
  | .add _ | .remove _ | .replaceSegs | .redelete => true
  | _ => false

/-- Where `ts_engine_input_processor` is: at the start of a call of dequeue, behind the unlock of
one that found nothing, or in the body of the loop, with the task the call stored or with the value
`task` had before. -/
inductive InputPc
  | ready
  | emptied
  | body
  | stale
  deriving DecidableEq

/-- The engine and its merger, the input queue, and the input thread with its variable `task`, unset
at first. -/
structure Pipeline where
  threads : Threads
  queue : Queue EngineTask
  pc : InputPc
  task : Option EngineTask

/-- The steps of clients, input thread and merger. -/
inductive PipelineStep
  /-- `ts_engine_add_document` up to the unlock of the queue, with an element at `el`. -/
  | add (el : ElemPtr) (d : DocPtr)
  /-- `ts_engine_remove_document` up to the unlock. -/
  | remove (el : ElemPtr) (pk : ℕ)
  /-- The input thread's `dequeue` up to the unlock. -/
  | dequeue
  /-- The `return queue->size` of a dequeue that found nothing. -/
  | dequeueReturn
  /-- The body of the loop. -/
  | handle
  /-- A procedure of the merger, up to its enqueue if it enqueues, or a lookup's entry or exit. -/
  | proc (el : ElemPtr) (a : Action)
  /-- `merger->merge_stage = …` after the enqueue. -/
  | write

namespace Pipeline

/-- `ts_engine_new`. -/
def new (heap : DocHeap) : Pipeline := ⟨⟨.new heap, .idle⟩, .init queueSizeInput, .ready, none⟩

/-- `input_queue.enqueue` up to the unlock. -/
def enqueue (s : Pipeline) (el : ElemPtr) (task : EngineTask) (force : Bool) :
    Except Fault Pipeline :=
  ((s.queue.enqueue el task force).mapError Fault.ofQueue).map fun r => { s with queue := r.1 }

/-- The task that the body of the loop reads.  A client's task is freed at the end of its handler;
the merger's are embedded in it. -/
def running (s : Pipeline) : Except Fault EngineTask :=
  match s.task with
  | none => .error .nullDereference
  | some task => if s.pc = .stale ∧ task.embedded? = none then .error .useAfterFree else .ok task

/-- The effect of a step. -/
def exec (cap : ℕ) : PipelineStep → Pipeline → Except Fault Pipeline
  | .add el d, s =>
      if !(s.threads.engine.docs d).check then .ok s else s.enqueue el (.add d) false
  | .remove el pk, s => if pk = 0 then .error .assertion else s.enqueue el (.remove pk) false
  | .dequeue, s => do
      match ← s.queue.dequeue.mapError Fault.ofQueue with
      | (queue, some (task, r)) =>
          return { s with queue, task := some task, pc := if 0 < r then .body else .ready }
      | (queue, none) => return { s with queue, pc := .emptied }
  | .dequeueReturn, s => .ok { s with pc := if 0 < s.queue.readSize then .stale else .ready }
  | .handle, s => do
      let task ← s.running
      let threads ← s.threads.exec cap (.run task.handler)
      return { s with threads, pc := .ready }
  | .proc el a, s => do
      let threads ← s.threads.exec cap (.run a)
      match a.enqueues s.threads.engine.merger.mergeStage with
      | none => return { s with threads }
      | some task => ({ s with threads } : Pipeline).enqueue el (.embedded task) true
  | .write, s => (s.threads.exec cap .write).map fun threads => { s with threads }

/-- The document that a step hands over to the engine. -/
def handedBy : Pipeline × PipelineStep → Option DocPtr
  | (_, .add _ d) => some d
  | _ => none

/-- When a step may be taken: the allocator gives an address that is not in use, a document is
handed over once, and there are not so many that a segment could run out of ids. -/
def Enabled (cap : ℕ) (handed : List DocPtr) (s : Pipeline) : PipelineStep → Prop
  | .add el d =>
      s.queue.elements el = none ∧ d ∉ handed ∧ min cap (handed.length + 1) + 1 < 2 ^ 32
  | .remove el _ => s.queue.elements el = none
  | .dequeue => s.pc = .ready
  | .dequeueReturn => s.pc = .emptied
  | .handle => s.pc = .body ∨ s.pc = .stale
  | .proc el a =>
      s.queue.elements el = none ∧ a.isHandler = false ∧ (a.isProc = true → s.threads.pc = .idle)
  | .write => s.threads.pc ≠ .idle

instance (cap : ℕ) (handed : List DocPtr) (s : Pipeline) (a : PipelineStep) :
    Decidable (s.Enabled cap handed a) :=
  have (el : ElemPtr) : Decidable (s.queue.elements el = none) :=
    decidable_of_iff _ Option.isNone_iff_eq_none
  match a with
  | .add _ _ => inferInstanceAs (Decidable (_ ∧ _ ∧ _))
  | .remove _ _ => inferInstanceAs (Decidable (_ = _))
  | .dequeue => inferInstanceAs (Decidable (s.pc = .ready))
  | .dequeueReturn => inferInstanceAs (Decidable (s.pc = .emptied))
  | .handle => inferInstanceAs (Decidable (s.pc = .body ∨ s.pc = .stale))
  | .proc _ a => inferInstanceAs (Decidable (_ ∧ a.isHandler = false ∧ (a.isProc = true → _)))
  | .write => inferInstanceAs (Decidable (s.threads.pc ≠ .idle))

end Pipeline

/-- The engine behind its queue, with clients, input thread and merger taking turns in any order. -/
def pipelineSystem (cap : ℕ) (heap : DocHeap) : System Pipeline PipelineStep Fault where
  init := .new heap
  enabled l s a := s.Enabled cap (notes Pipeline.handedBy l) a
  exec := Pipeline.exec cap

instance (cap : ℕ) (heap : DocHeap) (l : List (Pipeline × PipelineStep)) (s : Pipeline)
    (a : PipelineStep) : Decidable ((pipelineSystem cap heap).enabled l s a) :=
  inferInstanceAs (Decidable (s.Enabled cap (notes Pipeline.handedBy l) a))

namespace Pipeline

/-! ## What a history says -/

/-- The task that a step leaves on the queue. -/
def acceptedBy : Pipeline × PipelineStep → Option EngineTask
  | (s, .add _ d) =>
      if (s.threads.engine.docs d).check && !s.queue.isFull then some (.add d) else none
  | (s, .remove _ pk) => if !s.queue.isFull then some (.remove pk) else none
  | (s, .proc _ a) => (a.enqueues s.threads.engine.merger.mergeStage).map .embedded
  | _ => none

/-- The task whose handler a step runs. -/
def handledBy : Pipeline × PipelineStep → Option EngineTask
  | (s, .handle) => s.task
  | _ => none

/-- The step of the engine and its merger. -/
def threadStep : Pipeline × PipelineStep → Option (Threads × ThreadStep)
  | (s, .handle) => s.task.map fun task => (s.threads, .run task.handler)
  | (s, .proc _ a) => some (s.threads, .run a)
  | (s, .write) => some (s.threads, .write)
  | _ => none

/-- The task in hand. -/
def pending (s : Pipeline) : List EngineTask := if s.pc = .body then s.task.toList else []

/-- The map that tasks stand for, the oldest first. -/
def taskMap (heap : DocHeap) (tasks : List EngineTask) : ℕ → Option DocPtr :=
  Engine.storeMap heap (tasks.map EngineTask.handler).reverse

/-- A dequeue that has found the queue empty finds it so when it reads its return value. -/
def ReadsEmpty (q : Pipeline × PipelineStep) : Prop :=
  match q with
  | (s, .dequeueReturn) => s.queue.size = 0
  | _ => True

instance : DecidablePred ReadsEmpty := fun q =>
  match q with
  | (s, .dequeueReturn) => inferInstanceAs (Decidable (s.queue.size = 0))
  | (_, .add _ _) | (_, .remove _ _) | (_, .dequeue) | (_, .handle) | (_, .proc _ _)
  | (_, .write) => inferInstanceAs (Decidable True)

/-- A handler of the merger's does not run between an enqueue and the write of the stage. -/
def HandlesSettled (q : Pipeline × PipelineStep) : Prop :=
  match q with
  | (s, .handle) => (s.task.bind EngineTask.embedded?).isSome → s.threads.pc = .idle
  | _ => True

instance : DecidablePred HandlesSettled := fun q =>
  match q with
  | (s, .handle) => inferInstanceAs (Decidable (_ = true → s.threads.pc = .idle))
  | (_, .add _ _) | (_, .remove _ _) | (_, .dequeue) | (_, .dequeueReturn) | (_, .proc _ _)
  | (_, .write) => inferInstanceAs (Decidable True)

/-- The merger finds nothing queued or in hand when it migrates. -/
def MigratesDrained (q : Pipeline × PipelineStep) : Prop :=
  match q with
  | (s, .proc _ a) => a.enqueues s.threads.engine.merger.mergeStage = some .replace →
      s.queue.size = 0 ∧ s.pc ≠ .body
  | _ => True

instance : DecidablePred MigratesDrained := fun q =>
  match q with
  | (s, .proc _ _) => inferInstanceAs (Decidable (_ = some _ → s.queue.size = 0 ∧ s.pc ≠ .body))
  | (_, .add _ _) | (_, .remove _ _) | (_, .dequeue) | (_, .dequeueReturn) | (_, .handle)
  | (_, .write) => inferInstanceAs (Decidable True)

/-- A removal is handled where no merge is in progress. -/
def RemovesIdle (q : Pipeline × PipelineStep) : Prop :=
  match q with
  | (s, .handle) =>
      (s.task.bind EngineTask.removed?).isSome → s.threads.engine.merger.mergeStage = 0
  | _ => True

instance : DecidablePred RemovesIdle := fun q =>
  match q with
  | (s, .handle) => inferInstanceAs (Decidable (_ = true → s.threads.engine.merger.mergeStage = 0))
  | (_, .add _ _) | (_, .remove _ _) | (_, .dequeue) | (_, .dequeueReturn) | (_, .proc _ _)
  | (_, .write) => inferInstanceAs (Decidable True)

end Pipeline

/-! ## The merger's task -/

namespace Engine

variable {cap : ℕ} {e e' : ListEngine} {a : Action}

lemma removeFromAll_inputQueue (e : ListEngine) (pk : ℕ) :
    (e.removeFromAll pk).inputQueue = e.inputQueue := by
  unfold removeFromAll
  generalize e.listed = ps
  induction ps generalizing e with
  | nil => rfl
  | cons p ps ih => exact ih _

/-- A task or a lookup leaves the merger's tasks alone. -/
lemma inputQueue_of_client (ha : isClient a = true) (hexec : Engine.exec cap a e = .ok e') :
    e'.inputQueue = e.inputQueue := by
  cases a with
  | add d =>
      obtain rfl := Except.ok.inj hexec
      show ((e.rollOver cap).removeFromAll _).inputQueue = _
      rw [removeFromAll_inputQueue]
      unfold rollOver
      split_ifs <;> rfl
  | remove k =>
      obtain rfl := Except.ok.inj hexec
      have hrem := removeFromAll_inputQueue e k
      simp only [Engine.removeDocumentHandler]
      split_ifs
      · exact hrem
      · exact hrem
  | lookupEnter seg => exact Except.ok.inj hexec ▸ rfl
  | lookupLeave seg => exact Except.ok.inj hexec ▸ rfl
  | _ => simp [isClient] at ha

lemma inputQueue_of_releaseSource {source : Merger → Option SegPtr} {forget : Merger → Merger}
    (hexec : e.releaseSource source forget = .ok e') : e'.inputQueue = e.inputQueue := by
  obtain ⟨m, -, hexec⟩ := bind_eq_ok.mp hexec
  split_ifs at hexec
  · exact Except.ok.inj hexec ▸ rfl
  · exact Except.ok.inj hexec ▸ rfl

/-- So does a procedure that does not enqueue. -/
lemma inputQueue_of_proc (ha : a.isProc = true) (hm : a ≠ .procMigrate) (hr : a ≠ .procRedelete)
    (hexec : Engine.exec cap a e = .ok e') : e'.inputQueue = e.inputQueue := by
  cases a with
  | procCheck =>
      have hexec : e.mergeProcCheck = .ok e' := hexec
      unfold mergeProcCheck at hexec
      split_ifs at hexec
      · exact Except.ok.inj hexec ▸ rfl
      obtain ⟨r, -, hexec⟩ := bind_eq_ok.mp hexec
      cases r <;> exact Except.ok.inj hexec ▸ rfl
  | procRelease =>
      have hexec : e.mergeProcRelease = .ok e' := hexec
      unfold mergeProcRelease at hexec
      split_ifs at hexec
      · exact Except.ok.inj hexec ▸ rfl
      obtain ⟨e₁, h₁, hexec⟩ := bind_eq_ok.mp hexec
      obtain ⟨e₂, h₂, hexec⟩ := bind_eq_ok.mp hexec
      rw [← inputQueue_of_releaseSource h₁, ← inputQueue_of_releaseSource h₂]
      split_ifs at hexec
      · obtain ⟨n, -, hexec⟩ := bind_eq_ok.mp hexec
        split_ifs at hexec
        · exact Except.ok.inj hexec ▸ rfl
        · exact Except.ok.inj hexec ▸ rfl
      · exact Except.ok.inj hexec ▸ rfl
  | procReset =>
      obtain rfl := Except.ok.inj hexec
      unfold mergeProcReset
      split_ifs <;> rfl
  | procMigrate => exact absurd rfl hm
  | procRedelete => exact absurd rfl hr
  | _ => simp [Action.isProc] at ha

/-- The replace handler writes stage 3. -/
lemma stage_of_replaceSegsHandler (hexec : e.replaceSegsHandler = .ok e') :
    e'.merger.mergeStage = 3 ∧ e'.inputQueue = e.inputQueue := by
  obtain ⟨m1, -, hexec⟩ := bind_eq_ok.mp hexec
  obtain ⟨m2, -, hexec⟩ := bind_eq_ok.mp hexec
  obtain ⟨n, -, hexec⟩ := bind_eq_ok.mp hexec
  obtain ⟨l₁, -, hexec⟩ := bind_eq_ok.mp hexec
  obtain ⟨l₂, -, hexec⟩ := bind_eq_ok.mp hexec
  dsimp only at hexec
  split_ifs at hexec
  · exact Except.ok.inj hexec ▸ ⟨rfl, rfl⟩
  · exact Except.ok.inj hexec ▸ ⟨rfl, rfl⟩

/-- The redelete handler writes stage 6. -/
lemma stage_of_redeleteHandler (hexec : e.redeleteHandler = .ok e') :
    e'.merger.mergeStage = 6 ∧ e'.inputQueue = e.inputQueue := by
  unfold redeleteHandler at hexec
  split_ifs at hexec
  · exact Except.ok.inj hexec ▸ ⟨rfl, rfl⟩
  · obtain ⟨n, -, hexec⟩ := bind_eq_ok.mp hexec
    exact Except.ok.inj hexec ▸ ⟨rfl, rfl⟩

end Engine

namespace Threads

open Engine

variable {cap : ℕ} {t t' : Threads} {ms : List MergerTask} {a : Action}

/-- The tasks of the merger that wait: none, or the one of the stage the merger is at or is about to
write.  If the handler has run before that write, its stage is still to be overwritten. -/
inductive Outstanding (t : Threads) : List MergerTask → Prop
  | none (hqueue : t.engine.inputQueue = [])
      (hmigrating : t.pc = .migrating → t.engine.merger.mergeStage = 3)
      (hredeleting : t.pc = .redeleting → t.engine.merger.mergeStage = 6) : Outstanding t []
  | replace (hqueue : t.engine.inputQueue = [.replace])
      (hstage : t.pc = .migrating ∧ t.engine.merger.mergeStage = 1 ∨
        t.pc = .idle ∧ t.engine.merger.mergeStage = 2) : Outstanding t [.replace]
  | redelete (hqueue : t.engine.inputQueue = [.redelete])
      (hstage : t.pc = .redeleting ∧ t.engine.merger.mergeStage = 4 ∨
        t.pc = .idle ∧ t.engine.merger.mergeStage = 5) : Outstanding t [.redelete]

lemma Outstanding.inputQueue (h : t.Outstanding ms) : t.engine.inputQueue = ms := by
  cases h <;> assumption

lemma Outstanding.length_le (h : t.Outstanding ms) : ms.length ≤ 1 := by
  cases h <;> simp

/-- Between two procedures, with no task waiting, nothing is known of the stage. -/
lemma outstanding_of_idle (hqueue : t.engine.inputQueue = []) (hpc : t.pc = .idle) :
    t.Outstanding [] :=
  .none hqueue (fun h => by simp [hpc] at h) fun h => by simp [hpc] at h

/-- Only the merger's position, its stage and its tasks matter. -/
lemma Outstanding.congr (h : t.Outstanding ms) (hpc : t'.pc = t.pc)
    (hstage : t'.engine.merger.mergeStage = t.engine.merger.mergeStage)
    (hqueue : t'.engine.inputQueue = t.engine.inputQueue) : t'.Outstanding ms := by
  cases h with
  | none h hm hr => exact .none (hqueue.trans h) (by rwa [hpc, hstage]) (by rwa [hpc, hstage])
  | replace h hs => exact .replace (hqueue.trans h) (by rwa [hpc, hstage])
  | redelete h hs => exact .redelete (hqueue.trans h) (by rwa [hpc, hstage])

lemma Outstanding.client (h : t.Outstanding ms) (ha : isClient a = true)
    (hexec : t.exec cap (.run a) = .ok t') : t'.Outstanding ms := by
  obtain ⟨he, hpc⟩ := exec_run (fun he => by simp [he, isClient] at ha)
    (fun he => by simp [he, isClient] at ha) hexec
  exact h.congr hpc (stage_of_client ha he) (inputQueue_of_client ha he)

/-- While a task of the merger waits and its stage is written, its procedures do nothing. -/
lemma exec_proc_of_waiting (cap : ℕ) (ha : a.isProc = true)
    (hstage : t.engine.merger.mergeStage = 2 ∨ t.engine.merger.mergeStage = 5) :
    t.exec cap (.run a) = .ok t ∧ a.enqueues t.engine.merger.mergeStage = .none := by
  cases a with
  | procCheck | procMigrate | procRelease | procRedelete | procReset =>
      rcases hstage with hstage | hstage <;>
        simp [exec, Engine.exec, Action.enqueues, hstage, mergeProcCheck, mergeProcRelease,
          mergeProcReset, Except.map]
  | _ => simp [Action.isProc] at ha

/-- **A procedure** enqueues a task only if none waits. -/
lemma Outstanding.proc (h : t.Outstanding ms) (hpc : t.pc = .idle) (ha : a.isProc = true)
    (hexec : t.exec cap (.run a) = .ok t') :
    t'.Outstanding (ms ++ (a.enqueues t.engine.merger.mergeStage).toList) := by
  have hwaiting : t.engine.merger.mergeStage = 2 ∨ t.engine.merger.mergeStage = 5 →
      t'.Outstanding (ms ++ (a.enqueues t.engine.merger.mergeStage).toList) := fun hstage => by
    obtain ⟨heq, hnone⟩ := exec_proc_of_waiting cap ha hstage
    obtain rfl := Except.ok.inj (heq.symm.trans hexec)
    rw [hnone, Option.toList_none, List.append_nil]
    exact h
  cases h with
  | replace hqueue hs => exact hwaiting (.inl (hs.resolve_left fun h => by simp [hpc] at h).2)
  | redelete hqueue hs => exact hwaiting (.inr (hs.resolve_left fun h => by simp [hpc] at h).2)
  | none hqueue =>
      rw [List.nil_append]
      by_cases hm : a = .procMigrate
      · subst hm
        simp only [exec] at hexec
        split_ifs at hexec with hstage
        · obtain rfl := Except.ok.inj hexec
          simpa [Action.enqueues, hstage] using outstanding_of_idle hqueue hpc
        · obtain ⟨e, hmig, rfl⟩ := map_eq_ok.mp hexec
          have hstage : t.engine.merger.mergeStage = 1 := by simpa using hstage
          have he := stage_of_migrateAndEnqueue hmig
          simp only [Action.enqueues, hstage, if_true, Option.toList_some]
          refine .replace ?_ (.inl ⟨rfl, he.trans hstage⟩)
          obtain ⟨m1, -, hmig⟩ := bind_eq_ok.mp hmig
          obtain ⟨m2, -, hmig⟩ := bind_eq_ok.mp hmig
          obtain rfl := Except.ok.inj hmig
          simp [hqueue]
      by_cases hr : a = .procRedelete
      · subst hr
        simp only [exec] at hexec
        split_ifs at hexec with hstage
        · obtain rfl := Except.ok.inj hexec
          simpa [Action.enqueues, hstage] using outstanding_of_idle hqueue hpc
        · obtain rfl := Except.ok.inj hexec
          have hstage : t.engine.merger.mergeStage = 4 := by simpa using hstage
          simp only [Action.enqueues, hstage, if_true, Option.toList_some]
          exact .redelete (by simp [redeleteEnqueue, hqueue]) (.inl ⟨rfl, hstage⟩)
      obtain ⟨he, hpc'⟩ := exec_run hm hr hexec
      have hnone : a.enqueues t.engine.merger.mergeStage = .none := by
        cases a <;> first | rfl | exact absurd rfl hm | exact absurd rfl hr
      rw [hnone]
      exact outstanding_of_idle ((inputQueue_of_proc ha hm hr he).trans hqueue) (hpc'.trans hpc)

lemma Outstanding.write (h : t.Outstanding ms) (hexec : t.exec cap .write = .ok t') :
    t'.Outstanding ms := by
  obtain ⟨e, pc⟩ := t
  cases h with
  | none hqueue =>
      cases pc <;> obtain rfl := Except.ok.inj hexec <;> exact outstanding_of_idle hqueue rfl
  | replace hqueue hs =>
      rcases hs with ⟨rfl, -⟩ | ⟨rfl, hstage⟩ <;> obtain rfl := Except.ok.inj hexec
      · exact .replace hqueue (.inr ⟨rfl, rfl⟩)
      · exact .replace hqueue (.inr ⟨rfl, hstage⟩)
  | redelete hqueue hs =>
      rcases hs with ⟨rfl, -⟩ | ⟨rfl, hstage⟩ <;> obtain rfl := Except.ok.inj hexec
      · exact .redelete hqueue (.inr ⟨rfl, rfl⟩)
      · exact .redelete hqueue (.inr ⟨rfl, hstage⟩)

/-- **The handler of the merger's task** leaves none. -/
lemma Outstanding.handle {task : MergerTask} (h : t.Outstanding [task])
    (hexec : t.exec cap (.run (EngineTask.embedded task).handler) = .ok t') :
    t'.Outstanding [] := by
  cases h with
  | replace hqueue hs =>
      obtain ⟨he, hpc⟩ := exec_run (by simp [EngineTask.handler]) (by simp [EngineTask.handler])
        hexec
      obtain ⟨hstage, hq⟩ := stage_of_replaceSegsHandler he
      refine .none (hq.trans (by simp [dequeue, hqueue])) (fun _ => hstage) fun h => ?_
      rw [hpc] at h
      rcases hs with hs | hs <;> simp [hs.1] at h
  | redelete hqueue hs =>
      obtain ⟨he, hpc⟩ := exec_run (by simp [EngineTask.handler]) (by simp [EngineTask.handler])
        hexec
      obtain ⟨hstage, hq⟩ := stage_of_redeleteHandler he
      refine .none (hq.trans (by simp [dequeue, hqueue])) (fun h => ?_) fun _ => hstage
      rw [hpc] at h
      rcases hs with hs | hs <;> simp [hs.1] at h

end Threads

end TsEngine
