import TsEngine.Engine.MergedStore
import TsEngine.Engine.PipelineFlow
import TsEngine.Engine.Pointers

/-!
# The store behind the input queue

Where no handler of the merger's runs between its enqueue and the write of the stage that follows
(`HandlesSettled`), and a dequeue that has found the queue empty reads its return value before
something arrives (`ReadsEmpty`), a run of the pipeline has a run of the engine in it
(`engine_history`), in which the handlers run in the order of the queue.  What follows is about
these runs.

`store_delivered`: if the merger finds the queue drained when it migrates and no removal is handled
during a merge, then the live documents are the map of the tasks accepted, but for those that wait,
through any number of merges.  `document_delivered`: whatever the merger does, the last document
handled under a key that is never removed is live.  `queue_drains`: what has been accepted can
always be handled.

The engine of the pipeline has its segments in a sequence.  On their pointers a replace handler may
fail the assertion of `DL_DELETE`: `onPointers` is the engine on pointers along a run of the
pipeline, and `onPointers_of_run` says where it gets stuck.
-/

namespace TsEngine

open Framework System

/-! ## The engine's run -/

namespace Threads

variable {cap : ℕ} {heap : DocHeap} {l : List (Threads × ThreadStep)} {t t' : Threads}

/-- The step of the engine, from the state in which the pending write is made. -/
def settledStep : Threads × ThreadStep → Option (ListEngine × Action)
  | (t, .run a) => some (t.settled, a)
  | (_, .write) => none

/-- A step outside the gap is a step of the engine. -/
lemma settled_step {as : List Action} {b : Action} (hok : t.PcOk)
    (hen : t.Enabled cap as (.run b)) (hgap : OutsideGap (t, .run b))
    (hexec : exec cap (.run b) t = .ok t') :
    t'.PcOk ∧ b.Enabled cap as t.settled ∧ Engine.exec cap b t.settled = .ok t'.settled := by
  obtain ⟨hen, hproc⟩ := hen
  by_cases hpc : t.pc = .idle
  · obtain ⟨hok', he⟩ := settled_step_idle hpc hexec
    exact ⟨hok', (settled_of_idle hpc).symm ▸ hen, he⟩
  · refine settled_step_gap hok hpc ?_ hen hexec
    cases b <;> first | rfl | exact absurd (hproc rfl) hpc | exact absurd (hgap rfl) hpc

/-- The write that is pending is made already. -/
lemma settled_write (hexec : exec cap .write t = .ok t') : t'.settled = t.settled := by
  obtain ⟨e, pc⟩ := t
  cases pc <;> obtain rfl := Except.ok.inj hexec <;> rfl

/-- **The run of the engine** in a run of its threads. -/
lemma settled_history (hrun : (threadSystem cap heap).Run l t) (hgap : ∀ q ∈ l, OutsideGap q) :
    (engineSystem (List SegPtr) cap heap).Run (l.filterMap settledStep) t.settled ∧
      actions (l.filterMap settledStep) = engineActions l := by
  refine Run.invariant (fun l t => (∀ q ∈ l, OutsideGap q) →
    (engineSystem (List SegPtr) cap heap).Run (l.filterMap settledStep) t.settled ∧
      actions (l.filterMap settledStep) = engineActions l) (fun _ => ⟨.nil, rfl⟩)
    (fun {l t a t'} hrun ih hen hexec hall => ?_) hrun hgap
  obtain ⟨hga, hgap⟩ := List.forall_mem_cons.mp hall
  obtain ⟨hrun', hacts⟩ := ih hgap
  have hok := (settled_run hrun hgap).1
  cases a with
  | write =>
      have hexec : exec cap .write t = .ok t' := hexec
      exact ⟨settled_write hexec ▸ hrun', hacts⟩
  | run b =>
      obtain ⟨-, hen, hexec⟩ := settled_step hok hen hga hexec
      refine ⟨hrun'.step ?_ hexec, congrArg (b :: ·) hacts⟩
      show b.Enabled cap (actions (l.filterMap settledStep)) t.settled
      rw [hacts]
      exact hen

end Threads

namespace Pipeline

variable {cap : ℕ} {heap : DocHeap} {l : List (Pipeline × PipelineStep)} {s s' : Pipeline}
  {a : PipelineStep} {xs : List EngineTask}

/-- **The handlers that run** are those of the tasks handled. -/
lemma filter_isHandler (hrun : (pipelineSystem cap heap).Run l s) :
    (Threads.engineActions (l.filterMap threadStep)).filter Action.isHandler =
      ((notes handledBy l).map EngineTask.handler).reverse := by
  refine Run.invariant (fun l _ =>
    (Threads.engineActions (l.filterMap threadStep)).filter Action.isHandler =
      ((notes handledBy l).map EngineTask.handler).reverse) rfl
    (fun {l s a s'} _ ih hen _ => ?_) hrun
  rw [notes_cons]
  cases a with
  | handle =>
      cases htask : s.task with
      | none => simpa [threadStep, handledBy, htask] using ih
      | some task =>
          have hhandler : task.handler.isHandler = true := by
            cases task with
            | embedded m => cases m <;> rfl
            | _ => rfl
          simpa [threadStep, handledBy, htask, Threads.engineActions, hhandler] using ih
  | proc el b =>
      have hb : b.isHandler = false := hen.2.1
      simpa [threadStep, handledBy, Threads.engineActions, hb] using ih
  | write => simpa [threadStep, handledBy, Threads.engineActions] using ih
  | _ => simpa [List.filterMap_cons, threadStep, handledBy] using ih

lemma storeMap_filter (as : List Action) :
    Engine.storeMap heap (as.filter Action.isHandler) = Engine.storeMap heap as := by
  induction as with
  | nil => rfl
  | cons a as ih =>
      cases a <;> simp [List.filter_cons, Action.isHandler, Engine.storeMap, ih]

lemma taskMap_eq (hrun : (pipelineSystem cap heap).Run l s) :
    Engine.storeMap heap (Threads.engineActions (l.filterMap threadStep)) =
      taskMap heap (notes handledBy l) := by
  rw [← storeMap_filter, filter_isHandler hrun, taskMap]

/-- The documents handled are as many as the additions among the actions of the engine. -/
lemma addCount_eq (hrun : (pipelineSystem cap heap).Run l s) :
    Action.addCount (Threads.engineActions (l.filterMap threadStep)) =
      ((notes handledBy l).filterMap EngineTask.document?).length := by
  have hcount : ∀ as : List Action,
      Action.addCount as = Action.addCount (as.filter Action.isHandler) := fun as => by
    induction as with
    | nil => rfl
    | cons a as ih =>
        cases a <;> simpa [Action.addCount, List.filter_cons, List.countP_cons, Action.isHandler,
          Action.isAdd] using ih
  rw [hcount, filter_isHandler hrun, Action.addCount, List.countP_reverse]
  generalize notes handledBy l = tasks
  induction tasks with
  | nil => rfl
  | cons task tasks ih =>
      rw [List.map_cons, List.countP_cons, List.filterMap_cons, ih]
      cases task with
      | embedded m => cases m <;> rfl
      | _ => rfl

lemma add_mem_engineActions (hrun : (pipelineSystem cap heap).Run l s) {d : DocPtr}
    (hd : .add d ∈ Threads.engineActions (l.filterMap threadStep)) :
    d ∈ (notes handledBy l).filterMap EngineTask.document? := by
  have hmem := List.mem_filter.mpr ⟨hd, (rfl : (Action.add d).isHandler = true)⟩
  rw [filter_isHandler hrun, List.mem_reverse, List.mem_map] at hmem
  obtain ⟨task, htask, heq⟩ := hmem
  refine List.mem_filterMap.mpr ⟨task, htask, ?_⟩
  cases task with
  | add d' => exact congrArg some (Action.add.inj heq)
  | remove pk => simp [EngineTask.handler] at heq
  | embedded m => cases m <;> simp [EngineTask.handler] at heq

/-- What the engine has checked of a client's argument. -/
def ArgumentOk (heap : DocHeap) : EngineTask → Prop
  | .add d => (heap d).check = true
  | .remove pk => pk ≠ 0
  | .embedded _ => True

/-- What clients have handed over: each document once, and with its argument checked if its task was
accepted. -/
structure Handed (cap : ℕ) (heap : DocHeap) (l : List (Pipeline × PipelineStep)) : Prop where
  sublist : ((notes acceptedBy l).filterMap EngineTask.document?).Sublist (notes handedBy l)
  nodup : (notes handedBy l).Nodup
  small : min cap (notes handedBy l).length + 1 < 2 ^ 32
  checked : ∀ task ∈ notes acceptedBy l, ArgumentOk heap task

lemma handed_nil (cap : ℕ) (heap : DocHeap) : Handed cap heap [] where
  sublist := .refl _
  nodup := List.nodup_nil
  small := by simp [notes]
  checked := by simp [notes]

lemma forall_mem_notes_cons {P : EngineTask → Prop} (h : ∀ task ∈ notes acceptedBy l, P task)
    (hacc : ∀ task ∈ acceptedBy (s, a), P task) :
    ∀ task ∈ notes acceptedBy ((s, a) :: l), P task := by
  intro task htask
  rw [notes_cons, List.mem_append] at htask
  exact htask.elim (h task) fun htask => hacc task (Option.mem_toList.mp htask)

/-- A step that hands nothing over. -/
lemma Handed.other (h : Handed cap heap l) (hhanded : handedBy (s, a) = none)
    (hacc : ∀ task ∈ acceptedBy (s, a), task.document? = none ∧ ArgumentOk heap task) :
    Handed cap heap ((s, a) :: l) where
  sublist := by
    have hnone : (acceptedBy (s, a)).toList.filterMap EngineTask.document? = [] := by
      cases htask : acceptedBy (s, a) with
      | none => rfl
      | some task => simp [(hacc task htask).1]
    rw [notes_cons, notes_cons, hhanded, List.filterMap_append, hnone]
    simpa using h.sublist
  nodup := by simpa [notes_cons, hhanded] using h.nodup
  small := by simpa [notes_cons, hhanded] using h.small
  checked := forall_mem_notes_cons h.checked fun task htask => (hacc task htask).2

lemma Handed.step (h : Handed cap heap l) (hen : s.Enabled cap (notes handedBy l) a)
    (hexec : exec cap a s = .ok s') (hsame : heap.SameDocs s.threads.engine.docs) :
    Handed cap heap ((s, a) :: l) := by
  cases a with
  | add el d =>
      obtain ⟨-, hd, hsmall⟩ := hen
      have hhanded : notes handedBy ((s, .add el d) :: l) = notes handedBy l ++ [d] := by
        rw [notes_cons]
        rfl
      have hacc : acceptedBy (s, .add el d) = none ∨
          acceptedBy (s, .add el d) = some (.add d) ∧ (heap d).check = true := by
        simp only [acceptedBy]
        split_ifs with hok
        · rw [Bool.and_eq_true] at hok
          exact .inr ⟨rfl, (hsame.check d).symm.trans hok.1⟩
        · exact .inl rfl
      refine ⟨?_, ?_, ?_, forall_mem_notes_cons h.checked fun task htask => ?_⟩
      · rw [hhanded, notes_cons, List.filterMap_append]
        refine h.sublist.append ?_
        rcases hacc with hacc | ⟨hacc, -⟩ <;> simp [hacc]
      · rw [hhanded]
        exact List.nodup_append.mpr ⟨h.nodup, List.nodup_singleton d, fun x hx y hy hxy => by
          rw [List.mem_singleton.mp hy] at hxy
          exact hd (hxy ▸ hx)⟩
      · rw [hhanded, List.length_append, List.length_singleton]
        exact hsmall
      · rcases hacc with hacc | ⟨hacc, hcheck⟩
        · simp [hacc] at htask
        · obtain rfl : EngineTask.add d = task := by simpa [hacc] using htask
          exact hcheck
  | remove el pk =>
      refine h.other rfl fun task htask => ?_
      simp only [exec] at hexec
      split_ifs at hexec with hpk
      simp only [acceptedBy] at htask
      split_ifs at htask
      · obtain rfl := Option.some.inj htask
        exact ⟨rfl, hpk⟩
      · simp at htask
  | proc el b =>
      refine h.other rfl fun task htask => ?_
      obtain ⟨m, -, rfl⟩ := Option.map_eq_some_iff.mp htask
      exact ⟨rfl, trivial⟩
  | _ => exact h.other rfl (by simp [acceptedBy])

/-- A task in hand is one that the engine may handle. -/
lemma Flow.handler_enabled (h : Flow l s xs) (hhanded : Handed cap heap l)
    (hrun : (pipelineSystem cap heap).Run l s) (hsame : heap.SameDocs s.threads.engine.docs)
    {task : EngineTask} (hpending : s.pending = [task]) :
    task.handler.Enabled cap (Threads.engineActions (l.filterMap threadStep)) s.threads.engine := by
  have horder := h.order
  have hout := h.outstanding
  rw [hpending, List.singleton_append] at horder hout
  have hok : ArgumentOk heap task := hhanded.checked task (by simp [horder])
  cases task with
  | remove pk => exact hok
  | embedded m =>
      have hmem : m ∈ s.threads.engine.inputQueue := by
        rw [hout.inputQueue]
        simp
      cases m <;> exact hmem
  | add d =>
      have hsub := hhanded.sublist
      rw [horder, List.filterMap_append, List.filterMap_cons] at hsub
      have hnodup := hsub.nodup hhanded.nodup
      have hlength := hsub.length_le
      refine ⟨(hsame.check d).trans hok, fun hd => ?_, ?_⟩
      · have hd := add_mem_engineActions hrun hd
        exact (List.nodup_append.mp hnodup).2.2 d hd d (by simp) rfl
      · rw [addCount_eq hrun]
        have hsmall := hhanded.small
        simp only [List.length_append, EngineTask.document?_add, List.length_cons] at hlength
        omega

/-- What a step does to the engine and its merger. -/
lemma threads_of_exec (hexec : exec cap a s = .ok s') :
    threadStep (s, a) = none ∧ s'.threads = s.threads ∨
      ∃ b, threadStep (s, a) = some (s.threads, b) ∧ s.threads.exec cap b = .ok s'.threads := by
  have henqueue : ∀ {s s' : Pipeline} {el : ElemPtr} {task : EngineTask} {force : Bool},
      s.enqueue el task force = .ok s' → s'.threads = s.threads := fun hexec => by
    obtain ⟨r, -, rfl⟩ := map_eq_ok.mp hexec
    rfl
  cases a with
  | add el d =>
      simp only [exec] at hexec
      split_ifs at hexec
      · exact .inl ⟨rfl, Except.ok.inj hexec ▸ rfl⟩
      · exact .inl ⟨rfl, henqueue hexec⟩
  | remove el pk =>
      simp only [exec] at hexec
      split_ifs at hexec
      exact .inl ⟨rfl, henqueue hexec⟩
  | dequeue =>
      obtain ⟨⟨queue, r⟩, -, hexec⟩ := bind_eq_ok.mp hexec
      cases r <;> exact .inl ⟨rfl, Except.ok.inj hexec ▸ rfl⟩
  | dequeueReturn => exact .inl ⟨rfl, Except.ok.inj hexec ▸ rfl⟩
  | handle =>
      obtain ⟨task, hrunning, hexec⟩ := bind_eq_ok.mp hexec
      obtain ⟨threads, hthreads, hexec⟩ := bind_eq_ok.mp hexec
      obtain rfl := Except.ok.inj hexec
      have htask : s.task = some task := by
        unfold running at hrunning
        cases htask : s.task with
        | none => simp [htask] at hrunning
        | some task' =>
            simp only [htask] at hrunning
            split_ifs at hrunning
            exact congrArg some (Except.ok.inj hrunning)
      exact .inr ⟨_, by simp [threadStep, htask], hthreads⟩
  | proc el b =>
      obtain ⟨threads, hthreads, hexec⟩ := bind_eq_ok.mp hexec
      refine .inr ⟨_, rfl, ?_⟩
      cases htask : b.enqueues s.threads.engine.merger.mergeStage with
      | none =>
          simp only [htask] at hexec
          obtain rfl := Except.ok.inj hexec
          exact hthreads
      | some task =>
          simp only [htask] at hexec
          rw [henqueue hexec]
          exact hthreads
  | write =>
      obtain ⟨threads, hthreads, rfl⟩ := map_eq_ok.mp hexec
      exact .inr ⟨_, rfl, hthreads⟩

/-- The step of the engine and its merger is one that the two may take. -/
lemma Flow.threadStep_enabled (h : Flow l s xs) (hhanded : Handed cap heap l)
    (hrun : (pipelineSystem cap heap).Run l s) (hsame : heap.SameDocs s.threads.engine.docs)
    (hen : s.Enabled cap (notes handedBy l) a) (hsettled : HandlesSettled (s, a)) {b : ThreadStep}
    (hb : threadStep (s, a) = some (s.threads, b)) :
    s.threads.Enabled cap (Threads.engineActions (l.filterMap threadStep)) b ∧
      OutsideGap (s.threads, b) := by
  cases a with
  | handle =>
      have hpc : s.pc = .body := hen.resolve_right h.notStale
      obtain ⟨task, htask⟩ := Option.isSome_iff_exists.mp (h.task hpc)
      have hpending : s.pending = [task] := by simp [pending, hpc, htask]
      obtain rfl : .run task.handler = b := by simpa [threadStep, htask] using hb
      refine ⟨⟨h.handler_enabled hhanded hrun hsame hpending, fun hproc => ?_⟩, fun hhandler => ?_⟩
      · cases task with
        | embedded m => cases m <;> simp [EngineTask.handler, Action.isProc] at hproc
        | _ => simp [EngineTask.handler, Action.isProc] at hproc
      · cases task with
        | embedded m => exact hsettled (by simp [htask])
        | _ => simp [EngineTask.handler, ThreadStep.isHandler] at hhandler
  | proc el b' =>
      obtain rfl : .run b' = b := by simpa [threadStep] using hb
      obtain ⟨-, hhandler, hproc⟩ := hen
      refine ⟨⟨?_, hproc⟩, fun hhandler' => ?_⟩
      · cases b' <;> trivial
      · have hne : b' ≠ .replaceSegs ∧ b' ≠ .redelete :=
          ⟨fun he => by simp [he, Action.isHandler] at hhandler,
            fun he => by simp [he, Action.isHandler] at hhandler⟩
        cases b' <;> simp_all [ThreadStep.isHandler]
  | write =>
      obtain rfl : .write = b := by simpa [threadStep] using hb
      exact ⟨hen, fun hhandler => by simp [ThreadStep.isHandler] at hhandler⟩
  | _ => simp [threadStep] at hb

/-- **The run of the engine and its merger** in a run of the pipeline. -/
lemma thread_history (hcap : 1 ≤ cap) (hrun : (pipelineSystem cap heap).Run l s)
    (hread : ∀ q ∈ l, ReadsEmpty q) (hsettled : ∀ q ∈ l, HandlesSettled q) :
    (threadSystem cap heap).Run (l.filterMap threadStep) s.threads ∧
      (∀ q ∈ l.filterMap threadStep, OutsideGap q) ∧ Handed cap heap l := by
  refine Run.invariant (fun l s => (∀ q ∈ l, ReadsEmpty q) → (∀ q ∈ l, HandlesSettled q) →
    (threadSystem cap heap).Run (l.filterMap threadStep) s.threads ∧
      (∀ q ∈ l.filterMap threadStep, OutsideGap q) ∧ Handed cap heap l)
    (fun _ _ => ⟨.nil, by simp, handed_nil cap heap⟩)
    (fun {l s a s'} hrun ih hen hexec hread hsettled => ?_) hrun hread hsettled
  obtain ⟨hga, hsettled⟩ := List.forall_mem_cons.mp hsettled
  have hread := (List.forall_mem_cons.mp hread).2
  obtain ⟨hthreads, hgap, hhanded⟩ := ih hread hsettled
  obtain ⟨xs, hflow⟩ := flow_of_run hrun hread
  obtain ⟨log, hinv⟩ := Engine.inv_of_run hcap (Threads.settled_history hthreads hgap).1
  have hsame : heap.SameDocs s.threads.engine.docs := by
    have hdocs : s.threads.settled.docs = s.threads.engine.docs := by
      unfold Threads.settled
      split <;> rfl
    exact hdocs ▸ hinv.sameDocs
  have hhanded' := hhanded.step hen hexec hsame
  rcases threads_of_exec hexec with ⟨hnone, heq⟩ | ⟨b, hb, hexecb⟩
  · rw [List.filterMap_cons, hnone, heq]
    exact ⟨hthreads, hgap, hhanded'⟩
  · obtain ⟨henb, hgapb⟩ := hflow.threadStep_enabled hhanded hrun hsame hen hga hb
    rw [List.filterMap_cons, hb]
    exact ⟨hthreads.step henb hexecb, List.forall_mem_cons.mpr ⟨hgapb, hgap⟩, hhanded'⟩

/-! ## The store behind the queue -/

/-- The run of the engine in a run of the pipeline, with the pending writes made. -/
def engineHistory (l : List (Pipeline × PipelineStep)) : List (ListEngine × Action) :=
  (l.filterMap threadStep).filterMap Threads.settledStep

/-- **The engine's run**, and what the tasks handled stand for. -/
lemma engine_history (hcap : 1 ≤ cap) (hrun : (pipelineSystem cap heap).Run l s)
    (hread : ∀ q ∈ l, ReadsEmpty q) (hsettled : ∀ q ∈ l, HandlesSettled q) :
    (engineSystem (List SegPtr) cap heap).Run (engineHistory l) s.threads.settled ∧
      s.threads.PcOk ∧
      Engine.storeMap heap (actions (engineHistory l)) = taskMap heap (notes handledBy l) := by
  obtain ⟨hthreads, hgap, -⟩ := thread_history hcap hrun hread hsettled
  obtain ⟨hengine, hacts⟩ := Threads.settled_history hthreads hgap
  refine ⟨hengine, (Threads.settled_run hthreads hgap).1, ?_⟩
  rw [engineHistory, hacts, taskMap_eq hrun]

/-- The stage once the write that is pending is made. -/
def stage (s : Pipeline) : ℕ := s.threads.settled.merger.mergeStage

/-- Between migration and replacement, the task that replaces is the next to be handled. -/
def ReplaceNext (l : List (Pipeline × PipelineStep)) (s : Pipeline) : Prop :=
  s.stage = 2 →
    (notes acceptedBy l)[(notes handledBy l).length]? = some (.embedded .replace)

/-- A step of the engine to stage 2. -/
lemma stage_eq_two_of_step {pk : DocPtr → ℕ} {b : Action} {v v' : View}
    (h : View.Step pk b v v') (hstage : v'.stage = 2) :
    v.stage = 2 ∧ b ≠ .replaceSegs ∨ b = .procMigrate ∧ v.stage = 1 := by
  cases h with
  | neutral ha hmove => exact .inl ⟨hmove.stage_eq_two.mp hstage, fun he => ha (he ▸ trivial)⟩
  | remove | add => exact .inl ⟨hstage, by simp⟩
  | migrate h1 => exact .inr ⟨rfl, h1⟩
  | replace | redelete => simp at hstage

lemma getElem?_append_of_eq_some {α : Type} {xs ys : List α} {i : ℕ} {x : α}
    (h : xs[i]? = some x) : (xs ++ ys)[i]? = some x := by
  rw [List.getElem?_append_left (List.getElem?_eq_some_iff.mp h).1]
  exact h

lemma replaceNext_new (heap : DocHeap) : ReplaceNext [] (new heap) := fun h =>
  absurd (show 0 = 2 from h) (by simp)

lemma handledBy_of_threadStep (h : threadStep (s, a) = none) : handledBy (s, a) = none := by
  cases a with
  | handle => simpa [threadStep, handledBy] using h
  | _ => rfl

/-- A step that leaves the settled stage as it is, and handles nothing. -/
lemma ReplaceNext.keep (h : ReplaceNext l s) (hstage : s'.stage = s.stage)
    (hhandled : handledBy (s, a) = none) : ReplaceNext ((s, a) :: l) s' := fun h2 => by
  rw [notes_cons, notes_cons, hhandled, Option.toList_none, List.append_nil]
  exact getElem?_append_of_eq_some (h (hstage ▸ h2))

/-- A step of the engine. -/
lemma ReplaceNext.engine (h : ReplaceNext l s) (hflow : Flow l s xs) {pk : DocPtr → ℕ} {b : Action}
    (hb : threadStep (s, a) = some (s.threads, .run b))
    (hstep : View.Step pk b s.threads.settled.view s'.threads.settled.view)
    (hidle : b.isProc = true → s.threads.pc = .idle) (hnotStale : a = .handle → s.pc = .body)
    (hdrained : MigratesDrained (s, a)) : ReplaceNext ((s, a) :: l) s' := by
  intro h2
  rw [notes_cons, notes_cons]
  have hcases := stage_eq_two_of_step hstep h2
  cases a with
  | handle =>
      obtain ⟨task, htask, heq⟩ := Option.map_eq_some_iff.mp hb
      obtain rfl : task.handler = b := by simpa using heq
      have hnext : (notes acceptedBy l)[(notes handledBy l).length]? = some task := by
        rw [hflow.order]
        simp [pending, hnotStale rfl, htask]
      rcases hcases with ⟨hstage, hne⟩ | ⟨hmigrate, -⟩
      · obtain rfl := Option.some.inj (hnext.symm.trans (h hstage))
        exact absurd rfl hne
      · cases task with
        | embedded m => cases m <;> simp [EngineTask.handler] at hmigrate
        | _ => simp [EngineTask.handler] at hmigrate
  | proc el b' =>
      obtain rfl : b' = b := by simpa [threadStep] using hb
      have hhandled : handledBy (s, .proc el b') = none := rfl
      rw [hhandled, Option.toList_none, List.append_nil]
      rcases hcases with ⟨hstage, -⟩ | ⟨rfl, hstage⟩
      · exact getElem?_append_of_eq_some (h hstage)
      · have hstage : s.threads.engine.merger.mergeStage = 1 := by
          rw [← Threads.settled_of_idle (hidle rfl)]
          exact hstage
        have henqueues : Action.procMigrate.enqueues s.threads.engine.merger.mergeStage =
            some .replace := by simp [Action.enqueues, hstage]
        obtain ⟨hsize, hpc⟩ := hdrained henqueues
        obtain rfl : xs = [] := List.length_eq_zero_iff.mp (hflow.size ▸ hsize)
        have horder : notes acceptedBy l = notes handledBy l := by
          simpa [pending, hpc] using hflow.order
        simp [horder, acceptedBy, henqueues]
  | write => simp [threadStep] at hb
  | _ => simp [threadStep] at hb

/-- **The replacement is not overtaken**, if nothing waits when the merger migrates. -/
lemma replaceNext_of_run (hcap : 1 ≤ cap) (hrun : (pipelineSystem cap heap).Run l s)
    (hread : ∀ q ∈ l, ReadsEmpty q) (hsettled : ∀ q ∈ l, HandlesSettled q)
    (hdrained : ∀ q ∈ l, MigratesDrained q) : ReplaceNext l s := by
  refine Run.invariant (fun l s => (∀ q ∈ l, ReadsEmpty q) → (∀ q ∈ l, HandlesSettled q) →
    (∀ q ∈ l, MigratesDrained q) → ReplaceNext l s) (fun _ _ _ => replaceNext_new heap)
    (fun {l s a s'} hrun ih hen hexec hread hsettled hdrained => ?_) hrun hread hsettled hdrained
  have hread' := (List.forall_mem_cons.mp hread).2
  have hsettled' := (List.forall_mem_cons.mp hsettled).2
  obtain ⟨hmigrates, hdrained'⟩ := List.forall_mem_cons.mp hdrained
  obtain ⟨xs, hflow⟩ := flow_of_run hrun hread'
  have ih := ih hread' hsettled' hdrained'
  rcases threads_of_exec hexec with ⟨hnone, heq⟩ | ⟨b, hb, hexecb⟩
  · exact ih.keep (by rw [stage, heq, stage]) (handledBy_of_threadStep hnone)
  cases b with
  | write =>
      refine ih.keep (by rw [stage, Threads.settled_write hexecb, stage]) ?_
      cases a with
      | handle => cases htask : s.task <;> simp [threadStep, htask] at hb
      | _ => rfl
  | run b =>
      obtain ⟨hengine, -, -⟩ := engine_history hcap (hrun.step hen hexec) hread hsettled
      have hhistory : engineHistory ((s, a) :: l) = (s.threads.settled, b) :: engineHistory l := by
        simp [engineHistory, hb, Threads.settledStep]
      rw [hhistory] at hengine
      refine ih.engine hflow hb (Engine.step_of_run hcap hengine) ?_ ?_ hmigrates
      · intro hproc
        cases a with
        | handle =>
            obtain ⟨task, -, heq⟩ := Option.map_eq_some_iff.mp hb
            obtain rfl : task.handler = b := by simpa using heq
            cases task with
            | embedded m => cases m <;> simp [EngineTask.handler, Action.isProc] at hproc
            | _ => simp [EngineTask.handler, Action.isProc] at hproc
        | proc el b' =>
            obtain rfl : b' = b := by simpa [threadStep] using hb
            exact hen.2.2 hproc
        | _ => simp [threadStep] at hb
      · rintro rfl
        exact hen.resolve_right hflow.notStale

/-- The steps of the engine in a history, one by one. -/
lemma mem_engineHistory {q : ListEngine × Action} :
    q ∈ engineHistory l ↔ ∃ r ∈ l, ∃ b, threadStep r = some (r.1.threads, .run b) ∧
      q = (r.1.threads.settled, b) := by
  have hfst : ∀ {r : Pipeline × PipelineStep} {t b}, threadStep r = some (t, b) →
      t = r.1.threads := by
    rintro ⟨s, a⟩ t b h
    cases a with
    | handle => cases htask : s.task <;> simp_all [threadStep]
    | _ => simp_all [threadStep]
  simp only [engineHistory, List.mem_filterMap]
  constructor
  · rintro ⟨⟨t, b⟩, ⟨r, hr, hb⟩, hq⟩
    obtain rfl := hfst hb
    cases b with
    | write => simp [Threads.settledStep] at hq
    | run b => exact ⟨r, hr, b, hb, (Option.some.inj hq).symm⟩
  · rintro ⟨r, hr, b, hb, rfl⟩
    exact ⟨_, ⟨r, hr, hb⟩, rfl⟩

/-- **No task is disturbed by a merge**, if nothing waits when the merger migrates and no removal is
handled during a merge. -/
lemma clear_of_run (hcap : 1 ≤ cap) (hrun : (pipelineSystem cap heap).Run l s)
    (hread : ∀ q ∈ l, ReadsEmpty q) (hsettled : ∀ q ∈ l, HandlesSettled q)
    (hdrained : ∀ q ∈ l, MigratesDrained q) (hremove : ∀ q ∈ l, RemovesIdle q) :
    ∀ q ∈ engineHistory l, Engine.ClearOfMerge q := by
  intro q hq
  obtain ⟨⟨s₁, a⟩, hmem, b, hb, rfl⟩ := mem_engineHistory.mp hq
  obtain ⟨l₁, l₂, s₂, rfl, hrun₁, hen, hexec, -⟩ := hrun.split hmem
  have hold : ∀ {P : Pipeline × PipelineStep → Prop}, (∀ q ∈ l₂ ++ (s₁, a) :: l₁, P q) →
      ∀ q ∈ l₁, P q := fun h q hq =>
    h q (List.mem_append_right _ (List.mem_cons_of_mem _ hq))
  cases a with
  | handle =>
      obtain ⟨task, htask, heq⟩ := Option.map_eq_some_iff.mp hb
      obtain rfl : task.handler = b := by simpa using heq
      cases task with
      | add d =>
          intro hstage
          obtain ⟨xs, hflow⟩ := flow_of_run hrun₁ (hold hread)
          have hnext := replaceNext_of_run hcap hrun₁ (hold hread) (hold hsettled)
            (hold hdrained) hstage
          have hpc : s₁.pc = .body := hen.resolve_right hflow.notStale
          rw [hflow.order] at hnext
          simp [pending, hpc, htask] at hnext
      | remove pk =>
          have hidle := hremove (s₁, .handle) hmem (by simp [htask, EngineTask.removed?])
          have hok := (engine_history hcap hrun₁ (hold hread) (hold hsettled)).2.1
          have hpc : s₁.threads.pc = .idle := by
            cases hpc : s₁.threads.pc with
            | idle => rfl
            | migrating => exact absurd (hidle.symm.trans (hok.migrating hpc)) (by simp)
            | redeleting => exact absurd (hidle.symm.trans (hok.redeleting hpc)) (by simp)
          exact (congrArg (fun e => e.merger.mergeStage) (Threads.settled_of_idle hpc)).trans hidle
      | embedded m => cases m <;> trivial
  | proc el b' =>
      obtain rfl : b' = b := by simpa [threadStep] using hb
      have hhandler : b'.isHandler = false := hen.2.1
      cases b' <;> trivial
  | _ => simp [threadStep] at hb

lemma liveDocs_settled (t : Threads) (k : ℕ) : t.settled.liveDocs k = t.engine.liveDocs k := by
  unfold Threads.settled
  split <;> rfl

/-- **The store behind the queue.**  Let every dequeue that has found the queue empty read its
return value before something arrives, and no handler of the merger's run between its enqueue and
the write of the stage.  If the merger finds the queue drained when it migrates, and no removal is
handled during a merge, then after any number of merges the live documents are the map of the tasks
accepted, but for those that wait. -/
theorem store_delivered (hcap : 1 ≤ cap) (hrun : (pipelineSystem cap heap).Run l s)
    (hread : ∀ q ∈ l, ReadsEmpty q) (hsettled : ∀ q ∈ l, HandlesSettled q)
    (hdrained : ∀ q ∈ l, MigratesDrained q) (hremove : ∀ q ∈ l, RemovesIdle q)
    (hstage : s.stage ≠ 2) :
    ∃ xs, s.queue.Represents xs ∧
      notes acceptedBy l = notes handledBy l ++ (s.pending ++ xs) ∧
      ∀ k, s.threads.engine.liveDocs k = (taskMap heap (notes handledBy l) k).toList := by
  obtain ⟨xs, hflow⟩ := flow_of_run hrun hread
  obtain ⟨hengine, -, hmap⟩ := engine_history hcap hrun hread hsettled
  have hclear := clear_of_run hcap hrun hread hsettled hdrained hremove
  refine ⟨xs, hflow.represents, hflow.order, fun k => ?_⟩
  rw [← liveDocs_settled, Engine.liveDocs_of_clear hcap hengine hclear hstage, hmap]

/-- `store_delivered` for a whole merge, with an addition that waits behind the replacement. -/
theorem store_delivered_sample : ∃ l s, (pipelineSystem 1 Engine.sampleHeap).Run l s ∧
    s.stage = 0 ∧
    notes handledBy l = [.add 1, .add 2, .add 3, .remove 1, .embedded .replace, .add 12,
      .embedded .redelete] ∧
    ∀ k, s.threads.engine.liveDocs k =
      (taskMap Engine.sampleHeap (notes handledBy l) k).toList := by
  obtain ⟨l, s, hrun, htest⟩ := exists_run_of_execAll (M := pipelineSystem 1 Engine.sampleHeap)
    (fun l s => decide ((∀ q ∈ l, ReadsEmpty q) ∧ (∀ q ∈ l, HandlesSettled q) ∧
      (∀ q ∈ l, MigratesDrained q) ∧ (∀ q ∈ l, RemovesIdle q) ∧ s.stage = 0 ∧
      notes handledBy l = [.add 1, .add 2, .add 3, .remove 1, .embedded .replace, .add 12,
        .embedded .redelete]))
    [.add 0 1, .dequeue, .handle, .add 1 2, .dequeue, .handle, .add 2 3, .dequeue, .handle,
      .remove 3 1, .dequeue, .handle, .proc 4 .procCheck, .proc 4 .procMigrate, .write, .add 5 12,
      .dequeue, .handle, .dequeue, .handle, .proc 6 .procRelease, .proc 6 .procRedelete, .write,
      .dequeue, .handle, .proc 7 .procReset] (by decide +kernel)
  obtain ⟨hread, hsettled, hdrained, hremove, hstage, hhandled⟩ := of_decide_eq_true htest
  obtain ⟨xs, -, -, hlive⟩ :=
    store_delivered le_rfl hrun hread hsettled hdrained hremove (by simp [hstage])
  exact ⟨l, s, hrun, hstage, hhandled, hlive⟩

/-- **No document is lost.**  Let every dequeue that has found the queue empty read its return value
before something arrives, and no handler of the merger's run between its enqueue and the write of
the stage.  Then, whatever else is handled and wherever the merger is, the last document handled
under a key is live, if no removal of the key has been handled and the merger is not between
migration and replacement. -/
theorem document_delivered (hcap : 1 ≤ cap) (hrun : (pipelineSystem cap heap).Run l s)
    (hread : ∀ q ∈ l, ReadsEmpty q) (hsettled : ∀ q ∈ l, HandlesSettled q) {k : ℕ} {d : DocPtr}
    (hremove : .remove k ∉ notes handledBy l) (hd : taskMap heap (notes handledBy l) k = some d)
    (hstage : s.stage ≠ 2) : d ∈ s.threads.engine.liveDocs k := by
  obtain ⟨hthreads, hgap, -⟩ := thread_history hcap hrun hread hsettled
  obtain ⟨hengine, -, hmap⟩ := engine_history hcap hrun hread hsettled
  have hacts := (Threads.settled_history hthreads hgap).2
  have hremoved : .remove k ∉ actions (engineHistory l) := fun hmem => by
    rw [engineHistory, hacts] at hmem
    have hmem := List.mem_filter.mpr ⟨hmem, (rfl : (Action.remove k).isHandler = true)⟩
    rw [filter_isHandler hrun, List.mem_reverse, List.mem_map] at hmem
    obtain ⟨task, htask, heq⟩ := hmem
    cases task with
    | add d => simp [EngineTask.handler] at heq
    | remove pk => exact hremove (Action.remove.inj heq ▸ htask)
    | embedded m => cases m <;> simp [EngineTask.handler] at heq
  rw [← liveDocs_settled]
  exact Engine.mem_liveDocs_of_never_removed hcap hengine hremoved hstage (hmap ▸ hd)

/-- `document_delivered` for an update that is handled between migration and replacement. -/
theorem document_delivered_sample : ∃ l s, (pipelineSystem 1 Engine.sampleHeap).Run l s ∧
    notes handledBy l = [.add 1, .add 2, .add 3, .remove 1, .add 12, .embedded .replace] ∧
    12 ∈ s.threads.engine.liveDocs 2 := by
  obtain ⟨l, s, hrun, htest⟩ := exists_run_of_execAll (M := pipelineSystem 1 Engine.sampleHeap)
    (fun l s => decide ((∀ q ∈ l, ReadsEmpty q) ∧ (∀ q ∈ l, HandlesSettled q) ∧
      notes handledBy l = [.add 1, .add 2, .add 3, .remove 1, .add 12, .embedded .replace] ∧
      s.stage = 3))
    [.add 0 1, .dequeue, .handle, .add 1 2, .dequeue, .handle, .add 2 3, .dequeue, .handle,
      .remove 3 1, .dequeue, .handle, .proc 4 .procCheck, .add 5 12, .proc 4 .procMigrate, .write,
      .dequeue, .handle, .dequeue, .handle] (by decide +kernel)
  obtain ⟨hread, hsettled, hhandled, hstage⟩ := of_decide_eq_true htest
  refine ⟨l, s, hrun, hhandled, document_delivered le_rfl hrun hread hsettled ?_ ?_
    (by simp [hstage])⟩
  · simp [hhandled]
  · rw [hhandled]
    decide

/-! ## On pointers -/

/-- The engine on pointers along a history of the pipeline. -/
def onPointers (cap : ℕ) (heap : DocHeap) (l : List (Pipeline × PipelineStep)) :
    Except Fault PtrEngine :=
  Engine.onPointers cap heap (actions (engineHistory l))

/-- A replace handler meets sources that can be deleted. -/
def HandlesDeletable (q : Pipeline × PipelineStep) : Prop :=
  match q with
  | (s, .handle) => s.task = some (.embedded .replace) → s.threads.engine.SourcesDeletable
  | _ => True

/-- The replace handlers of the engine's history are those of the pipeline. -/
lemma handlesDeletable_iff (hrun : (pipelineSystem cap heap).Run l s)
    (hsettled : ∀ q ∈ l, HandlesSettled q) :
    (∀ q ∈ engineHistory l, Engine.ReplacesDeletable q) ↔ ∀ q ∈ l, HandlesDeletable q := by
  -- the handler runs where no write is pending
  have hidle : ∀ {s}, (s, .handle) ∈ l → s.task = some (.embedded .replace) →
      s.threads.settled = s.threads.engine := fun hmem htask =>
    Threads.settled_of_idle (hsettled _ hmem (by simp [htask]))
  constructor
  · rintro h ⟨s, a⟩ hmem
    cases a with
    | handle =>
        intro htask
        have hq := h (s.threads.settled, .replaceSegs) (mem_engineHistory.mpr
          ⟨_, hmem, .replaceSegs, by simp [threadStep, htask, EngineTask.handler], rfl⟩) rfl
        rwa [hidle hmem htask] at hq
    | _ => trivial
  · intro h q hq hreplace
    obtain ⟨⟨s, a⟩, hmem, b, hb, rfl⟩ := mem_engineHistory.mp hq
    obtain rfl : b = .replaceSegs := hreplace
    cases a with
    | handle =>
        obtain ⟨task, htask, heq⟩ := Option.map_eq_some_iff.mp hb
        obtain rfl : task = .embedded .replace := by
          cases task with
          | embedded m => cases m <;> simp_all [EngineTask.handler]
          | _ => simp [EngineTask.handler] at heq
        have hsources := h _ hmem htask
        rwa [← hidle hmem htask] at hsources
    | proc el b =>
        obtain ⟨l₁, l₂, s₂, rfl, hrun₁, hen, -, -⟩ := hrun.split hmem
        obtain rfl : b = .replaceSegs := by simpa [threadStep] using hb
        exact absurd hen.2.1 (by simp [Action.isHandler])
    | write => simp [threadStep] at hb
    | _ => simp [threadStep] at hb

/-- **The engine on pointers along a run of the pipeline.**  It comes to the same state, or it fails
an assertion, in a replace handler that meets sources that cannot be deleted. -/
lemma onPointers_of_run (hcap : 1 ≤ cap) (hrun : (pipelineSystem cap heap).Run l s)
    (hread : ∀ q ∈ l, ReadsEmpty q) (hsettled : ∀ q ∈ l, HandlesSettled q) :
    (∀ q ∈ l, HandlesDeletable q) ∧ (∃ u : Utlist SegPtr,
        onPointers cap heap l = .ok (s.threads.settled.relist u) ∧
        u.Begun 0 s.threads.settled.segments) ∨
      (∃ q ∈ l, ¬HandlesDeletable q) ∧ onPointers cap heap l = .error .assertion := by
  obtain ⟨hengine, -, -⟩ := engine_history hcap hrun hread hsettled
  have hiff := handlesDeletable_iff hrun hsettled
  rcases Engine.onPointers_of_run hcap hengine with ⟨hdel, hok⟩ | ⟨hnot, herror⟩
  · exact .inl ⟨hiff.mp hdel, hok⟩
  · refine .inr ⟨?_, herror⟩
    by_contra hall
    push Not at hall
    obtain ⟨q, hq, hnot⟩ := hnot
    exact hnot (hiff.mpr hall q hq)

/-! ## The queue drains -/

/-- The steps of the input thread, and the write that the merger has to make. -/
def Drains : PipelineStep → Prop
  | .dequeue | .dequeueReturn | .handle | .write => True
  | .add _ _ | .remove _ _ | .proc _ _ => False

/-- A state that such steps lead to, with `xs` queued and nothing in hand. -/
structure DrainedTo (cap : ℕ) (heap : DocHeap) (l : List (Pipeline × PipelineStep)) (s : Pipeline)
    (m : List (Pipeline × PipelineStep)) (s' : Pipeline) (xs : List EngineTask) : Prop where
  path : (pipelineSystem cap heap).Path l s m s'
  drains : ∀ q ∈ m, Drains q.2 ∧ ReadsEmpty q ∧ HandlesSettled q
  represents : s'.queue.Represents xs
  pc : s'.pc = .ready
  merger : s'.threads.pc = .idle

/-- **The handler of a task in hand does not fault** between two procedures of the merger. -/
lemma handle_ok (hcap : 1 ≤ cap) (hrun : (pipelineSystem cap heap).Run l s)
    (hread : ∀ q ∈ l, ReadsEmpty q) (hsettled : ∀ q ∈ l, HandlesSettled q)
    (hbody : s.pc = .body) (hidle : s.threads.pc = .idle) :
    ∃ s', exec cap .handle s = .ok s' ∧ s'.queue = s.queue ∧ s'.pc = .ready ∧
      s'.threads.pc = .idle := by
  obtain ⟨xs, hflow⟩ := flow_of_run hrun hread
  obtain ⟨task, htask⟩ := Option.isSome_iff_exists.mp (hflow.task hbody)
  have hrunning : s.running = .ok task := by simp [running, htask, hbody]
  obtain ⟨hengine, -, -⟩ := engine_history hcap hrun hread hsettled
  obtain ⟨log, hinv⟩ := Engine.inv_of_run hcap hengine
  rw [Threads.settled_of_idle hidle] at hinv
  have hok : ∃ e, Engine.exec cap task.handler s.threads.engine = .ok e := by
    cases task with
    | add d => exact ⟨_, rfl⟩
    | remove pk => exact ⟨_, rfl⟩
    | embedded m =>
        have hqueue := hflow.outstanding.inputQueue
        have hmem : m ∈ s.threads.engine.inputQueue := by
          rw [hqueue]
          simp [pending, hbody, htask]
        cases m with
        | replace =>
            obtain ⟨m1, m2, n, -, -, -, hok⟩ := hinv.replaceSegs_spec hmem
            exact ⟨_, hok⟩
        | redelete =>
            obtain ⟨e, hok, -⟩ := hinv.redelete hmem
            exact ⟨e, hok⟩
  obtain ⟨e, hok⟩ := hok
  have hmap : (Engine.exec cap task.handler s.threads.engine).map
      (fun e => (⟨e, s.threads.pc⟩ : Threads)) = .ok ⟨e, s.threads.pc⟩ :=
    map_eq_ok.mpr ⟨e, hok, rfl⟩
  have hthreads : s.threads.exec cap (.run task.handler) = .ok ⟨e, s.threads.pc⟩ := by
    cases task with
    | embedded m => cases m <;> exact hmap
    | _ => exact hmap
  refine ⟨{ s with
    threads := ⟨e, s.threads.pc⟩, pc := .ready }, ?_, rfl, rfl, hidle⟩
  exact bind_eq_ok.mpr ⟨task, hrunning, bind_eq_ok.mpr ⟨_, hthreads, rfl⟩⟩

/-- What `DrainedTo` says, behind a first step. -/
lemma DrainedTo.head {m : List (Pipeline × PipelineStep)} {s₁ : Pipeline}
    (h : DrainedTo cap heap ((s, a) :: l) s₁ m s' xs)
    (hen : s.Enabled cap (notes handedBy l) a) (hexec : exec cap a s = .ok s₁)
    (ha : Drains a ∧ ReadsEmpty (s, a) ∧ HandlesSettled (s, a)) :
    DrainedTo cap heap l s (m ++ [(s, a)]) s' xs where
  path := h.path.head hen hexec
  drains q hq := by
    rcases List.mem_append.mp hq with hq | hq
    · exact h.drains q hq
    · exact List.mem_singleton.mp hq ▸ ha
  represents := h.represents
  pc := h.pc
  merger := h.merger

/-- Between two calls of dequeue and two procedures, the input thread handles what is queued. -/
lemma exists_drained (hcap : 1 ≤ cap) (hrun : (pipelineSystem cap heap).Run l s)
    (hread : ∀ q ∈ l, ReadsEmpty q) (hsettled : ∀ q ∈ l, HandlesSettled q)
    (hrep : s.queue.Represents xs) (hpc : s.pc = .ready) (hidle : s.threads.pc = .idle) :
    ∃ m s', DrainedTo cap heap l s m s' [] := by
  induction xs generalizing l s with
  | nil => exact ⟨[], s, .nil, by simp, hrep, hpc, hidle⟩
  | cons task xs ih =>
      obtain ⟨xs', hflow⟩ := flow_of_run hrun hread
      obtain rfl := hrep.unique hflow.represents
      have hpos : 0 < s.queue.size := by
        rw [hflow.size]
        simp
      obtain ⟨task', rest, queue, heq, hdeq, hmax, hrep'⟩ := hrep.dequeue hpos
      obtain ⟨rfl, rfl⟩ := List.cons.inj heq
      have hbody : 0 < toInt32 s.queue.size :=
        (toInt32_pos_iff hrep.size_lt).mpr ⟨hpos, hflow.size_lt⟩
      have hexec : exec cap .dequeue s = .ok { s with
          queue, task := some task, pc := .body } := by
        refine bind_eq_ok.mpr ⟨_, mapError_eq_ok.mpr hdeq, ?_⟩
        simp [hbody, pure, Except.pure]
      have hrun₁ := hrun.step (M := pipelineSystem cap heap) (a := .dequeue) hpc hexec
      have hread₁ : ∀ q ∈ (s, .dequeue) :: l, ReadsEmpty q :=
        List.forall_mem_cons.mpr ⟨trivial, hread⟩
      have hsettled₁ : ∀ q ∈ (s, .dequeue) :: l, HandlesSettled q :=
        List.forall_mem_cons.mpr ⟨trivial, hsettled⟩
      obtain ⟨s₂, hexec₂, hqueue, hpc₂, hidle₂⟩ :=
        handle_ok hcap hrun₁ hread₁ hsettled₁ rfl hidle
      have hrun₂ := hrun₁.step (M := pipelineSystem cap heap) (a := .handle) (.inl rfl) hexec₂
      obtain ⟨m, s', hdrained⟩ := ih hrun₂ (List.forall_mem_cons.mpr ⟨trivial, hread₁⟩)
        (List.forall_mem_cons.mpr ⟨fun _ => hidle, hsettled₁⟩) (hqueue ▸ hrep') hpc₂ hidle₂
      exact ⟨_, s', (hdrained.head (.inl rfl) hexec₂ ⟨trivial, trivial, fun _ => hidle⟩).head hpc
        hexec ⟨trivial, trivial, trivial⟩⟩

/-- The merger makes the write that is pending. -/
lemma exists_written (cap : ℕ) (s : Pipeline) (hidle : s.threads.pc ≠ .idle) :
    ∃ t : Threads, t.pc = .idle ∧ exec cap .write s = .ok { s with threads := t } := by
  cases hpc : s.threads.pc with
  | idle => exact absurd hpc hidle
  | migrating =>
      refine ⟨⟨s.threads.engine.setStage 2, .idle⟩, rfl, map_eq_ok.mpr ⟨_, ?_, rfl⟩⟩
      simp [Threads.exec, hpc]
  | redeleting =>
      refine ⟨⟨s.threads.engine.setStage 5, .idle⟩, rfl, map_eq_ok.mpr ⟨_, ?_, rfl⟩⟩
      simp [Threads.exec, hpc]

/-- Once the merger is between two procedures, what is in hand is handled and what is queued. -/
lemma exists_drained_of_idle (hcap : 1 ≤ cap) (hrun : (pipelineSystem cap heap).Run l s)
    (hread : ∀ q ∈ l, ReadsEmpty q) (hsettled : ∀ q ∈ l, HandlesSettled q)
    (hnext : s.pc = .emptied → s.queue.size = 0) (hidle : s.threads.pc = .idle) :
    ∃ m s', DrainedTo cap heap l s m s' [] := by
  obtain ⟨xs, hflow⟩ := flow_of_run hrun hread
  cases hpc : s.pc with
  | ready => exact exists_drained hcap hrun hread hsettled hflow.represents hpc hidle
  | stale => exact absurd hpc hflow.notStale
  | emptied =>
      have hempty := hnext hpc
      have hexec : exec cap .dequeueReturn s = .ok { s with
          pc := .ready } := by simp [exec, Queue.readSize, toInt32, hempty]
      have hrun₁ := hrun.step (M := pipelineSystem cap heap) (a := .dequeueReturn) hpc hexec
      obtain ⟨m, s', hdrained⟩ := exists_drained hcap hrun₁
        (List.forall_mem_cons.mpr ⟨hempty, hread⟩) (List.forall_mem_cons.mpr ⟨trivial, hsettled⟩)
        hflow.represents rfl hidle
      exact ⟨_, s', hdrained.head hpc hexec ⟨trivial, hempty, trivial⟩⟩
  | body =>
      obtain ⟨s₁, hexec, hqueue, hpc₁, hidle₁⟩ := handle_ok hcap hrun hread hsettled hpc hidle
      have hrun₁ := hrun.step (M := pipelineSystem cap heap) (a := .handle) (.inl hpc) hexec
      obtain ⟨m, s', hdrained⟩ := exists_drained hcap hrun₁
        (List.forall_mem_cons.mpr ⟨trivial, hread⟩)
        (List.forall_mem_cons.mpr ⟨fun _ => hidle, hsettled⟩) (hqueue ▸ hflow.represents) hpc₁
        hidle₁
      exact ⟨_, s', hdrained.head (.inl hpc) hexec ⟨trivial, trivial, fun _ => hidle⟩⟩

/-- **The queue drains.**  Let every dequeue that has found the queue empty read its return value
before something arrives (and nothing have arrived behind one that has yet to read it), and no
handler of the merger's run between its enqueue and the write of the stage.  From a state so
reached, steps of the input thread, and the write that the merger may have to make first, lead to
one in which the queue is empty and all tasks that had been accepted have been handled, in order; on
the sequence of segments no handler faults.  The engine on pointers, if it has come to the first
state, comes to the last one, unless a replace handler meets sources that cannot be deleted; then
this one fails its assertion. -/
theorem queue_drains (hcap : 1 ≤ cap) (hrun : (pipelineSystem cap heap).Run l s)
    (hread : ∀ q ∈ l, ReadsEmpty q) (hsettled : ∀ q ∈ l, HandlesSettled q)
    (hnext : s.pc = .emptied → s.queue.size = 0) :
    ∃ m s', (pipelineSystem cap heap).Path l s m s' ∧
      (∀ q ∈ m, Drains q.2 ∧ ReadsEmpty q ∧ HandlesSettled q) ∧
      s'.queue.Represents [] ∧ notes handledBy (m ++ l) = notes acceptedBy l ∧
      ∀ e, onPointers cap heap l = .ok e →
        (∀ q ∈ m, HandlesDeletable q) ∧ (∃ u : Utlist SegPtr,
            onPointers cap heap (m ++ l) = .ok (s'.threads.engine.relist u) ∧
            u.Begun 0 s'.threads.engine.segments) ∨
          (∃ q ∈ m, ¬HandlesDeletable q) ∧ onPointers cap heap (m ++ l) = .error .assertion := by
  obtain ⟨m, s', h⟩ : ∃ m s', DrainedTo cap heap l s m s' [] := by
    by_cases hidle : s.threads.pc = .idle
    · exact exists_drained_of_idle hcap hrun hread hsettled hnext hidle
    · obtain ⟨t, ht, hexec⟩ := exists_written cap s hidle
      have hrun₁ := hrun.step (M := pipelineSystem cap heap) (a := .write) hidle hexec
      obtain ⟨m, s', h⟩ := exists_drained_of_idle hcap hrun₁
        (List.forall_mem_cons.mpr ⟨trivial, hread⟩) (List.forall_mem_cons.mpr ⟨trivial, hsettled⟩)
        hnext ht
      exact ⟨_, s', h.head hidle hexec ⟨trivial, trivial, trivial⟩⟩
  have hread' : ∀ q ∈ m ++ l, ReadsEmpty q :=
    List.forall_mem_append.mpr ⟨fun q hq => (h.drains q hq).2.1, hread⟩
  have hsettled' : ∀ q ∈ m ++ l, HandlesSettled q :=
    List.forall_mem_append.mpr ⟨fun q hq => (h.drains q hq).2.2, hsettled⟩
  refine ⟨m, s', h.path, h.drains, h.represents, ?_, fun e he => ?_⟩
  · obtain ⟨xs, hflow⟩ := flow_of_run (hrun.append h.path) hread'
    obtain rfl := h.represents.unique hflow.represents
    have horder := hflow.order
    have hnone : notes acceptedBy (m ++ l) = notes acceptedBy l := by
      have hm : m.filterMap acceptedBy = [] := List.filterMap_eq_nil_iff.mpr fun q hq => by
        obtain ⟨s, a⟩ := q
        have ha := (h.drains _ hq).1
        cases a <;> first | rfl | exact ha.elim
      simp [notes, List.filterMap_append, hm]
    have hpending : s'.pending = [] := if_neg (by simp [h.pc])
    rw [hnone, hpending] at horder
    simpa using horder.symm
  · -- no replace handler has failed so far
    have hdel : ∀ q ∈ l, HandlesDeletable q := by
      rcases onPointers_of_run hcap hrun hread hsettled with ⟨hdel, -⟩ | ⟨-, herror⟩
      · exact hdel
      · exact absurd (herror.symm.trans he) (by simp)
    rcases onPointers_of_run hcap (hrun.append h.path) hread' hsettled' with
      ⟨hall, u, hu, hbegun⟩ | ⟨⟨q, hq, hnot⟩, herror⟩
    · rw [Threads.settled_of_idle h.merger] at hu hbegun
      exact .inl ⟨fun q hq => hall q (List.mem_append_left _ hq), u, hu, hbegun⟩
    · rcases List.mem_append.mp hq with hq | hq
      · exact .inr ⟨⟨q, hq, hnot⟩, herror⟩
      · exact absurd (hdel q hq) hnot

/-- `queue_drains` where the merger's task is queued and its stage still to be written. -/
theorem queue_drains_sample : ∃ l s, (pipelineSystem 1 Engine.sampleHeap).Run l s ∧
    notes handledBy l = [.add 1, .add 2, .add 3, .remove 1] ∧
    ∃ m s', (pipelineSystem 1 Engine.sampleHeap).Path l s m s' ∧ s'.queue.Represents [] ∧
      notes handledBy (m ++ l) =
        [.add 1, .add 2, .add 3, .remove 1, .remove 2, .embedded .replace] ∧
      ((∀ q ∈ m, HandlesDeletable q) → ∃ u : Utlist SegPtr,
        onPointers 1 Engine.sampleHeap (m ++ l) = .ok (s'.threads.engine.relist u)) := by
  obtain ⟨l, s, hrun, htest⟩ := exists_run_of_execAll (M := pipelineSystem 1 Engine.sampleHeap)
    (fun l s => decide ((∀ q ∈ l, ReadsEmpty q) ∧ (∀ q ∈ l, HandlesSettled q) ∧
      notes handledBy l = [.add 1, .add 2, .add 3, .remove 1] ∧ notes acceptedBy l =
        [.add 1, .add 2, .add 3, .remove 1, .remove 2, .embedded .replace] ∧ s.pc = .ready) &&
      (onPointers 1 Engine.sampleHeap l).isOk)
    [.add 0 1, .dequeue, .handle, .add 1 2, .dequeue, .handle, .add 2 3, .dequeue, .handle,
      .remove 3 1, .dequeue, .handle, .proc 4 .procCheck, .remove 5 2, .proc 4 .procMigrate]
    (by decide +kernel)
  obtain ⟨htest, hptr⟩ := Bool.and_eq_true_iff.mp htest
  obtain ⟨hread, hsettled, hhandled, haccepted, hpc⟩ := of_decide_eq_true htest
  obtain ⟨m, s', hpath, -, hrep, hall, hpointers⟩ :=
    queue_drains le_rfl hrun hread hsettled (by simp [hpc])
  refine ⟨l, s, hrun, hhandled, m, s', hpath, hrep, hall.trans haccepted, fun hdel => ?_⟩
  cases he : onPointers 1 Engine.sampleHeap l with
  | error fault => simp [he, Except.isOk, Except.toBool] at hptr
  | ok e =>
      rcases hpointers e he with ⟨-, u, hu, -⟩ | ⟨⟨q, hq, hnot⟩, -⟩
      · exact ⟨u, hu⟩
      · exact absurd (hdel q hq) hnot

end Pipeline

end TsEngine
