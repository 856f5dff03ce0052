import TsEngine.Engine.Pipeline

/-!
# What the input queue delivers

`Flow` holds in every reachable state, as long as a dequeue that found nothing reads its return
value before something arrives: the tasks handled, the one in hand and those queued are the tasks
accepted, in order, and at most one of those that wait is the merger's.  So the queue holds at most
129 tasks, and no size that a client reads is taken for an error (`tasks_delivered`).
-/

namespace TsEngine

open Framework System

namespace Pipeline

variable {cap : ℕ} {heap : DocHeap} {l : List (Pipeline × PipelineStep)} {s s' : Pipeline}
  {a : PipelineStep} {xs : List EngineTask}

/-! ## The queue -/

/-- **What holds of the queue**, where it has the tasks `xs`. -/
structure Flow (l : List (Pipeline × PipelineStep)) (s : Pipeline) (xs : List EngineTask) :
    Prop where
  represents : s.queue.Represents xs
  order : notes acceptedBy l = notes handledBy l ++ (s.pending ++ xs)
  maxSize : s.queue.maxSize = queueSizeInput
  bounded : (xs.filter fun task => task.embedded?.isNone).length ≤ queueSizeInput
  notStale : s.pc ≠ .stale
  task : s.pc = .body → s.task.isSome
  outstanding : s.threads.Outstanding ((s.pending ++ xs).filterMap EngineTask.embedded?)

lemma flow_new (heap : DocHeap) : Flow [] (new heap) [] where
  represents := Queue.represents_init queueSizeInput
  order := rfl
  maxSize := rfl
  bounded := Nat.zero_le _
  notStale := by simp [new]
  task := by simp [new]
  outstanding := Threads.outstanding_of_idle rfl rfl

lemma length_eq_client_add_embedded (xs : List EngineTask) :
    xs.length = (xs.filter fun task => task.embedded?.isNone).length +
      (xs.filterMap EngineTask.embedded?).length := by
  induction xs with
  | nil => rfl
  | cons task xs ih =>
      rw [List.length_cons, List.filter_cons, List.filterMap_cons, ih]
      cases hemb : task.embedded? with
      | none => simp only [Option.isNone_none, if_true, List.length_cons]; omega
      | some m => simp [Nat.add_assoc]

/-- At most one of the tasks queued is the merger's. -/
lemma Flow.length_le (h : Flow l s xs) : xs.length ≤ queueSizeInput + 1 := by
  have hout := h.outstanding.length_le
  rw [List.filterMap_append, List.length_append] at hout
  have hbounded := h.bounded
  rw [length_eq_client_add_embedded]
  omega

lemma Flow.size (h : Flow l s xs) : s.queue.size = xs.length := by
  have hlength := h.length_le
  rw [queueSizeInput] at hlength
  rw [h.represents.size]
  omega

lemma Flow.size_lt (h : Flow l s xs) : s.queue.size < 2 ^ 31 := by
  have hlength := h.length_le
  rw [queueSizeInput] at hlength
  rw [h.size]
  omega

/-- **A step at whose end a task may have arrived.** -/
lemma Flow.arrive (h : Flow l s xs) (threads : Threads) {queue : Queue EngineTask}
    (hhandled : handledBy (s, a) = none) (hmax : queue.maxSize = s.queue.maxSize)
    (hrep : queue.Represents (xs ++ (acceptedBy (s, a)).toList))
    (hroom : ∀ task ∈ acceptedBy (s, a), task.embedded? = none → s.queue.isFull = false)
    (hout : threads.Outstanding
      ((s.pending ++ (xs ++ (acceptedBy (s, a)).toList)).filterMap EngineTask.embedded?)) :
    Flow ((s, a) :: l) { s with threads, queue } (xs ++ (acceptedBy (s, a)).toList) where
  represents := hrep
  order := by
    rw [notes_cons, notes_cons, hhandled, h.order, Option.toList_none, List.append_nil]
    simp [pending]
  maxSize := hmax.trans h.maxSize
  bounded := by
    have hbounded := h.bounded
    cases hacc : acceptedBy (s, a) with
    | none => simpa using hbounded
    | some task =>
        cases hemb : task.embedded? with
        | some m => simpa [List.filter_append, hemb] using hbounded
        | none =>
            have hfull := hroom task hacc hemb
            simp only [Queue.isFull, h.maxSize, queueSizeInput, h.size] at hfull
            have hlt : xs.length < queueSizeInput := by simpa [queueSizeInput] using hfull
            have hle := List.length_filter_le (fun task : EngineTask => task.embedded?.isNone) xs
            simp only [List.filter_append, List.length_append, Option.toList_some,
              List.filter_cons, hemb, Option.isNone_none, if_true, List.filter_nil,
              List.length_singleton]
            omega
  notStale := h.notStale
  task := h.task
  outstanding := hout

/-- The queue after an enqueue. -/
lemma enqueue_eq (hrep : s.queue.Represents xs) {el : ElemPtr} {task : EngineTask} {force : Bool}
    (hel : s.queue.elements el = none) (hexec : s.enqueue el task force = .ok s') :
    ∃ queue, s' = { s with queue } ∧ queue.maxSize = s.queue.maxSize ∧
      queue.Represents (xs ++ if (!s.queue.isFull || force) = true then [task] else []) := by
  obtain ⟨r, henq, rfl⟩ := map_eq_ok.mp hexec
  obtain ⟨queue, heq, hmax, hrep'⟩ := hrep.enqueue hel task force
  obtain rfl := Except.ok.inj ((mapError_eq_ok.mp henq).symm.trans heq)
  refine ⟨queue, rfl, hmax, ?_⟩
  convert hrep' using 1
  split_ifs <;> simp

/-- **A client's task arrives**, or finds the queue full. -/
lemma Flow.client (h : Flow l s xs) {el : ElemPtr} {task : EngineTask}
    (hel : s.queue.elements el = none) (htask : task.embedded? = none)
    (hexec : s.enqueue el task false = .ok s')
    (hhandled : handledBy (s, a) = none)
    (hacc : acceptedBy (s, a) = if !s.queue.isFull then some task else none) :
    Flow ((s, a) :: l) s' (xs ++ (acceptedBy (s, a)).toList) := by
  obtain ⟨queue, rfl, hmax, hrep⟩ := enqueue_eq h.represents hel hexec
  refine h.arrive s.threads hhandled hmax ?_ ?_ ?_
  · rw [hacc]
    convert hrep using 2
    cases s.queue.isFull <;> rfl
  · intro task' htask' _
    rw [hacc] at htask'
    cases hfull : s.queue.isFull with
    | false => rfl
    | true => simp [hfull] at htask'
  · have hnone : (acceptedBy (s, a)).toList.filterMap EngineTask.embedded? = [] := by
      rw [hacc]
      cases s.queue.isFull <;> simp [htask]
    rw [← List.append_assoc, List.filterMap_append, hnone, List.append_nil]
    exact h.outstanding

/-- A step that neither accepts nor handles a task. -/
lemma Flow.idle (h : Flow l s xs) {threads : Threads} (hhandled : handledBy (s, a) = none)
    (hacc : acceptedBy (s, a) = none)
    (hout : threads.Outstanding ((s.pending ++ xs).filterMap EngineTask.embedded?)) :
    Flow ((s, a) :: l) { s with threads } xs := by
  have harrive := h.arrive (a := a) threads hhandled (rfl : s.queue.maxSize = s.queue.maxSize)
  simp only [hacc, Option.toList_none, List.append_nil] at harrive
  exact harrive h.represents (by simp) hout

/-- **A procedure of the merger, or a lookup.** -/
lemma Flow.proc (h : Flow l s xs) {el : ElemPtr} {b : Action} {handed : List DocPtr}
    (hen : s.Enabled cap handed (.proc el b)) (hexec : exec cap (.proc el b) s = .ok s') :
    ∃ xs', Flow ((s, .proc el b) :: l) s' xs' := by
  obtain ⟨hel, hhandler, hpc⟩ := hen
  obtain ⟨threads, hthreads, hexec⟩ := bind_eq_ok.mp hexec
  have hout : threads.Outstanding ((s.pending ++ xs).filterMap EngineTask.embedded? ++
      (b.enqueues s.threads.engine.merger.mergeStage).toList) := by
    by_cases hb : b.isProc = true
    · exact h.outstanding.proc (hpc hb) hb hthreads
    · have hclient : Engine.isClient b = true := by
        cases b <;> first | rfl | exact absurd rfl hb | simp [Action.isHandler] at hhandler
      have hnone : b.enqueues s.threads.engine.merger.mergeStage = none := by
        cases b <;> first | rfl | exact absurd rfl hb
      rw [hnone, Option.toList_none, List.append_nil]
      exact h.outstanding.client hclient hthreads
  have hacc : acceptedBy (s, .proc el b) =
      (b.enqueues s.threads.engine.merger.mergeStage).map .embedded := rfl
  cases htask : b.enqueues s.threads.engine.merger.mergeStage with
  | none =>
      simp only [htask] at hexec hout hacc
      obtain rfl := Except.ok.inj hexec
      exact ⟨xs, h.idle rfl hacc (by simpa using hout)⟩
  | some task =>
      simp only [htask] at hexec hout hacc
      obtain ⟨queue, rfl, hmax, hrep⟩ :=
        enqueue_eq (s := { s with threads }) h.represents hel hexec
      refine ⟨_, h.arrive (a := .proc el b) threads rfl hmax ?_ ?_ ?_⟩
      · rw [hacc]
        simpa using hrep
      · intro task' htask' hnone
        rw [hacc] at htask'
        obtain rfl := Option.some.inj htask'
        exact absurd hnone (by simp)
      · rw [hacc, ← List.append_assoc, List.filterMap_append]
        exact hout

/-- **The input thread takes a task out**, if there is one. -/
lemma Flow.dequeue (h : Flow l s xs) (hpc : s.pc = .ready) (hexec : exec cap .dequeue s = .ok s') :
    ∃ xs', Flow ((s, .dequeue) :: l) s' xs' := by
  have hpending : s.pending = [] := if_neg (by simp [hpc])
  have horder := h.order
  have hout := h.outstanding
  rw [hpending, List.nil_append] at horder hout
  obtain ⟨r, hdeq, hexec⟩ := bind_eq_ok.mp hexec
  have hdeq := mapError_eq_ok.mp hdeq
  by_cases hsize : s.queue.size = 0
  · obtain rfl := Except.ok.inj (hdeq.symm.trans (Queue.dequeue_of_size_eq_zero hsize))
    obtain rfl := Except.ok.inj hexec
    refine ⟨xs, h.represents, ?_, h.maxSize, h.bounded, by simp, by simp, ?_⟩
    · simpa [notes_cons, acceptedBy, handledBy, pending] using horder
    · simpa [pending] using hout
  · have hpos : 0 < s.queue.size := Nat.pos_of_ne_zero hsize
    obtain ⟨task, rest, queue, rfl, heq, hmax, hrep⟩ := h.represents.dequeue hpos
    obtain rfl := Except.ok.inj (hdeq.symm.trans heq)
    obtain rfl := Except.ok.inj hexec
    have hbody : 0 < toInt32 s.queue.size :=
      (toInt32_pos_iff h.represents.size_lt).mpr ⟨hpos, h.size_lt⟩
    refine ⟨rest, hrep, ?_, hmax.trans h.maxSize, ?_, by simp [hbody], fun _ => rfl, ?_⟩
    · simpa [notes_cons, acceptedBy, handledBy, pending, hbody] using horder
    · have hsub := List.Sublist.filter (fun task : EngineTask => task.embedded?.isNone)
        (List.sublist_cons_self task rest)
      exact hsub.length_le.trans h.bounded
    · simpa [pending, hbody] using hout

/-- **The input thread handles the task it has in hand.** -/
lemma Flow.handle (h : Flow l s xs) (hpc : s.pc = .body ∨ s.pc = .stale)
    (hexec : exec cap .handle s = .ok s') : Flow ((s, .handle) :: l) s' xs := by
  have hpc : s.pc = .body := hpc.resolve_right h.notStale
  obtain ⟨task, htask⟩ := Option.isSome_iff_exists.mp (h.task hpc)
  have hpending : s.pending = [task] := by simp [pending, hpc, htask]
  have hrunning : s.running = .ok task := by simp [running, htask, hpc]
  have horder := h.order
  have hout := h.outstanding
  rw [hpending] at horder hout
  obtain ⟨task', htask', hexec⟩ := bind_eq_ok.mp hexec
  obtain rfl := Except.ok.inj (htask'.symm.trans hrunning)
  obtain ⟨threads, hthreads, hexec⟩ := bind_eq_ok.mp hexec
  obtain rfl := Except.ok.inj hexec
  refine ⟨h.represents, ?_, h.maxSize, h.bounded, by simp, by simp, ?_⟩
  · simpa [notes_cons, acceptedBy, handledBy, pending, htask] using horder
  · have hnil : xs.filterMap EngineTask.embedded? = [] ∨ task'.embedded? = none := by
      cases hemb : task'.embedded? with
      | none => exact .inr rfl
      | some m =>
          have hlength := hout.length_le
          simp only [List.singleton_append, List.filterMap_cons, hemb, List.length_cons] at hlength
          exact .inl (List.length_eq_zero_iff.mp (by omega))
    have hnopending : ({ s with threads, pc := .ready } : Pipeline).pending = [] := rfl
    rw [hnopending, List.nil_append]
    cases task' with
    | embedded m =>
        have hnil := hnil.resolve_right (by simp)
        simp only [List.singleton_append, List.filterMap_cons, EngineTask.embedded?_embedded,
          hnil] at hout
        rw [hnil]
        exact hout.handle hthreads
    | add d => exact hout.client rfl hthreads
    | remove pk => exact hout.client rfl hthreads

/-- **A step.** -/
lemma Flow.step (h : Flow l s xs) (hread : ReadsEmpty (s, a)) {handed : List DocPtr}
    (hen : s.Enabled cap handed a) (hexec : exec cap a s = .ok s') :
    ∃ xs', Flow ((s, a) :: l) s' xs' := by
  cases a with
  | add el d =>
      simp only [exec] at hexec
      split_ifs at hexec with hcheck
      · obtain rfl := Except.ok.inj hexec
        have hacc : acceptedBy (s, .add el d) = none := by simp_all [acceptedBy]
        exact ⟨xs, h.idle rfl hacc h.outstanding⟩
      · refine ⟨_, h.client hen.1 rfl hexec rfl ?_⟩
        simp_all [acceptedBy]
  | remove el pk =>
      simp only [exec] at hexec
      split_ifs at hexec
      exact ⟨_, h.client hen rfl hexec rfl rfl⟩
  | dequeue => exact h.dequeue hen hexec
  | dequeueReturn =>
      have hread : s.queue.size = 0 := hread
      have hsize : ¬0 < s.queue.readSize := by simp [Queue.readSize, toInt32, hread]
      obtain rfl := Except.ok.inj hexec
      have hpc : s.pc = .emptied := hen
      have horder := h.order
      have hout := h.outstanding
      have hpending : s.pending = [] := if_neg (by simp [hpc])
      rw [hpending] at horder hout
      refine ⟨xs, h.represents, ?_, h.maxSize, h.bounded, by simp [hsize], by simp [hsize], ?_⟩
      · simpa [notes_cons, acceptedBy, handledBy, pending, hsize] using horder
      · simpa [pending, hsize] using hout
  | handle => exact ⟨xs, h.handle hen hexec⟩
  | proc el b => exact h.proc hen hexec
  | write =>
      obtain ⟨threads, hthreads, rfl⟩ := map_eq_ok.mp hexec
      exact ⟨xs, h.idle rfl rfl (h.outstanding.write hthreads)⟩

/-- What `Flow` says holds in every reachable state. -/
lemma flow_of_run (hrun : (pipelineSystem cap heap).Run l s) (hread : ∀ q ∈ l, ReadsEmpty q) :
    ∃ xs, Flow l s xs := by
  refine Run.invariant (fun l s => (∀ q ∈ l, ReadsEmpty q) → ∃ xs, Flow l s xs)
    (fun _ => ⟨[], flow_new heap⟩) (fun {l s a s'} _ ih hen hexec hread => ?_) hrun hread
  obtain ⟨hq, hread⟩ := List.forall_mem_cons.mp hread
  obtain ⟨xs, h⟩ := ih hread
  exact h.step hq hen hexec

/-- **The tasks accepted are handled in order, each once.**  At most one task of those that wait is
the merger's, so the queue holds at most one more than its bound, and the size that a client reads
behind the unlock is not negative. -/
theorem tasks_delivered (hrun : (pipelineSystem cap heap).Run l s)
    (hread : ∀ q ∈ l, ReadsEmpty q) :
    ∃ xs, s.queue.Represents xs ∧
      notes acceptedBy l = notes handledBy l ++ (s.pending ++ xs) ∧
      (xs.length ≤ queueSizeInput + 1 ∧ 0 ≤ s.queue.readSize) ∧
      (s.pending ++ xs).filterMap EngineTask.embedded? = s.threads.engine.inputQueue ∧
      s.threads.engine.inputQueue.length ≤ 1 := by
  obtain ⟨xs, h⟩ := flow_of_run hrun hread
  refine ⟨xs, h.represents, h.order, ⟨h.length_le, ?_⟩, h.outstanding.inputQueue.symm, ?_⟩
  · rw [Queue.readSize, toInt32, if_pos h.size_lt]
    exact Int.natCast_nonneg _
  · rw [h.outstanding.inputQueue]
    exact h.outstanding.length_le

/-- `tasks_delivered` for two tasks of clients and one of the merger. -/
theorem tasks_delivered_sample : ∃ l s, (pipelineSystem 1 Engine.sampleHeap).Run l s ∧
    notes acceptedBy l = [.add 1, .add 2, .add 3, .remove 1, .embedded .replace, .add 4] ∧
    ∃ xs, s.queue.Represents xs ∧ notes acceptedBy l = notes handledBy l ++ (s.pending ++ xs) ∧
      0 ≤ s.queue.readSize := by
  obtain ⟨l, s, hrun, htest⟩ := exists_run_of_execAll (M := pipelineSystem 1 Engine.sampleHeap)
    (fun l _ => decide ((∀ q ∈ l, ReadsEmpty q) ∧
      notes acceptedBy l = [.add 1, .add 2, .add 3, .remove 1, .embedded .replace, .add 4]))
    [.add 0 1, .dequeue, .add 1 2, .handle, .add 2 3, .remove 3 1, .dequeue, .handle, .dequeue,
      .handle, .dequeue, .handle, .dequeue, .dequeueReturn, .proc 4 .procCheck,
      .proc 4 .procMigrate, .write, .dequeue, .add 5 4] (by decide +kernel)
  obtain ⟨hread, haccepted⟩ := of_decide_eq_true htest
  obtain ⟨xs, hrep, horder, ⟨-, hsize⟩, -⟩ := tasks_delivered hrun hread
  exact ⟨l, s, hrun, haccepted, xs, hrep, horder, hsize⟩

end Pipeline

end TsEngine
