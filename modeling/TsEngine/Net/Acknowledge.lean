import Mathlib.Data.List.ReduceOption
import TsEngine.Engine.Lookup
import TsEngine.Net.Adapter
import TsEngine.Tasks.QueueRuns

/-!
# Acknowledging a request

The thread of the server goes through the operations of an add or remove request, hands one after
the other to the engine, and then sends a response.  The engine puts an operation on its input
queue, which is bounded; between two accesses to it the input thread takes tasks out and the merger
forces its own in.

An operation that the engine rejects is skipped, and `error_code` is not assigned anywhere.  So what
is queued is what the engine accepted, in order (`Progress`), but the response says so only if
nothing was rejected: `acknowledge_iff`.
-/

namespace TsEngine

open Framework System

/-- `ERROR_CODE_QUEUE_FULL`. -/
def errorCodeQueueFull : ℤ := -2

/-- `QUEUE_SIZE_INPUT`. -/
def queueSizeInput : ℕ := 128

/-- What a client asks the engine for. -/
inductive Operation
  | add (document : Document)
  | remove (pk : ℕ)

/-- A task of the input queue. -/
inductive InputTask
  | client (op : Operation)
  | merger (task : MergerTask)

/-- The operation of a task, if it is a client's. -/
def InputTask.client? : InputTask → Option Operation
  | .client op => some op
  | .merger _ => none

/-! ## The calls of the engine -/

section Calls

variable (q : Queue InputTask) (el : ElemPtr)

/-- `ts_engine_add_document` up to the unlock of the queue: the value it returns, or `none` if it
still has to read the size. -/
def engineAddDocument (doc : Document) : Except Queue.Error (Queue InputTask × Option ℤ) := do
  if !doc.check then return (q, some errorCodeInvalidArgument)
  let (q, accepted) ← q.enqueue el (.client (.add doc)) false
  return (q, if accepted then none else some errorCodeQueueFull)

/-- `ts_engine_remove_document` up to the unlock.  Its assertion that `pk` is not zero holds, for
the server skips such a `pk`. -/
def engineRemoveDocument (pk : ℕ) : Except Queue.Error (Queue InputTask × Option ℤ) := do
  let (q, accepted) ← q.enqueue el (.client (.remove pk)) false
  return (q, if accepted then none else some errorCodeQueueFull)

/-- The call for an operation. -/
def Operation.call : Operation → Except Queue.Error (Queue InputTask × Option ℤ)
  | .add document => engineAddDocument q el document
  | .remove pk => engineRemoveDocument q el pk

/-- The end of either call, after the unlock. -/
def engineReturn : ℤ := if q.readSize < 0 then errorCodeQueueFull else errorCodeSuccess

end Calls

/-! ## The requests -/

/-- The iterations of `ts_server_request_process_add_document`: the operation handed to the engine,
or `none` for a `continue`. -/
def processAddDocument (documents : List Proto.Document) : List (Option Operation) :=
  documents.map fun document =>
    if document.fields.isEmpty then none else some (.add (adapterDocument document))

/-- The iterations of `ts_server_request_process_remove_document`. -/
def processRemoveDocument (pks : List ℕ) : List (Option Operation) :=
  pks.map fun pk => if pk = 0 then none else some (.remove pk)

/-- A request, unpacked. -/
inductive OperateRequest
  | add (documents : List Proto.Document)
  | remove (pks : List ℕ)

namespace OperateRequest

/-- The iterations of the loop. -/
def iterations : OperateRequest → List (Option Operation)
  | .add documents => processAddDocument documents
  | .remove pks => processRemoveDocument pks

/-- The documents with a field, or the primary keys other than zero. -/
def operations (request : OperateRequest) : List Operation := request.iterations.reduceOption

/-- A document with a field has a primary key. -/
def Valid : OperateRequest → Prop
  | .add documents => ∀ d ∈ documents, d.fields ≠ [] → d.pk ≠ 0
  | .remove _ => True

end OperateRequest

/-- `ResponseOperate` of `protocol.proto`. -/
structure OperateResponse where
  code : ℤ
  msg : String
  deriving DecidableEq

/-- The thread of the server in one of the two functions: the iterations left, the operation whose
call has not returned, the locals, and the response once it is sent; and the input queue. -/
structure OperateServer where
  rest : List (Option Operation)
  calling : Option Operation
  errorCode : ℤ
  msg : String
  sent : Option OperateResponse
  queue : Queue InputTask

/-- The steps of the three threads. -/
inductive OperateStep
  /-- An iteration of the loop up to the unlock, with an element at `el`. -/
  | iterate (el : ElemPtr)
  /-- The end of the call and of the iteration. -/
  | callReturn
  /-- The response. -/
  | send
  /-- The input thread takes a task out. -/
  | dequeue
  /-- The merger forces a task in, with an element at `el`. -/
  | embed (el : ElemPtr) (task : MergerTask)

namespace OperateServer

/-- Before the loop. -/
def start (request : OperateRequest) (queue : Queue InputTask) : OperateServer :=
  ⟨request.iterations, none, errorCodeSuccess, "ok", none, queue⟩

/-- The effect of a step.  Whatever a call returns, the loop goes on. -/
def exec : OperateStep → OperateServer → Except Queue.Error OperateServer
  | .iterate el, s =>
      match s.rest with
      | [] => .ok s
      | none :: rest => .ok { s with rest }
      | some op :: rest => do
          let (queue, r) ← op.call s.queue el
          return { s with rest, queue, calling := if r.isSome then none else some op }
  | .callReturn, s => .ok { s with calling := none }
  | .send, s => .ok { s with sent := some ⟨s.errorCode, s.msg⟩ }
  | .dequeue, s => do
      let (queue, _) ← s.queue.dequeue
      return { s with queue }
  | .embed el task, s => do
      let (queue, _) ← s.queue.enqueue el (.merger task) true
      return { s with queue }

/-- When a step may be taken: the allocator gives an address that is not in use, and the merger does
not embed so many tasks that the size gets negative as an `int`. -/
def Enabled (s : OperateServer) : OperateStep → Prop
  | .iterate el => s.sent = none ∧ s.calling.isNone ∧ ¬s.rest.isEmpty ∧ s.queue.elements el = none
  | .callReturn => s.calling.isSome
  | .send => s.sent = none ∧ s.calling.isNone ∧ s.rest.isEmpty
  | .dequeue => True
  | .embed el _ => s.queue.elements el = none ∧ s.queue.size + 1 < 2 ^ 31

instance (s : OperateServer) (a : OperateStep) : Decidable (s.Enabled a) :=
  have (el : ElemPtr) : Decidable (s.queue.elements el = none) :=
    decidable_of_iff _ Option.isNone_iff_eq_none
  match a with
  | .iterate _ => inferInstanceAs (Decidable (_ ∧ _ ∧ _ ∧ _))
  | .callReturn => inferInstanceAs (Decidable (_ = _))
  | .send => inferInstanceAs (Decidable (_ ∧ _ ∧ _))
  | .dequeue => inferInstanceAs (Decidable True)
  | .embed _ _ => inferInstanceAs (Decidable (_ ∧ _))

end OperateServer

/-- One request, next to the input thread and the merger. -/
def operateSystem (request : OperateRequest) (queue : Queue InputTask) :
    System OperateServer OperateStep Queue.Error where
  init := .start request queue
  enabled _ s a := s.Enabled a
  exec := OperateServer.exec

instance (request : OperateRequest) (queue : Queue InputTask)
    (l : List (OperateServer × OperateStep)) (s : OperateServer) (a : OperateStep) :
    Decidable ((operateSystem request queue).enabled l s a) :=
  inferInstanceAs (Decidable (s.Enabled a))

/-! ## What a history says -/

/-- The operation that a step hands to the engine. -/
def takenBy : OperateServer × OperateStep → Option Operation
  | (s, .iterate _) => s.rest.head?.join
  | _ => none

/-- The call that an iteration makes, and the value it has returned by the unlock. -/
def callBy : OperateServer × OperateStep → Option (Operation × Option ℤ)
  | (s, .iterate el) =>
      match s.rest with
      | some op :: _ => (op.call s.queue el).toOption.map fun q => (op, q.2)
      | _ => none
  | _ => none

/-- The call that a step completes, and the value it returns. -/
def returnBy : OperateServer × OperateStep → Option (Operation × ℤ)
  | (s, .iterate el) =>
      match callBy (s, .iterate el) with
      | some (op, some r) => some (op, r)
      | _ => none
  | (s, .callReturn) => s.calling.map fun op => (op, engineReturn s.queue)
  | _ => none

/-- The task that a step leaves on the queue. -/
def arrivalBy : OperateServer × OperateStep → Option InputTask
  | (s, .iterate el) =>
      match callBy (s, .iterate el) with
      | some (op, none) => some (.client op)
      | _ => none
  | (_, .embed _ task) => some (.merger task)
  | _ => none

/-- The task that a step takes out. -/
def departureBy : OperateServer × OperateStep → Option InputTask
  | (s, .dequeue) =>
      match s.queue.dequeue with
      | .ok (_, some (task, _)) => some task
      | _ => none
  | _ => none

/-- The response with `code` is what the history `l` warrants, where the queue held `xs` at first.
-/
structure Acknowledged (request : OperateRequest) (xs : List InputTask)
    (l : List (OperateServer × OperateStep)) (s : OperateServer) (code : ℤ) : Prop where
  /-- Each operation was handed to the engine once, in the order of the request. -/
  handled : (notes returnBy l).map Prod.fst = request.operations
  /-- Those that were not rejected were queued, in order, and no others. -/
  placed : (notes arrivalBy l).filterMap InputTask.client? =
    ((notes returnBy l).filter fun q => 0 ≤ q.2).map Prod.fst
  /-- The queue lost nothing of it. -/
  queued : Fifo s.queue (xs ++ notes arrivalBy l) (notes departureBy l)
  /-- The code is a success and all are queued, or it is the error of one that was rejected. -/
  answer : code = errorCodeSuccess ∧
      (notes arrivalBy l).filterMap InputTask.client? = request.operations ∨
    ∃ q ∈ notes returnBy l, q.2 < 0 ∧ code = q.2

/-- If a step hands an operation to the engine, there is room for it. -/
def RoomForCall (q : OperateServer × OperateStep) : Prop :=
  (takenBy q).isSome → q.1.queue.isFull = false

instance : DecidablePred RoomForCall := fun _ =>
  inferInstanceAs (Decidable (_ = true → _ = false))

/-! ## One call -/

/-- `ts_document_check` where there is a document. -/
def Operation.check : Operation → Bool
  | .add document => document.check
  | .remove _ => true

/-- The error of an operation that is rejected. -/
def Operation.rejection (op : Operation) (q : Queue InputTask) : Option ℤ :=
  if op.check = false then some errorCodeInvalidArgument
  else if q.isFull then some errorCodeQueueFull
  else none

section Calls

variable {q q' : Queue InputTask} {acc del : List InputTask} {x : InputTask} {el : ElemPtr}

lemma Operation.call_of_check {op : Operation} (hcheck : op.check = true) : op.call q el = (do
    let (q, accepted) ← q.enqueue el (.client op) false
    return (q, if accepted then none else some errorCodeQueueFull)) := by
  cases op with
  | add document =>
      have hcheck : document.check = true := hcheck
      simp [call, engineAddDocument, hcheck]
  | remove pk => rfl

lemma Operation.call_of_not_check {op : Operation} (hcheck : op.check = false) :
    op.call q el = .ok (q, some errorCodeInvalidArgument) := by
  cases op with
  | add document =>
      have hcheck : document.check = false := hcheck
      simp [call, engineAddDocument, hcheck, pure, Except.pure]
  | remove pk => exact absurd hcheck (by simp [check])

lemma Operation.rejection_neg {op : Operation} {r : ℤ} (h : op.rejection q = some r) : r < 0 := by
  unfold Operation.rejection at h
  split_ifs at h <;> cases h <;> decide

lemma Operation.rejection_eq_none {op : Operation} :
    op.rejection q = none ↔ op.check = true ∧ q.isFull = false := by
  unfold Operation.rejection
  split_ifs with hcheck hfull <;> simp_all

/-- **A call** leaves a task on the queue unless it is rejected. -/
lemma Operation.call_eq (op : Operation) (h : Fifo q acc del) (hel : q.elements el = none) :
    ∃ q', op.call q el = .ok (q', op.rejection q) ∧ q'.maxSize = q.maxSize ∧
      Fifo q' (acc ++ if (op.rejection q).isNone then [.client op] else []) del := by
  cases hcheck : op.check with
  | false =>
      have hrejection : op.rejection q = some errorCodeInvalidArgument := if_pos hcheck
      rw [hrejection, call_of_not_check hcheck]
      exact ⟨q, rfl, rfl, by simpa using h⟩
  | true =>
      obtain ⟨q', hok, hmax, hfifo⟩ := h.enqueue hel (.client op) false
      have hrejection : op.rejection q =
          if (!q.isFull || false) = true then none else some errorCodeQueueFull := by
        cases hfull : q.isFull <;> simp [rejection, hcheck, hfull]
      refine ⟨q', ?_, hmax, ?_⟩
      · rw [call_of_check hcheck, hrejection]
        exact bind_eq_ok.mpr ⟨_, hok, rfl⟩
      · rw [hrejection]
        convert hfifo using 3
        split_ifs <;> simp_all

lemma Fifo.size_le_of_append (h : Fifo q acc del) (h' : Fifo q' (acc ++ [x]) del) :
    q'.size ≤ q.size + 1 := by
  obtain ⟨xs, hrep, rfl⟩ := h
  obtain ⟨ys, hrep', heq⟩ := h'
  rw [List.append_assoc] at heq
  obtain rfl := List.append_cancel_left heq
  rw [hrep'.size, hrep.size, List.length_append, List.length_singleton]
  omega

lemma Fifo.size_le_of_dequeue (h : Fifo q acc del) (hsize : 0 < q.size)
    (h' : Fifo q' acc (del ++ [x])) : q'.size ≤ q.size := by
  obtain ⟨xs, hrep, rfl⟩ := h
  obtain ⟨ys, hrep', heq⟩ := h'
  rw [List.append_assoc] at heq
  obtain rfl := List.append_cancel_left heq
  have hq := hrep.size
  rw [List.length_append, List.length_singleton] at hq
  rw [hrep'.size]
  omega

lemma engineReturn_of_lt (hsize : q.size < 2 ^ 31) : engineReturn q = errorCodeSuccess := by
  refine if_neg ?_
  rw [Queue.readSize, toInt32, if_pos hsize]
  omega

end Calls

/-! ## Progress -/

section Results

variable {request : OperateRequest} {queue : Queue InputTask} {xs : List InputTask}
  {l : List (OperateServer × OperateStep)} {s : OperateServer}

/-- What holds after any steps. -/
structure Progress (request : OperateRequest) (xs : List InputTask)
    (l : List (OperateServer × OperateStep)) (s : OperateServer) : Prop where
  order : notes takenBy l ++ s.rest.reduceOption = request.operations
  calls : (notes returnBy l).map Prod.fst ++ s.calling.toList = notes takenBy l
  placed : (notes arrivalBy l).filterMap InputTask.client? =
    ((notes returnBy l).filter fun q => 0 ≤ q.2).map Prod.fst ++ s.calling.toList
  fifo : Fifo s.queue (xs ++ notes arrivalBy l) (notes departureBy l)
  maxSize : s.queue.maxSize = queueSizeInput
  small : s.calling.isSome → s.queue.size < 2 ^ 31
  errorCode : s.errorCode = errorCodeSuccess
  sent : ∀ r, s.sent = some r → r.code = errorCodeSuccess ∧ s.rest = [] ∧ s.calling = none
  accepts : (∀ q ∈ notes returnBy l, 0 ≤ q.2) ↔
    ∀ q ∈ l, ∀ op ∈ takenBy q, op.rejection q.1.queue = none

lemma progress_start (hrep : queue.Represents xs) (hmax : queue.maxSize = queueSizeInput) :
    Progress request xs [] (.start request queue) where
  order := rfl
  calls := rfl
  placed := rfl
  fifo := ⟨xs, hrep, by simp [notes]⟩
  maxSize := hmax
  small := nofun
  errorCode := rfl
  sent := nofun
  accepts := by simp [notes]

/-- A step of the server that neither calls the engine nor returns from it. -/
lemma Progress.skip (h : Progress request xs l s) {a : OperateStep} {s' : OperateServer}
    (htaken : takenBy (s, a) = none) (hreturn : returnBy (s, a) = none)
    (harrival : arrivalBy (s, a) = none) (hdeparture : departureBy (s, a) = none)
    (hrest : s'.rest.reduceOption = s.rest.reduceOption) (hcalling : s'.calling = s.calling)
    (hqueue : s'.queue = s.queue) (hcode : s'.errorCode = s.errorCode)
    (hsent : ∀ r, s'.sent = some r → r.code = errorCodeSuccess ∧ s'.rest = [] ∧ s'.calling = none) :
    Progress request xs ((s, a) :: l) s' where
  order := by simpa [notes_cons, htaken, hrest] using h.order
  calls := by simpa [notes_cons, htaken, hreturn, hcalling] using h.calls
  placed := by simpa [notes_cons, harrival, hreturn, hcalling] using h.placed
  fifo := by simpa [notes_cons, harrival, hdeparture, hqueue] using h.fifo
  maxSize := hqueue ▸ h.maxSize
  small := by
    rw [hcalling, hqueue]
    exact h.small
  errorCode := hcode.trans h.errorCode
  sent := hsent
  accepts := by simpa [notes_cons, hreturn, htaken] using h.accepts

/-- A step of another thread, which leaves the server where it is. -/
lemma Progress.other (h : Progress request xs l s) {a : OperateStep} {q' : Queue InputTask}
    (htaken : takenBy (s, a) = none) (hreturn : returnBy (s, a) = none)
    (harrival : ∀ task ∈ arrivalBy (s, a), task.client? = none)
    (hfifo : Fifo q' (xs ++ notes arrivalBy ((s, a) :: l)) (notes departureBy ((s, a) :: l)))
    (hmax : q'.maxSize = s.queue.maxSize) (hsmall : s.queue.size < 2 ^ 31 → q'.size < 2 ^ 31) :
    Progress request xs ((s, a) :: l) { s with queue := q' } where
  order := by simpa [notes_cons, htaken] using h.order
  calls := by simpa [notes_cons, htaken, hreturn] using h.calls
  placed := by
    have hnone : (arrivalBy (s, a)).toList.filterMap InputTask.client? = [] := by
      cases htask : arrivalBy (s, a) with
      | none => rfl
      | some task => simp [harrival task htask]
    simpa [notes_cons, hreturn, hnone] using h.placed
  fifo := hfifo
  maxSize := hmax.trans h.maxSize
  small hcalling := hsmall (h.small hcalling)
  errorCode := h.errorCode
  sent := h.sent
  accepts := by simpa [notes_cons, hreturn, htaken] using h.accepts

/-- **An iteration** that hands an operation to the engine. -/
lemma Progress.iterate (h : Progress request xs l s) {op : Operation}
    {rest : List (Option Operation)} {el : ElemPtr} (hrest : s.rest = some op :: rest)
    (hsent : s.sent = none) (hcalling : s.calling = none) (hel : s.queue.elements el = none) :
    ∃ s', OperateServer.exec (.iterate el) s = .ok s' ∧
      Progress request xs ((s, .iterate el) :: l) s' := by
  obtain ⟨q', hok, hmax, hfifo⟩ := op.call_eq h.fifo hel
  have htaken : takenBy (s, .iterate el) = some op := by simp [takenBy, hrest]
  have hcall : callBy (s, .iterate el) = some (op, op.rejection s.queue) := by
    simp [callBy, hrest, hok, Except.toOption]
  have hdeparture : departureBy (s, .iterate el) = none := rfl
  refine ⟨{ s with
    rest, queue := q', calling := if (op.rejection s.queue).isSome then none else some op }, ?_, ?_⟩
  · rw [OperateServer.exec, hrest]
    exact bind_eq_ok.mpr ⟨_, hok, rfl⟩
  have horder := h.order
  have hcalls := h.calls
  have hplaced := h.placed
  rw [hrest, List.reduceOption_cons_of_some] at horder
  rw [hcalling, Option.toList_none, List.append_nil] at hcalls hplaced
  cases hrejection : op.rejection s.queue with
  | some r =>
      have hneg : ¬0 ≤ r := not_le.mpr (Operation.rejection_neg hrejection)
      have hreturn : returnBy (s, .iterate el) = some (op, r) := by
        simp only [returnBy, hcall, hrejection]
      have harrival : arrivalBy (s, .iterate el) = none := by
        simp only [arrivalBy, hcall, hrejection]
      rw [hrejection, Option.isNone_some, if_neg Bool.false_ne_true, List.append_nil] at hfifo
      refine ⟨?_, ?_, ?_, ?_, hmax.trans h.maxSize, nofun, h.errorCode, ?_, ?_⟩
      · simpa [notes_cons, htaken] using horder
      · simpa [notes_cons, htaken, hreturn] using hcalls
      · simpa [notes_cons, harrival, hreturn, hneg] using hplaced
      · simpa [notes_cons, harrival, hdeparture] using hfifo
      · exact fun r' hr' => absurd (hsent.symm.trans hr') (by simp)
      · refine iff_of_false (fun hall => hneg ?_) (fun hall => ?_)
        · exact hall (op, r) (by simp [notes_cons, hreturn])
        · simpa [hrejection] using hall _ List.mem_cons_self op htaken
  | none =>
      have hfull := (Operation.rejection_eq_none.mp hrejection).2
      have hreturn : returnBy (s, .iterate el) = none := by
        simp only [returnBy, hcall, hrejection]
      have harrival : arrivalBy (s, .iterate el) = some (.client op) := by
        simp only [arrivalBy, hcall, hrejection]
      rw [hrejection, Option.isNone_none, if_pos rfl] at hfifo
      refine ⟨?_, ?_, ?_, ?_, hmax.trans h.maxSize, fun _ => ?_, h.errorCode, ?_, ?_⟩
      · simpa [notes_cons, htaken] using horder
      · simpa [notes_cons, htaken, hreturn] using hcalls
      · simpa [notes_cons, harrival, hreturn, InputTask.client?] using hplaced
      · simpa [notes_cons, harrival, hdeparture] using hfifo
      · have hsize := h.fifo.size_le_of_append hfifo
        simp only [Queue.isFull, h.maxSize, queueSizeInput] at hfull
        have hlt : q'.size < 2 ^ 31 := by simp at hfull; omega
        exact hlt
      · exact fun r' hr' => absurd (hsent.symm.trans hr') (by simp)
      · simpa [notes_cons, hreturn, htaken, hrejection] using h.accepts

/-- **A step.** -/
lemma Progress.step (h : Progress request xs l s) {a : OperateStep} (hen : s.Enabled a) :
    ∃ s', OperateServer.exec a s = .ok s' ∧ Progress request xs ((s, a) :: l) s' := by
  cases a with
  | iterate el =>
      obtain ⟨hsent, hcalling, hrest, hel⟩ := hen
      rw [Option.isNone_iff_eq_none] at hcalling
      match hs : s.rest with
      | [] => simp [hs] at hrest
      | none :: rest =>
          have hcall : callBy (s, .iterate el) = none := by simp only [callBy, hs]
          refine ⟨{ s with rest }, by simp only [OperateServer.exec, hs], ?_⟩
          refine h.skip ?_ ?_ ?_ rfl ?_ rfl rfl rfl ?_
          · simp [takenBy, hs]
          · simp only [returnBy, hcall]
          · simp only [arrivalBy, hcall]
          · rw [hs, List.reduceOption_cons_of_none]
          · exact fun r hr => absurd (hsent.symm.trans hr) (by simp)
      | some op :: rest => exact h.iterate hs hsent hcalling hel
  | callReturn =>
      obtain ⟨op, hop⟩ := Option.isSome_iff_exists.mp hen
      have hreturn : returnBy (s, .callReturn) = some (op, errorCodeSuccess) := by
        simp only [returnBy, hop, Option.map_some, engineReturn_of_lt (h.small hen)]
      have hzero : (0 : ℤ) ≤ errorCodeSuccess := le_refl _
      have hcalls := h.calls
      have hplaced := h.placed
      rw [hop, Option.toList_some] at hcalls hplaced
      refine ⟨{ s with calling := none }, rfl, ?_, ?_, ?_, ?_, h.maxSize, nofun, h.errorCode, ?_,
        ?_⟩
      · simpa [notes_cons, takenBy] using h.order
      · simpa [notes_cons, takenBy, hreturn] using hcalls
      · simpa [notes_cons, arrivalBy, hreturn, hzero] using hplaced
      · simpa [notes_cons, arrivalBy, departureBy] using h.fifo
      · exact fun r hr => absurd (hop.symm.trans (h.sent r hr).2.2) (by simp)
      · rw [notes_cons, hreturn]
        simpa [takenBy, or_imp, forall_and, hzero] using h.accepts
  | send =>
      obtain ⟨-, hcalling, hrest⟩ := hen
      rw [Option.isNone_iff_eq_none] at hcalling
      refine ⟨{ s with sent := some ⟨s.errorCode, s.msg⟩ }, rfl, ?_⟩
      refine h.skip rfl rfl rfl rfl rfl rfl rfl rfl ?_
      rintro r ⟨⟩
      exact ⟨h.errorCode, List.isEmpty_iff.mp hrest, hcalling⟩
  | dequeue =>
      by_cases hsize : s.queue.size = 0
      · have hok := Queue.dequeue_of_size_eq_zero hsize
        refine ⟨s, ?_, ?_⟩
        · exact bind_eq_ok.mpr ⟨_, hok, rfl⟩
        · exact h.skip rfl rfl rfl (by simp only [departureBy, hok]) rfl rfl rfl rfl h.sent
      · have hsize : 0 < s.queue.size := Nat.pos_of_ne_zero hsize
        obtain ⟨task, q', hok, hmax, hfifo⟩ := h.fifo.dequeue hsize
        have hdeparture : departureBy (s, .dequeue) = some task := by simp only [departureBy, hok]
        refine ⟨{ s with queue := q' }, ?_, ?_⟩
        · exact bind_eq_ok.mpr ⟨_, hok, rfl⟩
        · refine h.other rfl rfl (by simp [arrivalBy]) ?_ hmax
            (h.fifo.size_le_of_dequeue hsize hfifo).trans_lt
          simpa [notes_cons, hdeparture, arrivalBy] using hfifo
  | embed el task =>
      obtain ⟨hel, hlt⟩ := hen
      obtain ⟨q', hok, hmax, hfifo⟩ := h.fifo.enqueue hel (.merger task) true
      rw [Bool.or_true, if_pos rfl] at hfifo
      have harrival : arrivalBy (s, .embed el task) = some (.merger task) := rfl
      refine ⟨{ s with queue := q' }, ?_, ?_⟩
      · exact bind_eq_ok.mpr ⟨_, hok, rfl⟩
      · refine h.other rfl rfl (by simp [harrival, InputTask.client?]) ?_ hmax fun _ =>
          (h.fifo.size_le_of_append hfifo).trans_lt hlt
        simpa [notes_cons, harrival, departureBy] using hfifo

lemma progress (hrep : queue.Represents xs) (hmax : queue.maxSize = queueSizeInput)
    (hrun : (operateSystem request queue).Run l s) : Progress request xs l s :=
  hrun.invariant_of_ok (Progress request xs) (progress_start hrep hmax) fun h hen => h.step hen

/-! ## The result -/

lemma check_adapterDocument {m : Proto.Document} (h : m.fields ≠ []) :
    (adapterDocument m).check = true ↔ m.pk ≠ 0 := by
  have hfields : (adapterDocument m).fields = _ :=
    (Document.foldl_fieldAdd adapterField m.fields .new).2.2
  obtain ⟨fields, field, hm⟩ := (List.eq_nil_or_concat m.fields).resolve_left h
  have hne : (adapterDocument m).fields ≠ [] := by
    rw [hfields, hm]
    simp [Keyed.replace]
  have hpk : (adapterDocument m).pk = m.pk := rfl
  simp [Document.check, hpk, hne]

/-- A request is valid if none of its operations is an invalid argument. -/
lemma OperateRequest.valid_iff : request.Valid ↔ ∀ op ∈ request.operations, op.check = true := by
  cases request with
  | add documents =>
      simp only [Valid, operations, iterations, processAddDocument, List.reduceOption_mem_iff,
        List.mem_map]
      constructor
      · rintro hvalid op ⟨d, hd, heq⟩
        split_ifs at heq with hempty
        cases heq
        have hne : d.fields ≠ [] := by simpa using hempty
        exact (check_adapterDocument hne).mpr (hvalid d hd hne)
      · intro hcheck d hd hne
        have hempty : ¬d.fields.isEmpty = true := by simpa using hne
        exact (check_adapterDocument hne).mp (hcheck _ ⟨d, hd, if_neg hempty⟩)
  | remove pks =>
      simp only [Valid, operations, iterations, processRemoveDocument, List.reduceOption_mem_iff,
        List.mem_map, true_iff]
      rintro op ⟨pk, -, heq⟩
      split_ifs at heq
      cases heq
      rfl

/-- Nothing was rejected if and only if the operations are valid and each found room. -/
lemma Progress.accepts_iff (h : Progress request xs l s)
    (htaken : notes takenBy l = request.operations) :
    (∀ q ∈ notes returnBy l, 0 ≤ q.2) ↔ request.Valid ∧ ∀ q ∈ l, RoomForCall q := by
  rw [h.accepts, OperateRequest.valid_iff, ← htaken]
  constructor
  · intro hall
    refine ⟨fun op hop => ?_, fun q hq hsome => ?_⟩
    · obtain ⟨q, hq, hop⟩ := mem_notes.mp hop
      exact (Operation.rejection_eq_none.mp (hall q hq op hop)).1
    · obtain ⟨op, hop⟩ := Option.isSome_iff_exists.mp hsome
      exact (Operation.rejection_eq_none.mp (hall q hq op hop)).2
  · rintro ⟨hcheck, hroom⟩ q hq op hop
    exact Operation.rejection_eq_none.mpr ⟨hcheck op (mem_notes.mpr ⟨q, hq, hop⟩),
      hroom q hq (Option.isSome_of_mem hop)⟩

/-- **What a response is worth.**  The code is always a success.  So it is what the history warrants
if and only if no document with a field lacks a primary key, and the queue had room whenever an
operation was put on it. -/
theorem acknowledge_iff (hrep : queue.Represents xs) (hmax : queue.maxSize = queueSizeInput)
    (hrun : (operateSystem request queue).Run l s) {r : OperateResponse} (hsent : s.sent = some r) :
    Acknowledged request xs l s r.code ↔ request.Valid ∧ ∀ q ∈ l, RoomForCall q := by
  have h := progress hrep hmax hrun
  obtain ⟨hcode, hrest, hcalling⟩ := h.sent r hsent
  have htaken : notes takenBy l = request.operations := by simpa [hrest] using h.order
  have hreturned : (notes returnBy l).map Prod.fst = request.operations := by
    simpa [hcalling, htaken] using h.calls
  have hplaced : (notes arrivalBy l).filterMap InputTask.client? =
      ((notes returnBy l).filter fun q => 0 ≤ q.2).map Prod.fst := by
    simpa [hcalling] using h.placed
  rw [← h.accepts_iff htaken]
  constructor
  · intro hack
    rcases hack.answer with ⟨-, hall⟩ | ⟨q, -, hneg, heq⟩
    · rw [hplaced, ← hreturned] at hall
      have hlength := congrArg List.length hall
      rw [List.length_map, List.length_map, List.length_filter_eq_length_iff] at hlength
      exact fun q hq => of_decide_eq_true (hlength q hq)
    · rw [← heq, hcode] at hneg
      exact absurd hneg (by decide)
  · intro hall
    have hfilter : (notes returnBy l).filter (fun q => 0 ≤ q.2) = notes returnBy l :=
      List.filter_eq_self.mpr fun q hq => decide_eq_true (hall q hq)
    refine ⟨hreturned, hplaced, h.fifo, .inl ⟨hcode, ?_⟩⟩
    rw [hplaced, hfilter, hreturned]

/-- `acknowledge_iff` for a request to remove two documents, with the input thread and the merger at
work in between. -/
theorem acknowledge_iff_sample : ∃ l s, (operateSystem (.remove [3, 0, 4]) (.init 128)).Run l s ∧
    s.sent = some ⟨errorCodeSuccess, "ok"⟩ ∧
    Acknowledged (.remove [3, 0, 4]) [] l s errorCodeSuccess := by
  obtain ⟨l, s, hrun, htest⟩ := exists_run_of_execAll
    (M := operateSystem (.remove [3, 0, 4]) (.init 128))
    (fun l s => decide (s.sent = some ⟨errorCodeSuccess, "ok"⟩ ∧ ∀ q ∈ l, RoomForCall q))
    [.iterate 0, .dequeue, .callReturn, .embed 0 .replace, .iterate 1, .iterate 1, .callReturn,
      .send]
    (by decide)
  obtain ⟨hsent, hroom⟩ := of_decide_eq_true htest
  exact ⟨l, s, hrun, hsent,
    (acknowledge_iff (Queue.represents_init 128) rfl hrun hsent).mpr ⟨trivial, hroom⟩⟩

/-- A request to remove more documents than the queue has room for, with nothing taken out: the
last operation is rejected, and the response is a success. -/
theorem acknowledge_overflow :
    ∃ l s, (operateSystem (.remove (List.range' 1 129)) (.init queueSizeInput)).Run l s ∧
      s.sent = some ⟨errorCodeSuccess, "ok"⟩ ∧
      ((notes arrivalBy l).filterMap InputTask.client?).length = 128 ∧
      ¬Acknowledged (.remove (List.range' 1 129)) [] l s errorCodeSuccess := by
  obtain ⟨l, s, hrun, htest⟩ := exists_run_of_execAll
    (M := operateSystem (.remove (List.range' 1 129)) (.init queueSizeInput))
    (fun l s => decide (s.sent = some ⟨errorCodeSuccess, "ok"⟩ ∧
      ((notes arrivalBy l).filterMap InputTask.client?).length = 128))
    ((List.range 128).flatMap (fun el => [.iterate el, .callReturn]) ++ [.iterate 128, .send])
    (by decide +kernel)
  obtain ⟨hsent, hlength⟩ := of_decide_eq_true htest
  refine ⟨l, s, hrun, hsent, hlength, fun hack => ?_⟩
  rcases hack.answer with ⟨-, hall⟩ | ⟨q, -, hneg, heq⟩
  · have hoperations : (OperateRequest.remove (List.range' 1 129)).operations.length = 129 := by
      decide +kernel
    rw [hall, hoperations] at hlength
    exact absurd hlength (by decide)
  · rw [← heq] at hneg
    exact absurd hneg (by decide)

end Results

end TsEngine
