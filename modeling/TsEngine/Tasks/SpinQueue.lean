import TsEngine.Framework.Sections
import TsEngine.Tasks.QueueFifo
import TsEngine.Tasks.QueueRuns

/-!
# The queue under its spinlock

`ts_spinlock_t` and the critical sections of `ts_queue_enqueue` and `ts_queue_dequeue`, one load or
store after the other, by any number of threads: a thread tests the mutex and compares and swaps it
until it gets the lock, others allocate their elements meanwhile, and `return queue->size` reads the
size while a section is under way.

`queueSections` is this code, and `spinQueueSystem` its runs.  `spin_queue_refines` says that they
are runs of `queueSystem`, in which a section is one step, so that what holds there, holds of the
code: `size` is the last that a section writes, and an element belongs to the thread that has
allocated it until its section begins.
-/

namespace TsEngine

open Framework

/-! ## The spinlock -/

/-- `__sync_bool_compare_and_swap`: whether it has swapped, and the value it leaves. -/
def compareAndSwap (mutex old new : ℕ) : Bool × ℕ :=
  if mutex = old then (true, new) else (false, mutex)

/-- `ts_spinlock_t` after `ts_spinlock_init`: what `ts_spinlock_lock` tests before it attempts, its
attempt, and `ts_spinlock_unlock`. -/
def spinlock : TryLock ℕ where
  free := 0
  held := 1
  test mutex := mutex == 0
  attempt mutex := compareAndSwap mutex 0 1
  release mutex := (compareAndSwap mutex 1 0).2
  test_free := rfl
  attempt_free := rfl
  attempt_held := rfl
  release_held := rfl

/-! ## The sections of the queue -/

/-- Where a thread is between the lock and the unlock, with the values in its local variables. -/
inductive QueueAt (α : Type)
  /-- `queue->max_size > 0 && queue->size >= queue->max_size`. -/
  | testFull (el : ElemPtr) (force : Bool)
  /-- `queue->head == NULL`. -/
  | testHead (el : ElemPtr)
  /-- `queue->head = queue->tail = el`, which is two stores. -/
  | storeFirst (el : ElemPtr)
  | storeHead (el : ElemPtr)
  /-- `queue->tail->next = el`, which loads `tail` first. -/
  | loadTail (el : ElemPtr)
  | storeNext (el : ElemPtr) (last : Option ElemPtr)
  | storeTail (el : ElemPtr)
  /-- `queue->size++`. -/
  | loadSize
  | storeSize (size : ℕ)
  /-- `queue->size > 0`. -/
  | testSize
  /-- `el = queue->head`. -/
  | loadHead
  /-- `queue->head = el->next`. -/
  | loadNext (el : Option ElemPtr)
  | popHead (el : ElemPtr) (next : Option ElemPtr)
  /-- `*data = el->data`. -/
  | loadData (el : ElemPtr)
  /-- `ts_queue_element_free(el)`. -/
  | free (el : ElemPtr) (data : α)
  /-- `size = queue->size--`. -/
  | loadCount (data : α)
  | storeCount (data : α) (size : ℕ)

/-- How a section ends: whether the item is in the queue, or what is stored in `*data` and
returned. -/
inductive QueueResult (α : Type)
  | enqueued (accepted : Bool)
  | dequeued (taken : Option (α × ℤ))

/-- The steps of a thread that has not got the lock: the two `return queue->size`, and the body of
the loop around a dequeue. -/
inductive QueueOutside
  | enqueueReturn
  | dequeueReturn
  | run

/-- A thread's position outside its sections, and its variable `task`. -/
structure QueueThread (α : Type) where
  pc : QueuePc
  task : Option α

namespace QueueAt

variable {α : Type}

/-- One load or store. -/
def step : QueueAt α → Queue α → Except Queue.Error (Queue α × (QueueAt α ⊕ QueueResult α))
  | .testFull el force, q =>
      .ok (q, if q.isFull && !force then .inr (.enqueued false) else .inl (.testHead el))
  | .testHead el, q =>
      match q.head with
      | none => .ok (q, .inl (.storeFirst el))
      | some _ => .ok (q, .inl (.loadTail el))
  | .storeFirst el, q => .ok ({ q with tail := some el }, .inl (.storeHead el))
  | .storeHead el, q => .ok ({ q with head := some el }, .inl .loadSize)
  | .loadTail el, q => .ok (q, .inl (.storeNext el q.tail))
  | .storeNext el last, q => do
      let (last, cell) ← q.deref last
      return ({ q with elements := Function.update q.elements last (some ⟨cell.data, some el⟩) },
        .inl (.storeTail el))
  | .storeTail el, q => .ok ({ q with tail := some el }, .inl .loadSize)
  | .loadSize, q => .ok (q, .inl (.storeSize q.size))
  | .storeSize size, q =>
      .ok ({ q with size := (size + 1) % 2 ^ 32 }, .inr (.enqueued true))
  | .testSize, q => .ok (q, if 0 < q.size then .inl .loadHead else .inr (.dequeued none))
  | .loadHead, q => .ok (q, .inl (.loadNext q.head))
  | .loadNext el, q => do
      let (el, cell) ← q.deref el
      return (q, .inl (.popHead el cell.next))
  | .popHead el next, q => .ok ({ q with head := next }, .inl (.loadData el))
  | .loadData el, q => do
      let (el, cell) ← q.deref (some el)
      return (q, .inl (.free el cell.data))
  | .free el data, q => .ok (q.elementFree el, .inl (.loadCount data))
  | .loadCount data, q => .ok (q, .inl (.storeCount data q.size))
  | .storeCount data size, q =>
      .ok ({ q with size := size - 1 }, .inr (.dequeued (some (data, toInt32 size))))

end QueueAt

namespace QueueCall

variable {α : Type}

/-- A section as a whole. -/
def whole : QueueCall α → Queue α → Except Queue.Error (Queue α × QueueResult α)
  | .enqueue el x force, q => (q.enqueue el x force).map fun p => (p.1, .enqueued p.2)
  | .dequeue, q => q.dequeue.map fun p => (p.1, .dequeued p.2)

/-- Where a section starts.  From now on the element is in the memory that all threads see. -/
def enter : QueueCall α → Queue α → Queue α × QueueAt α
  | .enqueue el x force, q => (q.elementNew el x, .testFull el force)
  | .dequeue, q => (q, .testSize)

/-- The element that `ts_queue_element_new` has given the call before the lock. -/
def claims : QueueCall α → Option ElemPtr
  | .enqueue el _ _ => some el
  | .dequeue => none

/-- What the calling thread makes of the result. -/
def finish : QueueResult α → QueueThread α → QueueThread α
  | .enqueued accepted, o => { o with pc := if accepted then .enqueued else .ready }
  | .dequeued (some (x, r)), _ => ⟨if 0 < r then .body else .ready, some x⟩
  | .dequeued none, o => { o with pc := .emptied }

end QueueCall

/-- A step outside, where `size` is what `queue->size` reads. -/
def QueueOutside.exec {α : Type} : QueueOutside → QueueThread α → ℕ → Option (QueueThread α)
  | .enqueueReturn, o, _ => if o.pc = .enqueued then some { o with pc := .ready } else none
  | .dequeueReturn, o, size =>
      if o.pc = .emptied then some { o with pc := if 0 < toInt32 size then .body else .ready }
      else none
  | .run, o, _ => if o.pc = .body then some { o with pc := .ready } else none

section Sections

variable {α : Type} {q q' : Queue α} {el p : ElemPtr} {x : α} {force accepted : Bool}
  {r : Option (α × ℤ)}

/-- What the size is seen to be while a section runs. -/
abbrev SectionEnds (k : QueueAt α) (q q' : Queue α) (r : QueueResult α) : Prop :=
  Finishes QueueAt.step Queue.size k q q' r

lemma incrementSize (q : Queue α) :
    SectionEnds .loadSize q { q with size := (q.size + 1) % 2 ^ 32 } (.enqueued true) :=
  .more rfl rfl (.last rfl)

/-- The section of an enqueue ends as the enqueue does. -/
lemma enqueue_section (h : q.enqueue el x force = .ok (q', accepted)) :
    SectionEnds (.testFull el force) (q.elementNew el x) q' (.enqueued accepted) := by
  unfold Queue.enqueue at h
  dsimp only at h
  by_cases hfull : ((q.elementNew el x).isFull && !force) = true
  · rw [if_pos hfull] at h
    obtain ⟨rfl, rfl⟩ := Prod.mk.inj (Except.ok.inj h)
    exact .last (by simp only [QueueAt.step, hfull, if_true])
  · rw [if_neg hfull] at h
    have htest : QueueAt.step (.testFull el force) (q.elementNew el x) =
        .ok (q.elementNew el x, .inl (.testHead el)) := by
      simp only [QueueAt.step, if_neg hfull]
    refine .more htest rfl ?_
    cases hhead : (q.elementNew el x).head with
    | none =>
        simp only [hhead] at h
        obtain ⟨rfl, rfl⟩ := Prod.mk.inj (Except.ok.inj h)
        have htest : QueueAt.step (.testHead el) (q.elementNew el x) =
            .ok (q.elementNew el x, .inl (.storeFirst el)) := by
          simp only [QueueAt.step, hhead]
        exact .more htest rfl <| .more rfl rfl <| .more rfl rfl <| incrementSize _
    | some first =>
        simp only [hhead] at h
        obtain ⟨⟨last, cell⟩, hderef, h⟩ := bind_eq_ok.mp h
        obtain ⟨rfl, rfl⟩ := Prod.mk.inj (Except.ok.inj h)
        have htest : QueueAt.step (.testHead el) (q.elementNew el x) =
            .ok (q.elementNew el x, .inl (.loadTail el)) := by
          simp only [QueueAt.step, hhead]
        have hnext : QueueAt.step (.storeNext el (q.elementNew el x).tail) (q.elementNew el x) =
            .ok ({ q.elementNew el x with
              elements := Function.update (q.elementNew el x).elements last
                (some ⟨cell.data, some el⟩) }, .inl (.storeTail el)) :=
          bind_eq_ok.mpr ⟨_, hderef, rfl⟩
        rw [← hhead]
        exact .more htest rfl <| .more rfl rfl <| .more hnext rfl <| .more rfl rfl <|
          incrementSize _

/-- The section of a dequeue ends as the dequeue does. -/
lemma dequeue_section (h : q.dequeue = .ok (q', r)) :
    SectionEnds .testSize q q' (.dequeued r) := by
  unfold Queue.dequeue at h
  by_cases hsize : 0 < q.size
  · rw [if_pos hsize] at h
    obtain ⟨⟨el, cell⟩, hderef, h⟩ := bind_eq_ok.mp h
    obtain ⟨rfl, rfl⟩ := Prod.mk.inj (Except.ok.inj h)
    have hagain : ({ q with head := cell.next } : Queue α).deref (some el) = .ok (el, cell) := by
      cases hhead : q.head with
      | none => simp [Queue.deref, hhead] at hderef
      | some p =>
          have hsame : q.deref (some p) = .ok (el, cell) := hhead ▸ hderef
          cases hcell : q.elements p with
          | none => simp [Queue.deref, hcell] at hsame
          | some c =>
              simp only [Queue.deref, hcell, Except.ok.injEq, Prod.mk.injEq] at hsame
              obtain ⟨rfl, rfl⟩ := hsame
              simp [Queue.deref, hcell]
    have htest : QueueAt.step .testSize q = .ok (q, .inl .loadHead) := by
      simp only [QueueAt.step, if_pos hsize]
    have hnext : QueueAt.step (.loadNext q.head) q = .ok (q, .inl (.popHead el cell.next)) :=
      bind_eq_ok.mpr ⟨_, hderef, rfl⟩
    have hdata : QueueAt.step (.loadData el) { q with head := cell.next } =
        .ok ({ q with head := cell.next }, .inl (.free el cell.data)) :=
      bind_eq_ok.mpr ⟨_, hagain, rfl⟩
    exact .more htest rfl <| .more rfl rfl <| .more hnext rfl <| .more rfl rfl <|
      .more hdata rfl <| .more rfl rfl <| .more rfl rfl <| .last rfl
  · rw [if_neg hsize] at h
    obtain ⟨rfl, rfl⟩ := Prod.mk.inj (Except.ok.inj h)
    exact .last (by simp only [QueueAt.step, if_neg hsize])

/-- A pointer that can be followed leads to an element. -/
lemma ne_of_deref {o : Option ElemPtr} {c : Cell ElemPtr α} (h : q.deref o = .ok (el, c))
    (hp : q.elements p = none) : p ≠ el := by
  cases o with
  | none => simp [Queue.deref] at h
  | some el' =>
      cases hcell : q.elements el' with
      | none => simp [Queue.deref, hcell] at h
      | some c' =>
          simp only [Queue.deref, hcell, Except.ok.injEq, Prod.mk.injEq] at h
          obtain ⟨rfl, rfl⟩ := h
          rintro rfl
          exact absurd (hp.symm.trans hcell) (by simp)

/-- No step of a section allocates. -/
lemma unused_of_step {k : QueueAt α} {y : QueueAt α ⊕ QueueResult α}
    (h : k.step q = .ok (q', y)) (hp : q.elements p = none) : q'.elements p = none := by
  cases k with
  | testHead el =>
      simp only [QueueAt.step] at h
      split at h <;> (obtain ⟨rfl, -⟩ := Prod.mk.inj (Except.ok.inj h); exact hp)
  | storeNext el last =>
      obtain ⟨⟨last, cell⟩, hderef, h⟩ := bind_eq_ok.mp h
      obtain ⟨rfl, -⟩ := Prod.mk.inj (Except.ok.inj h)
      exact (Function.update_of_ne (ne_of_deref hderef hp) _ _).trans hp
  | loadNext el =>
      obtain ⟨_, -, h⟩ := bind_eq_ok.mp h
      obtain ⟨rfl, -⟩ := Prod.mk.inj (Except.ok.inj h)
      exact hp
  | loadData el =>
      obtain ⟨_, -, h⟩ := bind_eq_ok.mp h
      obtain ⟨rfl, -⟩ := Prod.mk.inj (Except.ok.inj h)
      exact hp
  | free el data =>
      obtain ⟨rfl, -⟩ := Prod.mk.inj (Except.ok.inj h)
      by_cases heq : p = el
      · subst heq
        exact Function.update_self ..
      · exact (Function.update_of_ne heq _ _).trans hp
  | _ =>
      obtain ⟨rfl, -⟩ := Prod.mk.inj (Except.ok.inj h)
      exact hp

end Sections

/-- The code of the threads that use a queue. -/
def queueSections (α : Type) : Sections (Queue α) (QueueThread α) ℕ (QueueCall α) (QueueAt α)
    (QueueResult α) QueueOutside ElemPtr Queue.Error where
  whole := QueueCall.whole
  enter := QueueCall.enter
  step := QueueAt.step
  ready _ o := o.pc = .ready
  finish _ := QueueCall.finish
  read := Queue.size
  outside := QueueOutside.exec
  claims := QueueCall.claims
  unused el q := q.elements el = none
  whole_finishes {i s s' r} h := by
    cases i with
    | enqueue el x force =>
        obtain ⟨⟨q, accepted⟩, hq, heq⟩ := map_eq_ok.mp h
        obtain ⟨rfl, rfl⟩ := Prod.mk.inj heq
        exact enqueue_section hq
    | dequeue =>
        obtain ⟨⟨q, taken⟩, hq, heq⟩ := map_eq_ok.mp h
        obtain ⟨rfl, rfl⟩ := Prod.mk.inj heq
        exact dequeue_section hq
  read_enter i s := by cases i <;> rfl
  unused_enter {i p s} hne hp := by
    cases i with
    | enqueue el x force =>
        exact (Function.update_of_ne (fun heq => hne (by rw [heq]; rfl)) _ _).trans hp
    | dequeue => exact hp
  unused_step := unused_of_step

/-- The threads of a queue, step by step. -/
def spinQueueSystem (α : Type) (maxSize : ℕ) :
    System (LockState ℕ (Queue α) (QueueThread α) (QueueCall α) (QueueAt α) ElemPtr ThreadId)
      (LockTurn ThreadId (QueueCall α) QueueOutside) Queue.Error :=
  (queueSections α).locked spinlock (.init maxSize) fun _ => ⟨.ready, none⟩

instance (α : Type) (i : QueueCall α) (o : QueueThread α) :
    Decidable ((queueSections α).ready i o) := inferInstanceAs (Decidable (o.pc = .ready))

instance (α : Type) (el : ElemPtr) (q : Queue α) : Decidable ((queueSections α).unused el q) :=
  decidable_of_iff ((q.elements el).isNone = true) Option.isNone_iff_eq_none

instance (α : Type) (maxSize : ℕ)
    (l : List (LockState ℕ (Queue α) (QueueThread α) (QueueCall α) (QueueAt α) ElemPtr ThreadId ×
      LockTurn ThreadId (QueueCall α) QueueOutside))
    (s : LockState ℕ (Queue α) (QueueThread α) (QueueCall α) (QueueAt α) ElemPtr ThreadId)
    (b : LockTurn ThreadId (QueueCall α) QueueOutside) :
    Decidable ((spinQueueSystem α maxSize).enabled l s b) :=
  inferInstanceAs (Decidable ((queueSections α).Enabled s b))

/-! ## Whole sections are the steps of the queue's threads -/

section Atomic

variable {α : Type} {maxSize : ℕ} {a a' : AtomicState (Queue α) (QueueThread α) ThreadId}
  {b : AtomicTurn ThreadId (QueueCall α) QueueOutside}

/-- The threads with whole sections. -/
abbrev atomicQueueSystem (α : Type) (maxSize : ℕ) :
    System (AtomicState (Queue α) (QueueThread α) ThreadId)
      (AtomicTurn ThreadId (QueueCall α) QueueOutside) Queue.Error :=
  (queueSections α).atomic (.init maxSize) fun _ => ⟨.ready, none⟩

/-- The state of the threads, field by field. -/
def toThreads (a : AtomicState (Queue α) (QueueThread α) ThreadId) : QueueThreads α :=
  ⟨a.shared, fun t => (a.own t).pc, fun t => (a.own t).task⟩

/-- The step of the threads that a turn is. -/
def toStep : AtomicTurn ThreadId (QueueCall α) QueueOutside → QueueStep α
  | .call t (.enqueue el x force) => .enqueue t el x force
  | .call t .dequeue => .dequeue t
  | .outside t .enqueueReturn => .enqueueReturn t
  | .outside t .dequeueReturn => .dequeueReturn t
  | .outside t .run => .run t

lemma toThreads_update (q : Queue α) (own : ThreadId → QueueThread α) (t : ThreadId)
    (o : QueueThread α) :
    toThreads ⟨q, Function.update own t o⟩ =
      ⟨q, Function.update (fun t => (own t).pc) t o.pc,
        Function.update (fun t => (own t).task) t o.task⟩ := by
  unfold toThreads
  congr 1 <;> funext t' <;> by_cases h : t' = t
  all_goals first
    | (subst h; simp only [Function.update_self])
    | simp only [Function.update_of_ne h]

/-- A thread whose `task` stays. -/
lemma toThreads_setPc (a : AtomicState (Queue α) (QueueThread α) ThreadId) (q : Queue α)
    (t : ThreadId) (pc : QueuePc) :
    toThreads ⟨q, Function.update a.own t ⟨pc, (a.own t).task⟩⟩ =
      { toThreads a with queue := q }.setPc t pc := by
  rw [toThreads_update]
  have htask : Function.update (fun t => (a.own t).task) t (a.own t).task =
      fun t => (a.own t).task := Function.update_eq_self ..
  rw [htask]
  rfl

/-- **A turn is a step** of the threads of the queue. -/
lemma atomic_step (hen : (queueSections α).AtomicEnabled a b)
    (hexec : (queueSections α).atomicExec b a = .ok a') :
    (toThreads a).Enabled (toStep b) ∧
      QueueThreads.exec (toStep b) (toThreads a) = .ok (toThreads a') := by
  cases b with
  | call t i =>
      obtain ⟨hready, hunused⟩ := hen
      obtain ⟨⟨q, r⟩, hwhole, hok⟩ := bind_eq_ok.mp hexec
      obtain rfl := Except.ok.inj hok
      cases i with
      | enqueue el x force =>
          obtain ⟨⟨q', accepted⟩, hq, heq⟩ := map_eq_ok.mp hwhole
          obtain ⟨rfl, rfl⟩ := Prod.mk.inj heq
          refine ⟨⟨hready, hunused el rfl⟩, bind_eq_ok.mpr ⟨_, hq, ?_⟩⟩
          exact congrArg Except.ok (toThreads_setPc a q' t _).symm
      | dequeue =>
          obtain ⟨⟨q', taken⟩, hq, heq⟩ := map_eq_ok.mp hwhole
          obtain ⟨rfl, rfl⟩ := Prod.mk.inj heq
          refine ⟨hready, bind_eq_ok.mpr ⟨_, hq, ?_⟩⟩
          cases taken with
          | none => exact congrArg Except.ok (toThreads_setPc a q' t _).symm
          | some p =>
              exact congrArg Except.ok (toThreads_update q' a.own t
                ⟨if 0 < p.2 then .body else .ready, some p.1⟩).symm
  | outside t b =>
      obtain ⟨o, ho⟩ := Option.isSome_iff_exists.mp hen
      simp only [Sections.atomicExec, ho] at hexec
      obtain rfl := Except.ok.inj hexec
      cases b with
      | enqueueReturn =>
          obtain ⟨hpc, ho⟩ := Option.ite_none_right_eq_some.mp ho
          obtain rfl := Option.some.inj ho
          exact ⟨hpc, congrArg Except.ok (toThreads_setPc a a.shared t _).symm⟩
      | dequeueReturn =>
          obtain ⟨hpc, ho⟩ := Option.ite_none_right_eq_some.mp ho
          obtain rfl := Option.some.inj ho
          exact ⟨hpc, congrArg Except.ok (toThreads_setPc a a.shared t _).symm⟩
      | run =>
          obtain ⟨hpc, ho⟩ := Option.ite_none_right_eq_some.mp ho
          obtain rfl := Option.some.inj ho
          exact ⟨hpc, congrArg Except.ok (toThreads_setPc a a.shared t _).symm⟩

/-- Runs of whole sections are runs of the threads of the queue. -/
lemma atomic_run {m : List (AtomicState (Queue α) (QueueThread α) ThreadId ×
      AtomicTurn ThreadId (QueueCall α) QueueOutside)}
    (hrun : (atomicQueueSystem α maxSize).Run m a) :
    (queueSystem α maxSize).Run (m.map (Prod.map toThreads toStep)) (toThreads a) :=
  System.Run.map (N := queueSystem α maxSize) rfl (fun _ hen hexec => atomic_step hen hexec) hrun

end Atomic

/-! ## What happens in a run -/

section Events

variable {α : Type}

/-- What happens between threads of a queue. -/
abbrev QueueEvent (α : Type) :=
  SectionEvent ThreadId (QueueThread α) ℕ (QueueCall α) (QueueResult α) QueueOutside

/-- The item that is added to the queue. -/
def acceptedIn : QueueEvent α → Option α
  | .call _ (.enqueue _ x _) (.enqueued true) => some x
  | _ => none

/-- The item that is stored in `*data`, and the thread it is for. -/
def storedIn : QueueEvent α → Option (ThreadId × α)
  | .call t _ (.dequeued (some (x, _))) => some (t, x)
  | _ => none

/-- What is run. -/
def ranIn : QueueEvent α → Option (ThreadId × Option α)
  | .outside t .run o _ => some (t, o.task)
  | _ => none

/-- The call of dequeue that is completed: whether it stored an item, and what it returns. -/
def returnedIn : QueueEvent α → Option (Bool × ℤ)
  | .call _ _ (.dequeued (some (_, r))) => some (true, r)
  | .outside _ .dequeueReturn _ size => some (false, toInt32 size)
  | _ => none

/-- The events of a run, oldest first. -/
def queueEvents (l : List (LockState ℕ (Queue α) (QueueThread α) (QueueCall α) (QueueAt α) ElemPtr
    ThreadId × LockTurn ThreadId (QueueCall α) QueueOutside)) : List (QueueEvent α) :=
  System.notes (queueSections α).event l

variable {maxSize : ℕ} {a : AtomicState (Queue α) (QueueThread α) ThreadId}
  {b : AtomicTurn ThreadId (QueueCall α) QueueOutside} {acc del : List α}

/-- The event of a turn says what the step notes. -/
structure SameNotes (a : AtomicState (Queue α) (QueueThread α) ThreadId)
    (b : AtomicTurn ThreadId (QueueCall α) QueueOutside) : Prop where
  accepted : acceptedBy (toThreads a, toStep b) =
    ((queueSections α).atomicEvent (a, b)).bind acceptedIn
  stored : storedBy (toThreads a, toStep b) =
    ((queueSections α).atomicEvent (a, b)).bind storedIn
  ran : ranBy (toThreads a, toStep b) = ((queueSections α).atomicEvent (a, b)).bind ranIn
  returned : returnedBy (toThreads a, toStep b) =
    ((queueSections α).atomicEvent (a, b)).bind returnedIn

lemma event_notes (h : Fifo a.shared acc del) (hen : (queueSections α).AtomicEnabled a b) :
    SameNotes a b := by
  have hcall : ∀ {t i q' r}, (queueSections α).whole i a.shared = .ok (q', r) →
      (queueSections α).atomicEvent (a, .call t i) = some (.call t i r) := fun h => by
    simp only [Sections.atomicEvent, h]
  cases b with
  | call t i =>
      cases i with
      | enqueue el x force =>
          obtain ⟨q', hq, -⟩ := h.enqueue (hen.2 el rfl) x force
          have hevent := hcall (t := t) (i := .enqueue el x force) (map_eq_ok.mpr ⟨_, hq, rfl⟩)
          constructor <;> rw [hevent]
          · show (if !a.shared.isFull || force then some x else none) = _
            cases !a.shared.isFull || force <;> rfl
          all_goals rfl
      | dequeue =>
          by_cases hsize : a.shared.size = 0
          · have hq := Queue.dequeue_of_size_eq_zero hsize
            have hevent := hcall (t := t) (i := .dequeue) (map_eq_ok.mpr ⟨_, hq, rfl⟩)
            constructor <;> rw [hevent]
            · rfl
            · simp [storedBy, toStep, toThreads, hq, storedIn]
            · rfl
            · simp [returnedBy, toStep, toThreads, hq, returnedIn]
          · obtain ⟨x, q', hq, -⟩ := h.dequeue (Nat.pos_of_ne_zero hsize)
            have hevent := hcall (t := t) (i := .dequeue) (map_eq_ok.mpr ⟨_, hq, rfl⟩)
            constructor <;> rw [hevent]
            · rfl
            · simp [storedBy, toStep, toThreads, hq, storedIn]
            · rfl
            · simp [returnedBy, toStep, toThreads, hq, returnedIn]
  | outside t b => cases b <;> exact ⟨rfl, rfl, rfl, rfl⟩

/-- The events of a run of whole sections say what the threads note. -/
lemma notes_of_atomic {m : List (AtomicState (Queue α) (QueueThread α) ThreadId ×
      AtomicTurn ThreadId (QueueCall α) QueueOutside)}
    (hrun : (atomicQueueSystem α maxSize).Run m a) :
    accepted (m.map (Prod.map toThreads toStep)) =
      (System.notes (queueSections α).atomicEvent m).filterMap acceptedIn ∧
    stored (m.map (Prod.map toThreads toStep)) =
      (System.notes (queueSections α).atomicEvent m).filterMap storedIn ∧
    ran (m.map (Prod.map toThreads toStep)) =
      (System.notes (queueSections α).atomicEvent m).filterMap ranIn ∧
    System.notes returnedBy (m.map (Prod.map toThreads toStep)) =
      (System.notes (queueSections α).atomicEvent m).filterMap returnedIn := by
  have hall : ∀ q ∈ m, SameNotes q.1 q.2 := fun q hq => by
    obtain ⟨m₁, -, -, -, hrun₁, hen, -⟩ := System.Run.split hrun (s := q.1) (a := q.2) hq
    exact event_notes (accounts_of_run (atomic_run hrun₁)).fifo hen
  simp only [System.filterMap_notes]
  refine ⟨?_, ?_, ?_, ?_⟩
  · exact (System.notes_map acceptedBy _ m).trans
      (System.notes_congr fun q hq => (hall q hq).accepted)
  · exact (System.notes_map storedBy _ m).trans (System.notes_congr fun q hq => (hall q hq).stored)
  · exact (System.notes_map ranBy _ m).trans (System.notes_congr fun q hq => (hall q hq).ran)
  · exact (System.notes_map returnedBy _ m).trans
      (System.notes_congr fun q hq => (hall q hq).returned)

/-- No section faults as a whole. -/
lemma whole_ok {m : List (AtomicState (Queue α) (QueueThread α) ThreadId ×
      AtomicTurn ThreadId (QueueCall α) QueueOutside)}
    (hrun : (atomicQueueSystem α maxSize).Run m a) (t : ThreadId) (i : QueueCall α)
    (hen : (queueSections α).AtomicEnabled a (.call t i)) :
    ∃ r, (queueSections α).whole i a.shared = .ok r := by
  have hfifo : Fifo a.shared _ _ := (accounts_of_run (atomic_run hrun)).fifo
  cases i with
  | enqueue el x force =>
      obtain ⟨q', hq, -⟩ := hfifo.enqueue (hen.2 el rfl) x force
      exact ⟨_, map_eq_ok.mpr ⟨_, hq, rfl⟩⟩
  | dequeue =>
      by_cases hsize : a.shared.size = 0
      · exact ⟨_, map_eq_ok.mpr ⟨_, Queue.dequeue_of_size_eq_zero hsize, rfl⟩⟩
      · obtain ⟨x, q', hq, -⟩ := hfifo.dequeue (Nat.pos_of_ne_zero hsize)
        exact ⟨_, map_eq_ok.mpr ⟨_, hq, rfl⟩⟩

end Events

/-! ## The results -/

section Results

variable {α : Type} {maxSize : ℕ} {t : ThreadId} {i : QueueCall α}
  {l : List (LockState ℕ (Queue α) (QueueThread α) (QueueCall α) (QueueAt α) ElemPtr ThreadId ×
    LockTurn ThreadId (QueueCall α) QueueOutside)}
  {s : LockState ℕ (Queue α) (QueueThread α) (QueueCall α) (QueueAt α) ElemPtr ThreadId}

/-- **The spinlock makes the sections of the queue atomic.**  However the loads and stores of any
number of threads interleave, one thread at a time is between the lock and the unlock, no step
follows a pointer that is null or dangling, and the threads see what they would see if every section
were a single step: the same items accepted, stored and run, the same values returned, also where
`return queue->size` reads in the middle of another thread's section.  When the lock is free, the
linked elements carry the items accepted and not yet stored, in their order. -/
theorem spin_queue_refines (hrun : (spinQueueSystem α maxSize).Run l s) :
    (∀ t t', (s.phase t).Holds → (s.phase t').Holds → t = t') ∧
    (∀ b, (queueSections α).Enabled s b → ∃ s', (queueSections α).exec spinlock b s = .ok s') ∧
    (∃ m u, (queueSystem α maxSize).Run m u ∧
      accepted m = (queueEvents l).filterMap acceptedIn ∧
      stored m = (queueEvents l).filterMap storedIn ∧ ran m = (queueEvents l).filterMap ranIn ∧
      System.notes returnedBy m = (queueEvents l).filterMap returnedIn ∧
      (∀ t, u.pc t = (s.own t).pc ∧ u.task t = (s.own t).task) ∧
      u.queue.size = s.shared.size ∧ (s.lock = 0 → u.queue = s.shared)) ∧
    (s.lock = 0 → Fifo s.shared ((queueEvents l).filterMap acceptedIn)
      (((queueEvents l).filterMap storedIn).map Prod.snd)) := by
  obtain ⟨m, a, hm, hmatch, hevents⟩ := Sections.refines whole_ok hrun
  obtain ⟨hacc, hsto, hran, hret⟩ := notes_of_atomic hm
  have hfree : s.lock = 0 → a.shared = s.shared := by
    intro hlock
    rcases hmatch.exclusive.2 with ⟨-, -, hshared⟩ | ⟨hheld, -⟩
    · exact hshared.symm
    · exact absurd (hlock.symm.trans hheld) (by decide)
  rw [← hevents] at hacc hsto hran hret
  refine ⟨hmatch.exclusive.1, fun b hen => ?_, ⟨_, toThreads a, atomic_run hm, hacc, hsto, hran,
    hret, fun t => ?_, hmatch.read.symm, hfree⟩, fun hlock => ?_⟩
  · obtain ⟨s', hexec, -⟩ := hmatch.step (whole_ok hm) hen
    exact ⟨s', hexec⟩
  · rw [hmatch.own]
    exact ⟨rfl, rfl⟩
  · have hfifo := (accounts_of_run (atomic_run hm)).fifo
    rw [hacc, hsto] at hfifo
    exact hfree hlock ▸ hfifo

/-- `spin_queue_refines` for a consumer that wants the lock while a producer has it. -/
theorem spin_queue_refines_sample : ∃ l s, (spinQueueSystem ℕ 8).Run l s ∧
    (queueEvents l).filterMap ranIn = [(1, some 5)] ∧ Fifo s.shared [5] [5] := by
  obtain ⟨l, s, hrun, htest⟩ := System.exists_run_of_execAll (M := spinQueueSystem ℕ 8)
    (fun l s => decide (s.lock = 0 ∧ (queueEvents l).filterMap ranIn = [(1, some 5)] ∧
      (queueEvents l).filterMap acceptedIn = [5] ∧ (queueEvents l).filterMap storedIn = [(1, 5)]))
    [.call 0 (.enqueue 0 5 false), .call 1 .dequeue, .test 0, .test 1, .attempt 0, .attempt 1,
      .work 0, .work 0, .work 0, .work 0, .work 0, .test 1, .work 0, .release 0, .test 1,
      .attempt 1, .outside 0 .enqueueReturn, .work 1, .work 1, .work 1, .work 1, .work 1, .work 1,
      .work 1, .work 1, .release 1, .outside 1 .run] (by decide +kernel)
  obtain ⟨hlock, hran, hacc, hsto⟩ := of_decide_eq_true htest
  refine ⟨l, s, hrun, hran, ?_⟩
  have hfifo := (spin_queue_refines hrun).2.2.2 hlock
  rw [hacc, hsto] at hfifo
  exact hfifo

/-- **The spinlock lets every waiting thread in**: wherever the threads are, it is enough that the
one in its section goes on, and the waiting thread itself. -/
theorem spin_queue_entered (hrun : (spinQueueSystem α maxSize).Run l s)
    (hpending : (s.phase t).pending = some i) :
    ∃ p s' k, (spinQueueSystem α maxSize).Path l s p s' ∧
      (∀ q ∈ p, (s.phase q.2.thread).Holds ∨ q.2.thread = t) ∧ s'.phase t = .inside i k := by
  obtain ⟨m, a, -, hmatch, -⟩ := Sections.refines whole_ok hrun
  exact hmatch.exists_entered _ _ _ hpending

/-- `spin_queue_entered` for a consumer whose attempt fails. -/
theorem spin_queue_entered_sample : ∃ l s, (spinQueueSystem ℕ 8).Run l s ∧ s.lock = 1 ∧
    ∃ p s' i k, (spinQueueSystem ℕ 8).Path l s p s' ∧ s'.phase 1 = .inside i k := by
  obtain ⟨l, s, hrun, htest⟩ := System.exists_run_of_execAll (M := spinQueueSystem ℕ 8)
    (fun _ s => decide (s.lock = 1 ∧ (s.phase 1).pending.isSome))
    [.call 0 (.enqueue 0 5 false), .call 1 .dequeue, .test 0, .test 1, .attempt 0, .attempt 1]
    (by decide +kernel)
  obtain ⟨hlock, hsome⟩ := of_decide_eq_true htest
  obtain ⟨i, hpending⟩ := Option.isSome_iff_exists.mp hsome
  obtain ⟨p, s', k, hpath, -, hin⟩ := spin_queue_entered hrun hpending
  exact ⟨l, s, hrun, hlock, p, s', i, k, hpath, hin⟩

end Results

end TsEngine
