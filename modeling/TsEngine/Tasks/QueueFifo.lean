import TsEngine.Framework.Runs
import TsEngine.Tasks.Queue

/-!
# The queue as a bounded FIFO

One caller at a time, so that a call with its return value is one step.  `BoundedFifo` says what
the queue is for: a sequence with a bound that a forced item may exceed.  `queue_refines_fifo` says
that the linked elements carry that sequence through any calls, that the calls return what they
would return on it, and that the `tail` pointer, which dangles once the last element has been freed,
is not followed then.

The return values are `int`s and the counter is a `uint32_t`, so the queue has to stay below
`2 ^ 31` items.
-/

namespace TsEngine

open Framework

/-- A call; `el` is the address that the allocator gives. -/
inductive QueueCall (α : Type)
  | enqueue (el : ElemPtr) (data : α) (force : Bool)
  | dequeue

/-! ## What the queue is for -/

/-- A sequence with a bound, `0` for none, and the caller's `*data` and last return value. -/
structure BoundedFifo (α : Type) where
  bound : ℕ
  items : List α
  data : α
  result : ℤ

namespace BoundedFifo

variable {α : Type}

/-- Nothing has been called yet. -/
def init (bound : ℕ) (data : α) : BoundedFifo α := ⟨bound, [], data, 0⟩

/-- There is no room, and the item is not forced. -/
def rejects (f : BoundedFifo α) (force : Bool) : Bool :=
  !force && decide (0 < f.bound ∧ f.bound ≤ f.items.length)

/-- The item goes to the end, and the new size is returned. -/
def enqueue (f : BoundedFifo α) (x : α) (force : Bool) : BoundedFifo α :=
  if f.rejects force then { f with result := -1 }
  else { f with items := f.items ++ [x], result := f.items.length + 1 }

/-- The oldest item goes to `*data`, and the size before is returned. -/
def dequeue (f : BoundedFifo α) : BoundedFifo α :=
  match f.items with
  | [] => { f with result := 0 }
  | x :: rest => { f with items := rest, data := x, result := f.items.length }

/-- The effect of a call. -/
def exec : QueueCall α → BoundedFifo α → BoundedFifo α
  | .enqueue _ x force, f => f.enqueue x force
  | .dequeue, f => f.dequeue

/-- After the calls of a history, newest first. -/
def run {σ : Type} (f : BoundedFifo α) (l : List (σ × QueueCall α)) : BoundedFifo α :=
  l.foldr (fun q f => f.exec q.2) f

/-- **What fails** is an item that is not forced and finds no room. -/
lemma result_enqueue_iff (f : BoundedFifo α) (x : α) (force : Bool) :
    (f.enqueue x force).result = -1 ↔
      force = false ∧ 0 < f.bound ∧ f.bound ≤ f.items.length := by
  have hrejects : f.rejects force = true ↔
      force = false ∧ 0 < f.bound ∧ f.bound ≤ f.items.length := by
    simp [rejects]
  rw [← hrejects, enqueue]
  split_ifs with h
  · simp [h]
  · have hpos : ((f.items.length : ℤ) + 1) ≠ -1 := by omega
    simp [h, hpos]

lemma dequeue_nil {f : BoundedFifo α} (h : f.items = []) : f.dequeue = { f with result := 0 } := by
  simp only [dequeue, h]

lemma dequeue_cons {f : BoundedFifo α} {x : α} {rest : List α} (h : f.items = x :: rest) :
    f.dequeue = { f with items := rest, data := x, result := f.items.length } := by
  simp only [dequeue, h]

lemma bound_exec (f : BoundedFifo α) (a : QueueCall α) : (f.exec a).bound = f.bound := by
  cases a with
  | enqueue el x force =>
      show (f.enqueue x force).bound = f.bound
      unfold enqueue
      split_ifs <;> rfl
  | dequeue =>
      show f.dequeue.bound = f.bound
      unfold dequeue
      split <;> rfl

lemma bound_run {σ : Type} (f : BoundedFifo α) (l : List (σ × QueueCall α)) :
    (f.run l).bound = f.bound := by
  induction l with
  | nil => rfl
  | cons q l ih => exact (bound_exec _ _).trans ih

end BoundedFifo

/-! ## The calls -/

/-- The queue, the caller's `*data`, and what its last call returned. -/
structure QueueCaller (α : Type) where
  queue : Queue α
  data : α
  result : ℤ

namespace QueueCaller

variable {α : Type}

/-- The effect of a call. -/
def exec : QueueCall α → QueueCaller α → Except Queue.Error (QueueCaller α)
  | .enqueue el x force, s => do
      let (queue, accepted) ← s.queue.enqueue el x force
      return { s with queue, result := if accepted then queue.readSize else -1 }
  | .dequeue, s => do
      match ← s.queue.dequeue with
      | (queue, some (x, r)) => return ⟨queue, x, r⟩
      | (queue, none) => return { s with queue, result := queue.readSize }

/-- When a call may be made: the allocator gives an address that is not in use, and the queue stays
below `2 ^ 31` items. -/
def Enabled (s : QueueCaller α) : QueueCall α → Prop
  | .enqueue el _ force => s.queue.elements el = none ∧
      ((s.queue.isFull && !force) = true ∨ s.queue.size + 1 < 2 ^ 31)
  | .dequeue => True

instance (s : QueueCaller α) (a : QueueCall α) : Decidable (s.Enabled a) :=
  match a with
  | .enqueue el _ _ =>
      have : Decidable (s.queue.elements el = none) :=
        decidable_of_iff _ Option.isNone_iff_eq_none
      inferInstanceAs (Decidable (_ ∧ _))
  | .dequeue => inferInstanceAs (Decidable True)

/-- The elements from `head` over `next` carry the sequence, `size` is its length, and `tail` points
to the last element if there is one. -/
structure Refines (s : QueueCaller α) (f : BoundedFifo α) : Prop where
  holds : Holds s.queue.elements s.queue.head s.queue.tail f.items
  size : s.queue.size = f.items.length
  maxSize : s.queue.maxSize = f.bound
  data : s.data = f.data
  result : s.result = f.result
  small : f.items.length < 2 ^ 31

/-- The queue, its elements and `*data` are as they were. -/
structure Unchanged (s s' : QueueCaller α) : Prop where
  head : s'.queue.head = s.queue.head
  tail : s'.queue.tail = s.queue.tail
  size : s'.queue.size = s.queue.size
  elements : ∀ p, s.queue.elements p ≠ none → s'.queue.elements p = s.queue.elements p
  data : s'.data = s.data

end QueueCaller

/-- The calls of one caller, in any order. -/
def callSystem (α : Type) (maxSize : ℕ) (data : α) :
    System (QueueCaller α) (QueueCall α) Queue.Error where
  init := ⟨.init maxSize, data, 0⟩
  enabled _ s a := s.Enabled a
  exec := QueueCaller.exec

instance (α : Type) (maxSize : ℕ) (data : α) (l : List (QueueCaller α × QueueCall α))
    (s : QueueCaller α) (a : QueueCall α) : Decidable ((callSystem α maxSize data).enabled l s a) :=
  inferInstanceAs (Decidable (s.Enabled a))

/-! ## Refinement -/

namespace QueueCaller

variable {α : Type} {s : QueueCaller α} {f : BoundedFifo α} {el : ElemPtr} {x : α} {force : Bool}

lemma toInt32_of_lt {n : ℕ} (hn : n < 2 ^ 31) : toInt32 n = n := if_pos hn

lemma Refines.represents (h : s.Refines f) : s.queue.Represents f.items := by
  refine ⟨h.holds, h.size.trans (Nat.mod_eq_of_lt ?_).symm⟩
  have hsmall := h.small
  omega

lemma Refines.rejects_eq (h : s.Refines f) (force : Bool) :
    f.rejects force = (s.queue.isFull && !force) := by
  rw [BoundedFifo.rejects, Queue.isFull, h.size, h.maxSize, Bool.and_comm]

/-- A rejected item leaves nothing behind but its element. -/
lemma enqueue_of_full (q : Queue α) (hfull : (q.isFull && !force) = true) :
    q.enqueue el x force = .ok (q.elementNew el x, false) := by
  have hfull : ((q.elementNew el x).isFull && !force) = true := hfull
  unfold Queue.enqueue
  dsimp only
  rw [if_pos hfull]
  rfl

/-- **An enqueue** does to the elements what it does to the sequence. -/
lemma Refines.enqueue (h : s.Refines f) (hel : s.queue.elements el = none)
    (hroom : (s.queue.isFull && !force) = true ∨ s.queue.size + 1 < 2 ^ 31) :
    ∃ s', exec (.enqueue el x force) s = .ok s' ∧ s'.Refines (f.enqueue x force) ∧
      ((f.enqueue x force).items = f.items → s.Unchanged s') := by
  have hsmall := h.small
  cases hfull : s.queue.isFull && !force with
  | true =>
      have hreject : f.rejects force = true := (h.rejects_eq force).trans hfull
      refine ⟨{ s with queue := s.queue.elementNew el x, result := -1 }, ?_, ?_, fun _ => ?_⟩
      · exact bind_eq_ok.mpr ⟨_, enqueue_of_full s.queue hfull, rfl⟩
      · rw [BoundedFifo.enqueue, if_pos hreject]
        exact ⟨h.holds.alloc hel, h.size, h.maxSize, h.data, rfl, h.small⟩
      · refine ⟨rfl, rfl, rfl, fun p hp => Function.update_of_ne ?_ _ _, rfl⟩
        rintro rfl
        exact hp hel
  | false =>
      have hreject : ¬f.rejects force = true := by simp [(h.rejects_eq force).trans hfull]
      have haccept : (!s.queue.isFull || force) = true := by
        cases hq : s.queue.isFull <;> simp_all
      obtain ⟨queue, hok, hmax, hrep⟩ := h.represents.enqueue hel x force
      rw [haccept] at hok hrep
      rw [if_pos rfl] at hrep
      have hsize := h.size
      have hlen : (f.items ++ [x]).length = f.items.length + 1 := by simp
      have hlt : f.items.length + 1 < 2 ^ 31 := by
        rcases hroom with hroom | hroom
        · exact absurd (hfull.symm.trans hroom) (by simp)
        · omega
      have hnew : queue.size = f.items.length + 1 := by
        rw [hrep.size, hlen, Nat.mod_eq_of_lt (by omega)]
      refine ⟨{ s with queue := queue, result := queue.readSize }, ?_, ?_, fun hitems => ?_⟩
      · exact bind_eq_ok.mpr ⟨_, hok, rfl⟩
      · rw [BoundedFifo.enqueue, if_neg hreject]
        refine ⟨hrep.holds, hnew.trans hlen.symm, hmax.trans h.maxSize, h.data, ?_, hlen ▸ hlt⟩
        show toInt32 queue.size = _
        rw [hnew, toInt32_of_lt hlt]
        rfl
      · rw [BoundedFifo.enqueue, if_neg hreject] at hitems
        exact absurd (congrArg List.length hitems) (by simp)

/-- **A dequeue** does to the elements what it does to the sequence. -/
lemma Refines.dequeue (h : s.Refines f) :
    ∃ s', exec .dequeue s = .ok s' ∧ s'.Refines f.dequeue ∧
      (f.dequeue.items = f.items → s.Unchanged s') := by
  have hsmall := h.small
  have hsize := h.size
  cases hitems : f.items with
  | nil =>
      have hzero : s.queue.size = 0 := by simpa [hitems] using hsize
      refine ⟨{ s with result := s.queue.readSize }, ?_, ?_, fun _ =>
        ⟨rfl, rfl, rfl, fun _ _ => rfl, rfl⟩⟩
      · exact bind_eq_ok.mpr ⟨_, Queue.dequeue_of_size_eq_zero hzero, rfl⟩
      · rw [BoundedFifo.dequeue_nil hitems]
        refine ⟨h.holds, h.size, h.maxSize, h.data, ?_, h.small⟩
        show toInt32 s.queue.size = 0
        rw [hzero]
        rfl
  | cons x rest =>
      obtain ⟨x', rest', queue, heq, hok, hmax, hrep⟩ := h.represents.dequeue (by
        rw [hsize, hitems]
        exact Nat.succ_pos _)
      rw [hitems, List.cons.injEq] at heq
      obtain ⟨rfl, rfl⟩ := heq
      rw [hitems, List.length_cons] at hsmall
      refine ⟨⟨queue, x, toInt32 s.queue.size⟩, ?_, ?_, fun hsame => ?_⟩
      · exact bind_eq_ok.mpr ⟨_, hok, rfl⟩
      · rw [BoundedFifo.dequeue_cons hitems]
        refine ⟨hrep.holds, hrep.size.trans (Nat.mod_eq_of_lt (by omega)), hmax.trans h.maxSize,
          rfl, ?_, show rest.length < 2 ^ 31 by omega⟩
        show toInt32 s.queue.size = f.items.length
        rw [hsize, toInt32_of_lt h.small]
      · rw [BoundedFifo.dequeue_cons hitems] at hsame
        exact absurd (congrArg List.length hsame) (by simp)

/-- **A call** refines the call on the sequence; if that moves no item, nothing is changed. -/
lemma Refines.exec (h : s.Refines f) {a : QueueCall α} (hen : s.Enabled a) :
    ∃ s', exec a s = .ok s' ∧ s'.Refines (f.exec a) ∧
      ((f.exec a).items = f.items → s.Unchanged s') := by
  cases a with
  | enqueue el x force => exact h.enqueue hen.1 hen.2
  | dequeue => exact h.dequeue

end QueueCaller

variable {α : Type} {maxSize : ℕ} {data : α} {l : List (QueueCaller α × QueueCall α)}
  {s : QueueCaller α}

/-- **The queue refines a bounded FIFO.**  After any calls of one caller, the elements from `head`
carry the items that were accepted and not yet dequeued, in order, `size` is their number, and
`tail` points to the last if there is one.  The next call does not fault and does what it does on
the sequence, also to `*data` and the value returned; it fails if and only if it is an enqueue that
is not forced and finds no room, and if it moves no item it changes nothing. -/
theorem queue_refines_fifo (hrun : (callSystem α maxSize data).Run l s) :
    s.Refines ((BoundedFifo.init maxSize data).run l) ∧
    ∀ a, s.Enabled a → ∃ s', QueueCaller.exec a s = .ok s' ∧
      s'.Refines (((BoundedFifo.init maxSize data).run l).exec a) ∧
      ((((BoundedFifo.init maxSize data).run l).exec a).items =
          ((BoundedFifo.init maxSize data).run l).items → s.Unchanged s') ∧
      ∀ el x force, a = .enqueue el x force →
        (s'.result = -1 ↔ force = false ∧ 0 < maxSize ∧ maxSize ≤ s.queue.size) := by
  have hrefines : s.Refines ((BoundedFifo.init maxSize data).run l) := by
    refine System.Run.invariant (fun l s => s.Refines ((BoundedFifo.init maxSize data).run l))
      ⟨holds_nil _ _, rfl, rfl, rfl, rfl, show 0 < 2 ^ 31 by decide⟩ ?_ hrun
    intro l s a s' _ h hen hexec
    obtain ⟨s₁, hok, h₁, -⟩ := h.exec hen
    obtain rfl := Except.ok.inj (hok.symm.trans hexec)
    exact h₁
  refine ⟨hrefines, fun a hen => ?_⟩
  obtain ⟨s', hok, h', hunchanged⟩ := hrefines.exec hen
  refine ⟨s', hok, h', hunchanged, ?_⟩
  rintro el x force rfl
  rw [h'.result, hrefines.size]
  have hiff := ((BoundedFifo.init maxSize data).run l).result_enqueue_iff x force
  rw [BoundedFifo.bound_run] at hiff
  exact hiff

/-- `queue_refines_fifo` for a queue of one item that is overfilled by force and emptied again. -/
theorem queue_refines_fifo_sample : ∃ l s, (callSystem ℕ 1 0).Run l s ∧ s.queue.head = none ∧
    s.queue.tail = some 12 ∧ s.Refines ((BoundedFifo.init 1 0).run l) ∧
    ∃ s', QueueCaller.exec (.enqueue 10 4 false) s = .ok s' ∧ s'.result ≠ -1 := by
  obtain ⟨l, s, hrun, htest⟩ := System.exists_run_of_execAll (M := callSystem ℕ 1 0)
    (fun _ s => decide (s.queue.head = none ∧ s.queue.tail = some 12 ∧ s.queue.size = 0 ∧
      s.queue.elements 10 = none))
    [.enqueue 10 1 false, .enqueue 11 2 false, .enqueue 12 3 true, .dequeue, .dequeue, .dequeue]
    (by decide)
  obtain ⟨hhead, htail, hsize, hel⟩ := of_decide_eq_true htest
  obtain ⟨hrefines, hcall⟩ := queue_refines_fifo hrun
  obtain ⟨s', hok, -, -, hfail⟩ := hcall (.enqueue 10 4 false) ⟨hel, .inr (by rw [hsize]; decide)⟩
  refine ⟨l, s, hrun, hhead, htail, hrefines, s', hok, ?_⟩
  rw [Ne, hfail 10 4 false rfl, hsize]
  decide

end TsEngine
