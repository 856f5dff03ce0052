import TsEngine.Framework.LinkedCells

/-!
# The task queue

`ts_queue_t` on its linked elements.  The two operations are taken up to their unlock, which is
where they take effect; what they read of the queue afterwards, `return queue->size`, is
`Queue.readSize`.

`Queue.Represents` is the list of the items, and `Represents.enqueue` and `Represents.dequeue` say
what the operations do to it.  The counter is a `uint32_t`, so it is the length up to a multiple of
`2 ^ 32`.
-/

namespace TsEngine

open Framework

/-- The conversion of a `uint32_t` to an `int`. -/
def toInt32 (n : ℕ) : ℤ := if n < 2 ^ 31 then n else n - 2 ^ 32

lemma toInt32_pos_iff {n : ℕ} (hn : n < 2 ^ 32) : 0 < toInt32 n ↔ 0 < n ∧ n < 2 ^ 31 := by
  unfold toInt32
  split_ifs <;> omega

/-- The address of an element. -/
abbrev ElemPtr := ℕ

/-- `ts_queue_t` without its lock, and the elements that are allocated. -/
structure Queue (α : Type) where
  elements : ElemPtr → Option (Cell ElemPtr α)
  head : Option ElemPtr
  tail : Option ElemPtr
  size : ℕ
  maxSize : ℕ

namespace Queue

/-- What can go wrong with an element. -/
inductive Error
  | nullDereference
  | useAfterFree
  deriving DecidableEq

variable {α : Type}

/-- `ts_queue_init`. -/
def init (maxSize : ℕ) : Queue α := ⟨fun _ => none, none, none, 0, maxSize⟩

/-- `ts_queue_element_new`, at the address `el` that the allocator gives. -/
def elementNew (q : Queue α) (el : ElemPtr) (data : α) : Queue α :=
  { q with elements := Function.update q.elements el (some ⟨data, none⟩) }

/-- `ts_queue_element_free`. -/
def elementFree (q : Queue α) (el : ElemPtr) : Queue α :=
  { q with elements := Function.update q.elements el none }

/-- The element a pointer leads to. -/
def deref (q : Queue α) : Option ElemPtr → Except Error (ElemPtr × Cell ElemPtr α)
  | none => .error .nullDereference
  | some el =>
      match q.elements el with
      | none => .error .useAfterFree
      | some cell => .ok (el, cell)

/-- `queue->max_size > 0 && queue->size >= queue->max_size`. -/
def isFull (q : Queue α) : Bool := decide (0 < q.maxSize ∧ q.maxSize ≤ q.size)

/-- `ts_queue_enqueue` up to the unlock, and whether the item is now in the queue. -/
def enqueue (q : Queue α) (el : ElemPtr) (data : α) (force : Bool) :
    Except Error (Queue α × Bool) := do
  let q := q.elementNew el data
  if q.isFull && !force then return (q, false)
  match q.head with
  | none =>
      let q := { q with head := some el, tail := some el }
      return ({ q with size := (q.size + 1) % 2 ^ 32 }, true)
  | some _ =>
      let (last, cell) ← q.deref q.tail
      let q := { q with
        elements := Function.update q.elements last (some { cell with next := some el })
        tail := some el }
      return ({ q with size := (q.size + 1) % 2 ^ 32 }, true)

/-- `ts_queue_dequeue` up to the unlock: what it stores in `*data`, together with the value it
returns, or `none` if it finds no item and reads its return value later. -/
def dequeue (q : Queue α) : Except Error (Queue α × Option (α × ℤ)) := do
  if 0 < q.size then
    let (el, cell) ← q.deref q.head
    let q := { q with head := cell.next }
    let q := q.elementFree el
    return ({ q with size := q.size - 1 }, some (cell.data, toInt32 q.size))
  else return (q, none)

/-- `return queue->size`, after the unlock. -/
def readSize (q : Queue α) : ℤ := toInt32 q.size

/-! ## The items -/

variable {q : Queue α} {xs : List α} {el : ElemPtr}

/-- The queue holds the items `xs`, first in first out. -/
structure Represents (q : Queue α) (xs : List α) : Prop where
  holds : Holds q.elements q.head q.tail xs
  size : q.size = xs.length % 2 ^ 32

lemma represents_init (maxSize : ℕ) : (init maxSize : Queue α).Represents [] :=
  ⟨holds_nil _ _, rfl⟩

lemma Represents.unique {ys : List α} (h : q.Represents xs) (h' : q.Represents ys) : xs = ys :=
  h.holds.unique h'.holds

lemma Represents.size_lt (h : q.Represents xs) : q.size < 2 ^ 32 := by
  rw [h.size]
  exact Nat.mod_lt _ (by norm_num)

lemma Represents.readSize_pos_iff (h : q.Represents xs) :
    0 < q.readSize ↔ 0 < q.size ∧ q.size < 2 ^ 31 := toInt32_pos_iff h.size_lt

/-- A queue whose counter is not zero is not empty. -/
lemma Represents.ne_nil (h : q.Represents xs) (hsize : 0 < q.size) : xs ≠ [] := by
  rintro rfl
  simp [h.size] at hsize

/-- The counter after one more item. -/
lemma mod_succ (n : ℕ) : (n % 2 ^ 32 + 1) % 2 ^ 32 = (n + 1) % 2 ^ 32 := by omega

/-- **An enqueue appends its item**, unless the queue is full and the enqueue is not forced. -/
lemma Represents.enqueue (h : q.Represents xs) (hel : q.elements el = none) (x : α)
    (force : Bool) :
    ∃ q', q.enqueue el x force = .ok (q', !q.isFull || force) ∧ q'.maxSize = q.maxSize ∧
      q'.Represents (if (!q.isFull || force) = true then xs ++ [x] else xs) := by
  have hfull : (q.elementNew el x).isFull = q.isFull := rfl
  unfold Queue.enqueue
  simp only [hfull]
  by_cases hreject : (q.isFull && !force) = true
  · have haccept : (!q.isFull || force) = false := by simpa using hreject
    rw [if_pos hreject, haccept]
    exact ⟨_, rfl, rfl, h.holds.alloc hel, h.size⟩
  have haccept : (!q.isFull || force) = true := by
    cases hq : q.isFull <;> simp_all
  rw [if_neg hreject, haccept, if_pos rfl]
  have hsize : (q.size + 1) % 2 ^ 32 = (xs ++ [x]).length % 2 ^ 32 := by
    rw [h.size, List.length_append]
    exact mod_succ _
  cases hhead : (q.elementNew el x).head with
  | none =>
      -- the first item of an empty queue
      obtain rfl : xs = [] := h.holds.head_eq_none_iff.mp hhead
      exact ⟨_, rfl, rfl, Holds.first (Function.update_self ..), hsize⟩
  | some first =>
      have hhead : q.head = some first := hhead
      have hne : xs ≠ [] := fun hnil => by
        rw [h.holds.head_eq_none_iff.mpr hnil] at hhead
        exact absurd hhead (by simp)
      obtain ⟨last, y, htail, hlast, hcell, hholds⟩ := h.holds.append (x := x) hel hne
      have hderef : (q.elementNew el x).deref (q.elementNew el x).tail = .ok (last, ⟨y, none⟩) := by
        have hcell : (q.elementNew el x).elements last = some ⟨y, none⟩ :=
          (Function.update_of_ne hlast _ _).trans hcell
        have htail : (q.elementNew el x).tail = some last := htail
        simp [deref, htail, hcell]
      simp only [hderef, bind, Except.bind]
      exact ⟨_, rfl, rfl, hhead ▸ hholds, hsize⟩

/-- A dequeue that finds the counter at zero changes nothing. -/
lemma dequeue_of_size_eq_zero (hsize : q.size = 0) : q.dequeue = .ok (q, none) := by
  simp [Queue.dequeue, hsize, pure, Except.pure]

/-- **A dequeue takes the first item out.** -/
lemma Represents.dequeue (h : q.Represents xs) (hsize : 0 < q.size) :
    ∃ x rest q', xs = x :: rest ∧ q.dequeue = .ok (q', some (x, toInt32 q.size)) ∧
      q'.maxSize = q.maxSize ∧ q'.Represents rest := by
  cases xs with
  | nil => exact absurd rfl (h.ne_nil hsize)
  | cons x rest =>
      obtain ⟨p, next, hhead, hcell, hholds⟩ := h.holds.pop
      have hderef : q.deref q.head = .ok (p, ⟨x, next⟩) := by simp [deref, hhead, hcell]
      have hlength : q.size - 1 = rest.length % 2 ^ 32 := by
        have hq := h.size
        rw [List.length_cons] at hq
        omega
      refine ⟨x, rest, { q.elementFree p with head := next, size := q.size - 1 }, rfl, ?_, rfl,
        hholds, hlength⟩
      simp only [Queue.dequeue, if_pos hsize, hderef, bind, Except.bind]
      rfl

end Queue

end TsEngine
