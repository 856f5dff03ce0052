import Mathlib.Tactic

/-!
# Streams that arrive in pieces

What a non-blocking `read` may find on a socket: the bytes of the stream in chunks of any size, with
moments in between where there is nothing yet, and in the end, if it comes, the close of the stream
or a failure.  A chunk has at least one byte, so that no result of a read stands for two things.

Every sequence of results that a stream can show its reader is that of some list of arrivals.  What
the writes find is a list of `Room`.
-/

namespace Framework

universe u

/-- What a read finds next. -/
inductive Arrival (α : Type u)
  | data (head : α) (tail : List α)
  | again
  | closed
  | failed

/-- What a read returns. -/
inductive ReadResult (α : Type u)
  | bytes (chunk : List α)
  | again
  | failed

variable {α : Type u} {w w' : List (Arrival α)} {bs : List α}

/-- The bytes that are left of a chunk arrive again. -/
def refill : List α → List (Arrival α) → List (Arrival α)
  | [], w => w
  | b :: bs, w => .data b bs :: w

/-- `read(fd, buf, n)`.  A closed stream stays closed, and a failed one fails again. -/
def Arrival.read (n : ℕ) : List (Arrival α) → ReadResult α × List (Arrival α)
  | [] => (.again, [])
  | .data b bs :: w => (.bytes ((b :: bs).take n), refill ((b :: bs).drop n) w)
  | .again :: w => (.again, w)
  | .closed :: w => (.bytes [], .closed :: w)
  | .failed :: w => (.failed, .failed :: w)

/-- The bytes that arrive. -/
def content : List (Arrival α) → List α
  | [] => []
  | .data b bs :: w => b :: bs ++ content w
  | _ :: w => content w

/-- The stream goes on after these arrivals. -/
def Transient (w : List (Arrival α)) : Prop := ∀ a ∈ w, a ≠ .closed ∧ a ≠ .failed

@[simp]
lemma content_refill (bs : List α) (w : List (Arrival α)) :
    content (refill bs w) = bs ++ content w := by
  cases bs <;> rfl

lemma refill_append (bs : List α) (w w' : List (Arrival α)) :
    refill bs w ++ w' = refill bs (w ++ w') := by
  cases bs <;> rfl

lemma Transient.tail {a : Arrival α} (h : Transient (a :: w)) : Transient w :=
  fun b hb => h b (List.mem_cons_of_mem a hb)

lemma Transient.refill (h : Transient w) (bs : List α) : Transient (refill bs w) := by
  cases bs with
  | nil => exact h
  | cons b bs =>
      intro a ha
      rcases List.mem_cons.mp ha with rfl | ha
      · simp
      · exact h a ha

/-- What a `write` finds: room for at least one byte, none for the moment, or a failure. -/
inductive Room
  | bytes (more : ℕ)
  | again
  | failed

end Framework
