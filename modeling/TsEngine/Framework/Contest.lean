import Mathlib.Data.List.Nodup
import Mathlib.Order.Basic
import Mathlib.Tactic

/-!
# A pass that keeps the best and the one it displaced

One pass over a list keeps the best element so far and, next to it, the element that the current
best displaced.  A new element takes over when its score is at least that of the best, so the
last of several maxima wins.  `Framework.contest` is one step of the pass, `Framework.Contested`
what is known after any number of them (`contested_foldl`): the best has the largest score, and
somebody has been displaced exactly when a later element reached the score of the first.
-/

namespace Framework

variable {α κ : Type*} [LinearOrder κ] (score : α → κ)

/-- One step: `x` takes over if its score is no less than that of the best. -/
def contest (r : α × Option α) (x : α) : α × Option α :=
  if score r.1 ≤ score x then (x, some r.1) else r

/-- The outcome of a pass over `l`, started with `a` as the best. -/
structure Contested (a : α) (l : List α) (r : α × Option α) : Prop where
  best_mem : r.1 ∈ a :: l
  le_best : ∀ x ∈ a :: l, score x ≤ score r.1
  second_mem : ∀ y ∈ r.2, y ∈ a :: l
  isSome_iff : r.2.isSome ↔ ∃ x ∈ l, score a ≤ score x
  best_mem_of_isSome : r.2.isSome → r.1 ∈ l
  best_eq_of_isNone : r.2 = none → r.1 = a
  ne : (a :: l).Nodup → ∀ y ∈ r.2, y ≠ r.1

variable {score} {a x : α} {l : List α} {r : α × Option α}

lemma contested_nil (score : α → κ) (a : α) : Contested score a [] (a, none) where
  best_mem := List.mem_singleton_self a
  le_best := by simp
  second_mem := by simp
  isSome_iff := by simp
  best_mem_of_isSome := by simp
  best_eq_of_isNone _ := rfl
  ne := by simp

/-- **One step of the pass.** -/
lemma Contested.step (h : Contested score a l r) (x : α) :
    Contested score a (l ++ [x]) (contest score r x) := by
  have hcons : a :: (l ++ [x]) = (a :: l) ++ [x] := rfl
  unfold contest
  split_ifs with hle
  · refine ⟨by simp, fun y hy => ?_, ?_, ?_, by simp, by simp, fun hnodup => ?_⟩
    · rw [hcons, List.mem_append, List.mem_singleton] at hy
      rcases hy with hy | rfl
      · exact (h.le_best y hy).trans hle
      · exact le_rfl
    · intro y hy
      obtain rfl : r.1 = y := by simpa using hy
      rw [hcons]
      exact List.mem_append_left _ h.best_mem
    · simp only [Option.isSome_some, true_iff]
      exact ⟨x, by simp, (h.le_best a List.mem_cons_self).trans hle⟩
    · intro y hy heq
      obtain rfl : r.1 = y := by simpa using hy
      rw [hcons] at hnodup
      exact List.disjoint_of_nodup_append hnodup h.best_mem (List.mem_singleton.mpr heq)
  · have hlt : score x < score r.1 := not_le.mp hle
    refine ⟨?_, fun y hy => ?_, fun y hy => ?_, ?_, fun hsome => ?_, h.best_eq_of_isNone,
      fun hnodup => h.ne ?_⟩
    · rw [hcons]
      exact List.mem_append_left _ h.best_mem
    · rw [hcons, List.mem_append, List.mem_singleton] at hy
      rcases hy with hy | rfl
      · exact h.le_best y hy
      · exact hlt.le
    · rw [hcons]
      exact List.mem_append_left _ (h.second_mem y hy)
    · rw [h.isSome_iff]
      constructor
      · rintro ⟨y, hy, hay⟩
        exact ⟨y, List.mem_append_left _ hy, hay⟩
      · rintro ⟨y, hy, hay⟩
        rcases List.mem_append.mp hy with hy | hy
        · exact ⟨y, hy, hay⟩
        -- nobody was displaced, so the best is still the first, which `x` does not reach
        · obtain rfl := List.mem_singleton.mp hy
          cases hsecond : r.2 with
          | none => exact absurd (h.best_eq_of_isNone hsecond ▸ hlt) (not_lt.mpr hay)
          | some z => exact h.isSome_iff.mp (by simp [hsecond])
    · exact List.mem_append_left _ (h.best_mem_of_isSome hsome)
    · rw [hcons] at hnodup
      exact hnodup.of_append_left

/-- **The whole pass.** -/
lemma contested_foldl (score : α → κ) (a : α) (l : List α) :
    Contested score a l (l.foldl (contest score) (a, none)) := by
  induction l using List.reverseRecOn with
  | nil => exact contested_nil score a
  | append_singleton l x ih =>
      rw [List.foldl_append]
      exact ih.step x

end Framework
