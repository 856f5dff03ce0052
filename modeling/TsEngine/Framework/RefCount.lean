import Mathlib.Logic.Function.Basic
import Mathlib.Tactic

/-!
# Reference counts kept by the holders

Threads that hold at most one object each, and for every object a counter that a thread raises
when it takes hold of the object and lowers when it lets go.  The counter is a machine word, so it
is the number of holders up to a multiple of `n` (`Counted`).

A counter at zero therefore means that nobody holds the object as long as fewer than `n` threads
can (`Counted.notMem_iff`).  It says nothing of a thread that is about to take hold.
-/

namespace Framework

universe u

variable {α : Type u} [DecidableEq α] {n i : ℕ} {count : α → ℕ} {held : List (Option α)} {p : α}

/-- Each counter is the number of threads that hold its object, modulo `n`. -/
def Counted (n : ℕ) (count : α → ℕ) (held : List (Option α)) : Prop :=
  ∀ p, count p = held.count (some p) % n

lemma counted_nil (n : ℕ) : Counted n (fun _ : α => 0) [] := fun _ => by simp

/-- A thread that holds nothing does not count. -/
lemma Counted.append_none (h : Counted n count held) : Counted n count (held ++ [none]) :=
  fun p => by simp [h p]

lemma Counted.stay {o : Option α} (h : Counted n count held) (hi : held[i]? = some o) :
    Counted n count (held.set i o) := by
  obtain ⟨hlt, rfl⟩ := List.getElem?_eq_some_iff.mp hi
  rw [List.set_getElem_self]
  exact h

/-- **Taking hold** of an object. -/
lemma Counted.enter (h : Counted n count held) (hi : held[i]? = some none) (p : α) :
    Counted n (Function.update count p ((count p + 1) % n)) (held.set i (some p)) := by
  obtain ⟨hlt, hget⟩ := List.getElem?_eq_some_iff.mp hi
  intro q
  rw [List.count_set hlt, hget]
  by_cases hq : q = p
  · subst hq
    simp [h q]
  · have hpq : p ≠ q := fun he => hq he.symm
    simp [h q, hq, hpq]

/-- **Letting go** of it. -/
lemma Counted.leave (h : Counted n count held) (hn : 0 < n) (hi : held[i]? = some (some p)) :
    Counted n (Function.update count p ((count p + (n - 1)) % n)) (held.set i none) := by
  obtain ⟨hlt, hget⟩ := List.getElem?_eq_some_iff.mp hi
  intro q
  rw [List.count_set hlt, hget]
  by_cases hq : q = p
  · subst hq
    have hpos : 0 < held.count (some q) :=
      List.count_pos_iff.mpr (hget ▸ List.getElem_mem hlt)
    have hsub : held.count (some q) + (n - 1) = held.count (some q) - 1 + n := by omega
    rw [Function.update_self, h q, Nat.mod_add_mod, hsub, Nat.add_mod_right]
    simp
  · have hpq : p ≠ q := fun he => hq he.symm
    simp [h q, hq, hpq]

/-- **What a counter at zero says**: nobody holds the object, unless a whole multiple of `n`
threads do. -/
lemma Counted.notMem_iff (h : Counted n count held) (hn : 0 < n) (hzero : count p = 0) :
    some p ∉ held ↔ held.count (some p) < n := by
  have hmod : held.count (some p) % n = 0 := (h p).symm.trans hzero
  rw [← List.count_eq_zero]
  constructor
  · intro hcount
    rwa [hcount]
  · intro hlt
    rwa [Nat.mod_eq_of_lt hlt] at hmod

end Framework
