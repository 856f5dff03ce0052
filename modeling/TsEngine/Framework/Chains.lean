import TsEngine.Framework.Utlist

/-!
# Null-terminated doubly linked chains

A chain is a start pointer and the two pointer fields of all nodes, with null pointers at both ends.
`Chain next prev start xs` says that the nodes on it are `xs`.  This module has what the pointer
assignments that push a node in front (`Chain.pushFront`), append one behind the last
(`Chain.append`) and take one out (`Chain.unlink`) do to a chain, and the frame rule
(`Chain.congr`): a chain depends on the pointers of its own nodes only.
-/

namespace Framework

open Utlist

universe u

variable {α : Type u}

/-- `p->f = v`, unless `p` is null. -/
def setAt [DecidableEq α] (f : α → Option α) (p v : Option α) : α → Option α :=
  match p with
  | some a => Function.update f a v
  | none => f

lemma setAt_of_ne [DecidableEq α] {f : α → Option α} {p v : Option α} {x : α} (hx : p ≠ some x) :
    setAt f p v x = f x := by
  cases p with
  | none => rfl
  | some a => exact Function.update_of_ne (fun he => hx (congrArg some he.symm)) _ _

/-- From `start` the nodes are `xs`, with null pointers at both ends. -/
structure Chain (next prev : α → Option α) (start : Option α) (xs : List α) : Prop where
  nodup : xs.Nodup
  forth : NextChain next none start xs
  back : PrevChain prev none xs

variable {next next' prev prev' : α → Option α} {start stop before : Option α}
  {xs ys zs : List α} {a b q : α}

lemma Utlist.NextChain.congr (h : NextChain next stop start xs)
    (hnext : ∀ x ∈ xs, next' x = next x) : NextChain next' stop start xs := by
  induction xs generalizing start with
  | nil => exact h
  | cons x xs ih =>
      refine ⟨h.1, ?_⟩
      rw [hnext x List.mem_cons_self]
      exact ih h.2 fun y hy => hnext y (List.mem_cons_of_mem x hy)

lemma Utlist.PrevChain.congr (h : PrevChain prev before xs) (hprev : ∀ x ∈ xs, prev' x = prev x) :
    PrevChain prev' before xs := by
  induction xs generalizing before with
  | nil => trivial
  | cons x xs ih =>
      refine ⟨?_, ih h.2 fun y hy => hprev y (List.mem_cons_of_mem x hy)⟩
      rw [hprev x List.mem_cons_self]
      exact h.1

namespace Chain

lemma nil : Chain next prev none [] := ⟨List.nodup_nil, rfl, trivial⟩

/-- **Frame rule.** -/
lemma congr (h : Chain next prev start xs) (hnext : ∀ x ∈ xs, next' x = next x)
    (hprev : ∀ x ∈ xs, prev' x = prev x) : Chain next' prev' start xs :=
  ⟨h.nodup, h.forth.congr hnext, h.back.congr hprev⟩

lemma start_eq (h : Chain next prev start xs) : start = xs.head? := NextChain.start_eq h.forth

/-- There is one chain from a start pointer. -/
lemma unique (h : Chain next prev start xs) (h' : Chain next prev start ys) : xs = ys :=
  NextChain.unique h.forth h'.forth

lemma walk_eq (h : Chain next prev start xs) {n : ℕ} (hn : xs.length ≤ n) :
    walk next n start = xs :=
  NextChain.walk_eq h.forth hn

/-- The `prev` pointer of a node. -/
lemma prev_eq (h : Chain next prev start (ys ++ a :: zs)) : prev a = ys.getLast? := by
  obtain ⟨-, hback⟩ := prevChain_append.mp h.back
  rw [hback.1, Option.or_none]

/-- The `next` pointer of a node. -/
lemma next_eq (h : Chain next prev start (ys ++ a :: zs)) : next a = zs.head? := by
  obtain ⟨_, -, -, hforth⟩ := nextChain_append.mp h.forth
  exact NextChain.start_eq hforth

/-- The neighbours of a node are on the chain. -/
lemma mem_of_prev (h : Chain next prev start xs) (ha : a ∈ xs) (hb : prev a = some b) : b ∈ xs := by
  obtain ⟨ys, zs, rfl⟩ := List.append_of_mem ha
  exact List.mem_append_left _ (List.mem_of_getLast? (h.prev_eq.symm.trans hb))

lemma mem_of_next (h : Chain next prev start xs) (ha : a ∈ xs) (hb : next a = some b) : b ∈ xs := by
  obtain ⟨ys, zs, rfl⟩ := List.append_of_mem ha
  have hzs := List.mem_of_mem_head? (h.next_eq.symm.trans hb)
  exact List.mem_append_right ys (List.mem_cons_of_mem a hzs)

variable [DecidableEq α]

/-- **A node in front**: it points at the old first node, which points back. -/
lemma pushFront (h : Chain next prev start xs) (ha : a ∉ xs) :
    Chain (Function.update next a start) (setAt (Function.update prev a none) start (some a))
      (some a) (a :: xs) := by
  have hforth : NextChain (Function.update next a start) none
      (Function.update next a start a) xs := by
    rw [Function.update_self]
    exact (nextChain_update ha).mpr h.forth
  refine ⟨List.nodup_cons.mpr ⟨ha, h.nodup⟩, ⟨rfl, hforth⟩, ?_⟩
  cases xs with
  | nil =>
      obtain rfl : start = none := h.forth
      exact ⟨Function.update_self .., trivial⟩
  | cons b xs =>
      obtain rfl : start = some b := h.forth.1
      have hne : a ≠ b := fun he => ha (he ▸ List.mem_cons_self)
      have hback : PrevChain (Function.update prev a none) none (b :: xs) :=
        (prevChain_update ha).mpr h.back
      refine ⟨?_, hback.update_head (List.nodup_cons.mp h.nodup).1⟩
      exact (Function.update_of_ne hne _ _).trans (Function.update_self ..)

/-- **A node behind the last**, which is pointed at by it. -/
lemma append (h : Chain next prev start (ys ++ [b])) (ha : a ∉ ys ++ [b]) :
    Chain (Function.update (Function.update next a none) b (some a))
      (Function.update prev a (some b)) start (ys ++ [b] ++ [a]) := by
  have hmem := h.nodup
  rw [List.nodup_append] at hmem
  have hb : b ∉ ys := fun hb => hmem.2.2 b hb b List.mem_cons_self rfl
  have hab : a ≠ b := fun he => ha (by simp [he])
  refine ⟨List.nodup_append.mpr ⟨h.nodup, List.nodup_singleton a, fun x hx y hy he => ?_⟩, ?_, ?_⟩
  · exact ha (List.mem_singleton.mp hy ▸ he ▸ hx)
  · obtain ⟨_, hys, rfl, -⟩ := nextChain_append.mp h.forth
    have hys' : NextChain (Function.update (Function.update next a none) b (some a)) (some b)
        start ys :=
      (nextChain_update hb).mpr ((nextChain_update fun hmem => ha (by simp [hmem])).mpr hys)
    rw [List.append_assoc]
    refine nextChain_append.mpr ⟨some b, hys', rfl, ?_⟩
    rw [Function.update_self]
    exact ⟨rfl, (Function.update_of_ne hab _ _).trans (Function.update_self ..)⟩
  · refine prevChain_append.mpr ⟨(prevChain_update ha).mpr h.back, ?_, trivial⟩
    simp

/-- **A node taken out**: its neighbours point past it, and so does the start if it was the first
one. -/
lemma unlink (h : Chain next prev start (ys ++ a :: zs)) :
    Chain (setAt next (prev a) (next a)) (setAt prev (next a) (prev a))
      (if prev a = none then next a else start) (ys ++ zs) := by
  have hnodup : (ys ++ zs).Nodup :=
    h.nodup.sublist ((List.sublist_cons_self a zs).append_left ys)
  have hmem := h.nodup
  simp only [List.nodup_append, List.nodup_cons, List.mem_cons, forall_eq_or_imp] at hmem
  obtain ⟨hys, ⟨-, hzs⟩, hdisj⟩ := hmem
  refine ⟨hnodup, ?_, ?_⟩
  · rw [h.prev_eq]
    obtain rfl | ⟨ys, p, rfl⟩ := List.eq_nil_or_concat ys
    · exact h.forth.2
    · have hforth := h.forth
      rw [List.concat_eq_append, List.append_assoc, List.singleton_append] at hforth ⊢
      rw [List.concat_eq_append] at hys hdisj
      rw [List.getLast?_append, List.getLast?_singleton, Option.some_or]
      refine hforth.unlink (fun hp => ?_) fun hp => ?_
      · exact (List.nodup_append.mp hys).2.2 p hp p List.mem_cons_self rfl
      · exact (hdisj p (by simp)).2 p hp rfl
  · rw [h.next_eq, h.prev_eq]
    cases zs with
    | nil =>
        have hback := prevChain_append.mp h.back
        simpa [setAt] using hback.1
    | cons z zs =>
        obtain ⟨hback, -, hz, hrest⟩ := prevChain_append.mp h.back
        refine prevChain_append.mpr ⟨(prevChain_update fun hmem => ?_).mpr hback, ?_⟩
        · exact (hdisj z hmem).2 z List.mem_cons_self rfl
        · rw [Option.or_none]
          exact PrevChain.update_head ⟨hz, hrest⟩ (List.nodup_cons.mp hzs).1

end Chain

end Framework
