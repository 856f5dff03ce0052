import Mathlib.Tactic

/-!
# Queues of linked cells

A queue kept in singly linked cells, with a pointer to the first cell and one to the last.  The
heap is partial: what is not allocated is `none`, so an address may be given out again once its
cell is freed.

`Holds heap head tail xs` says that the cells from `head` carry `xs`.  It says nothing about
`tail` where `xs` is empty, for removing the last cell leaves that pointer dangling.  The rules
are `Holds.alloc`, `Holds.first`, `Holds.append` and `Holds.pop`.
-/

namespace Framework

universe u v

/-- A cell, and the address of the next one. -/
structure Cell (P : Type u) (α : Type v) where
  data : α
  next : Option P

variable {P : Type u} {α : Type v} {heap : P → Option (Cell P α)} {start stop tail : Option P}
  {cs cs' : List (P × α)} {xs : List α} {x : α} {p : P}

/-- From `start`, the cells `cs` lead to `stop`. -/
def Linked (heap : P → Option (Cell P α)) (stop : Option P) : Option P → List (P × α) → Prop
  | start, [] => start = stop
  | start, c :: cs => start = some c.1 ∧ ∃ next, heap c.1 = some ⟨c.2, next⟩ ∧
      Linked heap stop next cs

/-- The cells from `head` carry `xs`, and `tail` points to the last of them. -/
def Holds (heap : P → Option (Cell P α)) (head tail : Option P) (xs : List α) : Prop :=
  ∃ cs : List (P × α), Linked heap none head cs ∧ (cs.map Prod.fst).Nodup ∧
    cs.map Prod.snd = xs ∧ ∀ c ∈ cs.getLast?, tail = some c.1

lemma linked_append : Linked heap stop start (cs ++ cs') ↔
    ∃ mid, Linked heap mid start cs ∧ Linked heap stop mid cs' := by
  induction cs generalizing start with
  | nil => simp [Linked]
  | cons c cs ih =>
      simp only [List.cons_append, Linked, ih]
      constructor
      · rintro ⟨hstart, next, hcell, mid, hcs, hcs'⟩
        exact ⟨mid, ⟨hstart, next, hcell, hcs⟩, hcs'⟩
      · rintro ⟨mid, ⟨hstart, next, hcell, hcs⟩, hcs'⟩
        exact ⟨hstart, next, hcell, mid, hcs, hcs'⟩

/-- The first pointer leads to the first cell. -/
lemma Linked.start_eq (h : Linked heap none start cs) : start = cs.head?.map Prod.fst := by
  cases cs with
  | nil => exact h
  | cons c cs => exact h.1

/-- Every linked cell is allocated. -/
lemma Linked.ne_none (h : Linked heap stop start cs) (hp : p ∈ cs.map Prod.fst) :
    heap p ≠ none := by
  induction cs generalizing start with
  | nil => simp at hp
  | cons c cs ih =>
      obtain ⟨-, next, hcell, hrest⟩ := h
      rw [List.map_cons, List.mem_cons] at hp
      rcases hp with rfl | hp
      · simp [hcell]
      · exact ih hrest hp

/-- There is one way along the cells to a null pointer. -/
lemma Linked.unique (h : Linked heap none start cs) (h' : Linked heap none start cs') :
    cs = cs' := by
  induction cs generalizing start cs' with
  | nil =>
      obtain rfl : start = none := h
      cases cs' with
      | nil => rfl
      | cons c cs' => exact absurd h'.1 (by simp)
  | cons c cs ih =>
      obtain ⟨rfl, next, hcell, hrest⟩ := h
      cases cs' with
      | nil => exact absurd h' (by simp [Linked])
      | cons c' cs' =>
          obtain ⟨hstart, next', hcell', hrest'⟩ := h'
          have hfst : c.1 = c'.1 := Option.some.inj hstart
          rw [hfst, hcell', Option.some.injEq, Cell.mk.injEq] at hcell
          obtain ⟨hsnd, rfl⟩ := hcell
          rw [ih hrest hrest', Prod.ext hfst hsnd.symm]

/-- A queue carries one sequence of items. -/
lemma Holds.unique {head tail' : Option P} {ys : List α} (h : Holds heap head tail xs)
    (h' : Holds heap head tail' ys) : xs = ys := by
  obtain ⟨cs, hlinked, -, rfl, -⟩ := h
  obtain ⟨cs', hlinked', -, rfl, -⟩ := h'
  rw [hlinked.unique hlinked']

/-- An empty queue. -/
lemma holds_nil (heap : P → Option (Cell P α)) (tail : Option P) : Holds heap none tail [] :=
  ⟨[], rfl, List.nodup_nil, rfl, by simp⟩

lemma Holds.head_eq_none_iff {head : Option P} (h : Holds heap head tail xs) :
    head = none ↔ xs = [] := by
  obtain ⟨cs, hlinked, -, rfl, -⟩ := h
  cases cs with
  | nil => simpa [Linked] using hlinked
  | cons c cs => simp [hlinked.1]

/-- The first cell of a queue. -/
lemma Holds.first (hp : heap p = some ⟨x, none⟩) : Holds heap (some p) (some p) [x] :=
  ⟨[(p, x)], ⟨rfl, none, hp, rfl⟩, by simp, rfl, by simp⟩

/-- Only the linked cells matter. -/
lemma linked_congr {heap' : P → Option (Cell P α)} (h : ∀ p ∈ cs.map Prod.fst, heap' p = heap p) :
    Linked heap' stop start cs ↔ Linked heap stop start cs := by
  induction cs generalizing start with
  | nil => rfl
  | cons c cs ih =>
      rw [List.map_cons, List.forall_mem_cons] at h
      rw [Linked, Linked, h.1]
      simp only [ih h.2]

variable [DecidableEq P]

/-- A cell elsewhere does not matter. -/
lemma linked_update {c : Option (Cell P α)} (hp : p ∉ cs.map Prod.fst) :
    Linked (Function.update heap p c) stop start cs ↔ Linked heap stop start cs := by
  refine linked_congr fun q hq => Function.update_of_ne ?_ _ _
  rintro rfl
  exact hp hq

variable {head : Option P}

/-- Allocating a cell. -/
lemma Holds.alloc {c : Cell P α} (h : Holds heap head tail xs) (hp : heap p = none) :
    Holds (Function.update heap p (some c)) head tail xs := by
  obtain ⟨cs, hlinked, hnodup, hdata, htail⟩ := h
  have hfresh : p ∉ cs.map Prod.fst := fun hm => hlinked.ne_none hm hp
  exact ⟨cs, (linked_update hfresh).mpr hlinked, hnodup, hdata, htail⟩

/-- **Linking a new cell behind the last one.** -/
lemma Holds.append (h : Holds heap head tail xs) (hp : heap p = none) (hne : xs ≠ []) :
    ∃ last y, tail = some last ∧ last ≠ p ∧ heap last = some ⟨y, none⟩ ∧
      Holds (Function.update (Function.update heap p (some ⟨x, none⟩)) last
        (some ⟨y, some p⟩)) head (some p) (xs ++ [x]) := by
  obtain ⟨cs, hlinked, hnodup, rfl, htail⟩ := h
  have hfresh : p ∉ cs.map Prod.fst := fun hm => hlinked.ne_none hm hp
  have hcs : cs ≠ [] := fun he => hne (by simp [he])
  obtain ⟨cs, ⟨last, y⟩, rfl⟩ := (List.eq_nil_or_concat' cs).resolve_left hcs
  obtain ⟨mid, hcs, rfl, _, hlast, rfl⟩ := linked_append.mp hlinked
  rw [List.map_append, List.nodup_append] at hnodup
  rw [List.map_append, List.mem_append, not_or] at hfresh
  have hne : last ≠ p := fun he => hfresh.2 (by simp [he])
  have hother : last ∉ cs.map Prod.fst := fun hm => hnodup.2.2 last hm last (by simp) rfl
  refine ⟨last, y, htail (last, y) (by simp), hne, hlast, cs ++ [(last, y), (p, x)], ?_, ?_, ?_, ?_⟩
  · refine linked_append.mpr ⟨some last, ?_, rfl, some p, ?_, rfl, none, ?_, rfl⟩
    · exact (linked_update hother).mpr ((linked_update hfresh.1).mpr hcs)
    · exact Function.update_self ..
    · rw [Function.update_of_ne hne.symm]
      exact Function.update_self ..
  · rw [List.map_append, List.nodup_append]
    refine ⟨hnodup.1, by simpa using hne, fun a ha b hb => ?_⟩
    rintro rfl
    simp only [List.map_cons, List.map_nil, List.mem_cons, List.not_mem_nil, or_false] at hb
    rcases hb with rfl | rfl
    · exact hother ha
    · exact hfresh.1 ha
  · simp
  · simp

/-- **Taking the first cell out and freeing it.** -/
lemma Holds.pop (h : Holds heap head tail (x :: xs)) :
    ∃ p next, head = some p ∧ heap p = some ⟨x, next⟩ ∧
      Holds (Function.update heap p none) next tail xs := by
  obtain ⟨cs, hlinked, hnodup, hdata, htail⟩ := h
  obtain ⟨⟨p, x⟩, cs, rfl, rfl, rfl⟩ := List.map_eq_cons_iff.mp hdata
  obtain ⟨rfl, next, hcell, hrest⟩ := hlinked
  rw [List.map_cons, List.nodup_cons] at hnodup
  refine ⟨p, next, rfl, hcell, cs, (linked_update hnodup.1).mpr hrest, hnodup.2, rfl, ?_⟩
  intro c hc
  apply htail c
  cases cs with
  | nil => simp at hc
  | cons c' cs => simpa using hc

end Framework
