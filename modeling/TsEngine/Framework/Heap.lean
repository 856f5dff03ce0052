import Mathlib.Logic.Function.Basic
import Mathlib.Tactic

/-!
# A heap that tells a freed cell from a live one

A `Heap` gives out addresses in order and gives none out twice, so that a cell which has been freed
stays unallocated and a read of it is an error (`Heap.deref`).  That nothing is allocated from
`next` on is a field.

`Heap.Keeps ps` is the frame rule: what was ever allocated, apart from the cells at `ps`, is as it
was.  A step that writes a structure at the addresses `ps` and leaves it at `ps'` is
`Heap.Writes ps ps'`; such steps compose (`Writes.trans`), and one of them leaves every structure
alone whose addresses are not among `ps` (`Writes.disjoint`).
-/

namespace Framework

universe u

/-- What can go wrong with memory, a loop that outruns its bound, and an assertion that fails. -/
inductive HeapError
  | nullDereference
  | useAfterFree
  | outOfBounds
  | outOfFuel
  | assertion
  deriving DecidableEq

/-- Cells, allocated at the addresses below `next`. -/
structure Heap (β : Type u) where
  cells : ℕ → Option β
  next : ℕ
  fresh : ∀ p, next ≤ p → cells p = none

namespace Heap

variable {β : Type u} {h h' h'' : Heap β} {p q : ℕ} {ps ps' ps'' : List ℕ}

/-- Nothing is allocated. -/
def empty : Heap β := ⟨fun _ => none, 0, fun _ _ => rfl⟩

/-- Allocate a cell, at the address `next`. -/
def alloc (h : Heap β) (x : β) : Heap β where
  cells := Function.update h.cells h.next (some x)
  next := h.next + 1
  fresh p hp := by
    rw [Function.update_of_ne (by omega)]
    exact h.fresh p (by omega)

/-- Overwrite the cell at an address, if there is one. -/
def store (h : Heap β) (p : ℕ) (x : β) : Heap β where
  cells := Function.update h.cells p ((h.cells p).map fun _ => x)
  next := h.next
  fresh q hq := by
    by_cases hqp : q = p
    · subst hqp
      simp [h.fresh q hq]
    · rw [Function.update_of_ne hqp, h.fresh q hq]

/-- Free the cell at an address. -/
def free (h : Heap β) (p : ℕ) : Heap β where
  cells := Function.update h.cells p none
  next := h.next
  fresh q hq := by
    by_cases hqp : q = p
    · rw [hqp, Function.update_self]
    · rw [Function.update_of_ne hqp, h.fresh q hq]

/-- The cell a pointer leads to. -/
def deref (h : Heap β) : Option ℕ → Except HeapError (ℕ × β)
  | none => .error .nullDereference
  | some p =>
      match h.cells p with
      | none => .error .useAfterFree
      | some x => .ok (p, x)

lemma deref_of_cells {x : β} (hp : h.cells p = some x) : h.deref (some p) = .ok (p, x) := by
  simp [deref, hp]

@[simp] lemma cells_alloc_self (x : β) : (h.alloc x).cells h.next = some x :=
  Function.update_self ..

lemma cells_alloc_of_ne (x : β) (hp : p ≠ h.next) : (h.alloc x).cells p = h.cells p :=
  Function.update_of_ne hp ..

@[simp] lemma next_alloc (x : β) : (h.alloc x).next = h.next + 1 := rfl

lemma cells_store_self {x : β} (hp : h.cells p = some x) (y : β) :
    (h.store p y).cells p = some y := by
  simp [store, hp]

lemma cells_store_of_ne (hqp : q ≠ p) (x : β) : (h.store p x).cells q = h.cells q :=
  Function.update_of_ne hqp ..

@[simp] lemma next_store (x : β) : (h.store p x).next = h.next := rfl

@[simp] lemma cells_free_self : (h.free p).cells p = none := Function.update_self ..

lemma cells_free_of_ne (hqp : q ≠ p) : (h.free p).cells q = h.cells q :=
  Function.update_of_ne hqp ..

@[simp] lemma next_free : (h.free p).next = h.next := rfl

/-- What is allocated has an address below `next`. -/
lemma lt_next (hp : h.cells p ≠ none) : p < h.next := by
  by_contra hle
  exact hp (h.fresh p (by omega))

/-! ## Frames -/

/-- Of what was ever allocated, only the cells at `ps` may have changed. -/
def Keeps (ps : List ℕ) (h h' : Heap β) : Prop :=
  h.next ≤ h'.next ∧ ∀ q < h.next, q ∉ ps → h'.cells q = h.cells q

/-- A structure at the addresses `ps` is written, and lies at `ps'` afterwards. -/
def Writes (ps ps' : List ℕ) (h h' : Heap β) : Prop :=
  h.Keeps ps h' ∧ ∀ p ∈ ps', p ∈ ps ∨ h.next ≤ p

lemma Writes.refl (ps : List ℕ) (h : Heap β) : h.Writes ps ps h :=
  ⟨⟨le_rfl, fun _ _ _ => rfl⟩, fun _ hp => .inl hp⟩

lemma Writes.trans (hw : h.Writes ps ps' h') (hw' : h'.Writes ps' ps'' h'') :
    h.Writes ps ps'' h'' := by
  obtain ⟨⟨hle, hcells⟩, hps⟩ := hw
  obtain ⟨⟨hle', hcells'⟩, hps'⟩ := hw'
  refine ⟨⟨hle.trans hle', fun q hq hnot => ?_⟩, fun p hp => ?_⟩
  · have hnot' : q ∉ ps' := fun hm => (hps q hm).elim hnot (by omega)
    rw [hcells' q (by omega) hnot', hcells q hq hnot]
  · rcases hps' p hp with hp | hp
    · exact hps p hp
    · exact .inr (by omega)

/-- More may be written, and less be left in use. -/
lemma Writes.weaken (hw : h.Writes ps ps' h') {qs qs' : List ℕ} (hsub : ps ⊆ qs)
    (hsub' : ∀ p ∈ qs', p ∈ qs ∨ p ∈ ps' ∨ h.next ≤ p) : h.Writes qs qs' h' := by
  obtain ⟨⟨hle, hcells⟩, hps⟩ := hw
  refine ⟨⟨hle, fun q hq hnot => hcells q hq fun hm => hnot (hsub hm)⟩, fun p hp => ?_⟩
  rcases hsub' p hp with hp | hp | hp
  · exact .inl hp
  · exact (hps p hp).imp_left fun hm => hsub hm
  · exact .inr hp

/-- Addresses in use stay apart from those of a structure that is written. -/
lemma Writes.disjoint (hw : h.Writes ps ps' h') {qs : List ℕ} (hqs : ∀ q ∈ qs, q < h.next)
    (hdisj : qs.Disjoint ps) : qs.Disjoint ps' := by
  intro q hq hq'
  rcases hw.2 q hq' with hp | hp
  · exact hdisj hq hp
  · exact absurd (hqs q hq) (by omega)

lemma writes_alloc (ps : List ℕ) (h : Heap β) (x : β) :
    h.Writes ps (ps ++ [h.next]) (h.alloc x) := by
  refine ⟨⟨by simp, fun q hq _ => cells_alloc_of_ne x (by omega)⟩, fun p hp => ?_⟩
  rcases List.mem_append.mp hp with hp | hp
  · exact .inl hp
  · exact .inr (List.mem_singleton.mp hp).ge

lemma writes_store (hp : p ∈ ps) (h : Heap β) (x : β) : h.Writes ps ps (h.store p x) := by
  refine ⟨⟨le_rfl, fun q _ hnot => cells_store_of_ne ?_ x⟩, fun _ hq => .inl hq⟩
  rintro rfl
  exact hnot hp

lemma writes_free (p : ℕ) (ps : List ℕ) (h : Heap β) : h.Writes (p :: ps) ps (h.free p) := by
  refine ⟨⟨le_rfl, fun q _ hnot => cells_free_of_ne ?_⟩,
    fun _ hq => .inl (List.mem_cons_of_mem _ hq)⟩
  rintro rfl
  exact hnot List.mem_cons_self

end Heap

end Framework
