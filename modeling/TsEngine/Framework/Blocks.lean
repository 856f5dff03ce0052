import TsEngine.Framework.Heap

/-!
# Blocks of memory

The heap of `Framework/Heap` with lists for cells: what `malloc` and `realloc` give out and what
`memset` and `memcpy` work on.  Every access is checked against the length of its block.

A block that has just been allocated holds whatever the allocator has there, which is the parameter
`junk`.  `Blocks.At` is what a pointer leads to, nothing if it is null.
-/

namespace Framework

universe u

/-- Blocks, by the address of their first element. -/
abbrev Blocks (β : Type u) := Heap (List β)

namespace Blocks

variable {β : Type u} (junk : ℕ → ℕ → β)

/-- `malloc(n)`. -/
def malloc (n : ℕ) (h : Blocks β) : ℕ × Blocks β :=
  (h.next, h.alloc ((List.range n).map (junk h.next)))

/-- `realloc(p, n)`, which moves the block. -/
def realloc (p : Option ℕ) (n : ℕ) (h : Blocks β) : Except HeapError (ℕ × Blocks β) :=
  match p with
  | none => .ok (malloc junk n h)
  | some p => do
      let (p, xs) ← h.deref (some p)
      let ys := (List.range (n - xs.length)).map fun i => junk h.next (xs.length + i)
      return (h.next, (h.alloc (xs.take n ++ ys)).free p)

/-- `p[i]`. -/
def load (p : Option ℕ) (i : ℕ) (h : Blocks β) : Except HeapError β := do
  let (_, xs) ← h.deref p
  match xs[i]? with
  | some x => return x
  | none => .error .outOfBounds

/-- `p[i] = x`. -/
def store (p : Option ℕ) (i : ℕ) (x : β) (h : Blocks β) : Except HeapError (Blocks β) := do
  let (p, xs) ← h.deref p
  if i < xs.length then return Heap.store h p (xs.set i x) else .error .outOfBounds

/-- `memset(p + i, x, n)`. -/
def fill (p : Option ℕ) (i n : ℕ) (x : β) (h : Blocks β) : Except HeapError (Blocks β) := do
  let (p, xs) ← h.deref p
  if i + n ≤ xs.length then
    return Heap.store h p (xs.take i ++ List.replicate n x ++ xs.drop (i + n))
  else .error .outOfBounds

/-- `memcpy(dst, src, n)`. -/
def copy (dst src : Option ℕ) (n : ℕ) (h : Blocks β) : Except HeapError (Blocks β) :=
  if n = 0 then .ok h
  else do
    let (p, xs) ← h.deref dst
    let (_, ys) ← h.deref src
    if n ≤ xs.length ∧ n ≤ ys.length then return Heap.store h p (ys.take n ++ xs.drop n)
    else .error .outOfBounds

/-- What a pointer leads to. -/
def At (h : Blocks β) (p : Option ℕ) (xs : List β) : Prop :=
  match p with
  | none => xs = []
  | some p => h.cells p = some xs

variable {junk} {h h' : Blocks β} {p : Option ℕ} {q : ℕ} {xs ys : List β} {i n : ℕ} {x : β}
  {ps ps' : List ℕ}

lemma At.lt_next (hp : At h p xs) : ∀ q ∈ p.toList, q < h.next := by
  intro q hq
  obtain rfl := Option.mem_toList.mp hq
  refine Heap.lt_next ?_
  rw [show h.cells q = some xs from hp]
  simp

/-- A block that is not written. -/
lemma At.frame (hp : At h p xs) (hw : h.Writes ps ps' h') (hdisj : p.toList.Disjoint ps) :
    At h' p xs := by
  cases p with
  | none => exact hp
  | some q =>
      have hq : q ∈ (some q).toList := by simp
      exact (hw.1.2 q (hp.lt_next q hq) (hdisj hq)).trans hp

variable (junk) in
lemma malloc_at (n : ℕ) (h : Blocks β) : ∃ q h' xs, malloc junk n h = (q, h') ∧
    h'.cells q = some xs ∧ xs.length = n ∧ h.Writes [] [q] h' :=
  ⟨h.next, _, _, rfl, Heap.cells_alloc_self _, by simp, Heap.writes_alloc [] h _⟩

variable (junk) in
/-- **`realloc`** keeps what was there. -/
lemma At.realloc (hp : At h p xs) (hn : xs.length ≤ n) : ∃ q h' ys,
    realloc junk p n h = .ok (q, h') ∧ h'.cells q = some (xs ++ ys) ∧ ys.length = n - xs.length ∧
      h.Writes p.toList [q] h' := by
  cases p with
  | none =>
      obtain rfl : xs = [] := hp
      exact ⟨h.next, _, _, rfl, Heap.cells_alloc_self _, by simp, Heap.writes_alloc [] h _⟩
  | some p =>
      have hcell : h.cells p = some xs := hp
      have hlt : p < h.next := hp.lt_next p (by simp)
      have hread : h.deref (some p) = .ok (p, xs) := Heap.deref_of_cells hcell
      set ys := (List.range (n - xs.length)).map fun i => junk h.next (xs.length + i)
      refine ⟨h.next, (Heap.alloc h (xs.take n ++ ys)).free p, ys, ?_, ?_, by simp [ys], ?_⟩
      · simp only [Blocks.realloc, hread, bind, Except.bind]
        rfl
      · rw [Heap.cells_free_of_ne hlt.ne', Heap.cells_alloc_self, List.take_of_length_le hn]
      · exact (Heap.writes_alloc [p] h _).trans (Heap.writes_free p [h.next] _)

lemma load_eq (hq : h.cells q = some xs) (hi : i < xs.length) : load (some q) i h = .ok xs[i] := by
  have hread : h.deref (some q) = .ok (q, xs) := Heap.deref_of_cells hq
  simp only [load, hread, bind, Except.bind, List.getElem?_eq_getElem hi]
  rfl

lemma store_eq (hq : h.cells q = some xs) (hi : i < xs.length) (x : β) :
    store (some q) i x h = .ok (Heap.store h q (xs.set i x)) := by
  have hread : h.deref (some q) = .ok (q, xs) := Heap.deref_of_cells hq
  simp only [store, hread, bind, Except.bind, if_pos hi]
  rfl

/-- Filling all that follows what is kept. -/
lemma fill_eq (hq : h.cells q = some (xs ++ ys)) (hn : ys.length = n) (x : β) :
    fill (some q) xs.length n x h = .ok (Heap.store h q (xs ++ List.replicate n x)) := by
  have hread : h.deref (some q) = .ok (q, xs ++ ys) := Heap.deref_of_cells hq
  have hle : xs.length + n ≤ (xs ++ ys).length := by simp [hn]
  have hdrop : (xs ++ ys).drop (xs.length + n) = [] := List.drop_eq_nil_of_le (by simp [hn])
  simp only [fill, hread, bind, Except.bind, if_pos hle, hdrop, List.take_left, List.append_nil]
  rfl

/-- **`memcpy`** of a block to a new one of its size. -/
lemma At.copy (hp : At h p xs) (hq : h.cells q = some ys) (hn : ys.length = xs.length) :
    ∃ h', copy (some q) p xs.length h = .ok h' ∧ h'.cells q = some xs ∧ h.Writes [q] [q] h' := by
  unfold Blocks.copy
  split_ifs with hzero
  · refine ⟨h, rfl, ?_, Heap.Writes.refl ..⟩
    rw [hq, List.length_eq_zero_iff.mp hzero, List.length_eq_zero_iff.mp (hn.trans hzero)]
  · cases p with
    | none => exact absurd (by rw [show xs = [] from hp]; rfl) hzero
    | some p =>
        have hread : h.deref (some p) = .ok (p, xs) := Heap.deref_of_cells hp
        have hread' : h.deref (some q) = .ok (q, ys) := Heap.deref_of_cells hq
        have hcopied : xs.take xs.length ++ ys.drop xs.length = xs := by
          rw [List.take_length, List.drop_eq_nil_of_le hn.le, List.append_nil]
        refine ⟨Heap.store h q xs, ?_, Heap.cells_store_self hq xs, Heap.writes_store (by simp) h _⟩
        simp only [hread, hread', bind, Except.bind, hn, le_refl, and_self, if_true, hcopied]
        rfl

end Blocks

end Framework
