import TsEngine.Store.BucketSpecs

/-!
# Containers that are appended to

What the operations on a container in memory do to the sequence it holds.  `RawContainer.Lists` says
that a container goes through a sequence, in whatever buckets; `RawContainer.Built` that it also has
the layout that `ts_docid_container_init` and `ts_docid_container_append` give it, so that it can be
appended to.  Both name the addresses of the buckets, and hold as long as nobody writes there.

`docid_container` says that the layout is kept and that both ways to go through a container yield
what was appended.
-/

namespace TsEngine

open Framework

variable {α : Type} {m m' : BucketMemory α} {c : RawContainer} {ps qs qs' : List BucketPtr}
  {xs ys : List α}

namespace RawContainer

/-- The container has its buckets at `ps`, and they hold `xs`. -/
def Lists (m : BucketMemory α) (c : RawContainer) (ps : List BucketPtr) (xs : List α) : Prop :=
  ∃ cs d, c.Represents m cs d ∧ cs.map Prod.fst = ps ∧ d.toList = xs

/-- The container has its buckets at `ps`, they hold `xs`, and their sizes are as appending makes
them. -/
def Built (m : BucketMemory α) (c : RawContainer) (ps : List BucketPtr) (xs : List α) : Prop :=
  ∃ cs d, c.Represents m cs d ∧ d.raw.Grown ∧ cs.map Prod.fst = ps ∧ d.toList = xs

lemma Built.lists (h : c.Built m ps xs) : c.Lists m ps xs := by
  obtain ⟨cs, d, hrep, -, hps, hxs⟩ := h
  exact ⟨cs, d, hrep, hps, hxs⟩

lemma Lists.lt_next (h : c.Lists m ps xs) : ∀ p ∈ ps, p < m.next := by
  obtain ⟨cs, d, hrep, rfl, -⟩ := h
  exact hrep.lt_next

lemma Lists.total (h : c.Lists m ps xs) : c.total = xs.length % 2 ^ 32 := by
  obtain ⟨cs, d, hrep, -, rfl⟩ := h
  exact hrep.total.trans d.total_eq

/-- Writing another structure does not change a container. -/
lemma Lists.frame (h : c.Lists m ps xs) (hw : m.Writes qs qs' m') (hdisj : ps.Disjoint qs) :
    c.Lists m' ps xs := by
  obtain ⟨cs, d, hrep, rfl, hxs⟩ := h
  exact ⟨cs, d, hrep.frame hw hdisj, rfl, hxs⟩

lemma Built.frame (h : c.Built m ps xs) (hw : m.Writes qs qs' m') (hdisj : ps.Disjoint qs) :
    c.Built m' ps xs := by
  obtain ⟨cs, d, hrep, hgrown, rfl, hxs⟩ := h
  exact ⟨cs, d, hrep.frame hw hdisj, hgrown, rfl, hxs⟩

/-- `ts_docid_container_init`. -/
lemma built_init (m : BucketMemory α) :
    ∃ c m', init m = .ok (c, m') ∧ c.Built m' [m.next] [] ∧ m.Writes [] [m.next] m' := by
  obtain ⟨c, m', hok, hrep, hw⟩ := represents_init m
  exact ⟨c, m', hok, ⟨_, _, hrep, DocidBuckets.init_grown, rfl, rfl⟩, hw⟩

/-- `ts_docid_container_append`. -/
lemma Built.append (h : c.Built m ps xs) (hroom : xs.length < containerCapacity) (x : α) :
    ∃ c' m' ps', c.append x m = .ok (c', m') ∧ c'.Built m' ps' (xs ++ [x]) ∧
      m.Writes ps ps' m' := by
  obtain ⟨cs, d, hrep, hgrown, rfl, rfl⟩ := h
  obtain ⟨c', m', cs', hok, hrep', hw⟩ := hrep.append hgrown hroom x
  exact ⟨c', m', _, hok, ⟨cs', _, hrep', hgrown.append d.wf hroom x, rfl, d.toList_append x⟩, hw⟩

/-- `ts_docid_container_destroy`. -/
lemma Lists.destroy (h : c.Lists m ps xs) :
    ∃ m', c.destroy m = .ok m' ∧ m.Writes ps [] m' ∧ ∀ p ∈ ps, m'.cells p = none := by
  obtain ⟨cs, d, hrep, rfl, -⟩ := h
  exact hrep.destroy

/-- `ts_docid_container_reset`. -/
lemma Lists.reset (h : c.Lists m ps xs) :
    ∃ c' m' ps', c.reset m = .ok (c', m') ∧ c'.Built m' ps' [] ∧ m.Writes ps ps' m' := by
  obtain ⟨m₁, hdestroy, hw₁, -⟩ := h.destroy
  obtain ⟨c', m', hinit, hbuilt, hw₂⟩ := built_init m₁
  refine ⟨c', m', _, ?_, hbuilt, hw₁.trans hw₂⟩
  simp only [RawContainer.reset, hdestroy, bind, Except.bind, hinit]

/-- **`ts_docid_foreach`** over a container that its body leaves alone: the property `P` of what has
been gone through is kept, unless the body leaves the loops with `Q`. -/
lemma Lists.foreach {σ : Type}
    (body : Option α → σ → BucketMemory α → Except HeapError (σ × BucketMemory α × Bool))
    (P : List α → σ → BucketMemory α → Prop) (Q : σ → BucketMemory α → Prop) {s : σ}
    (h : c.Lists m ps xs)
    (hframe : ∀ {ids s m'}, P ids s m' → ∃ qs qs', ps.Disjoint qs ∧ m.Writes qs qs' m')
    (hbody : ∀ {ids x rest s m}, xs = ids ++ x :: rest → P ids s m →
      ∃ s' m' left, body (some x) s m = .ok (s', m', left) ∧
        if left then Q s' m' else P (ids ++ [x]) s' m')
    (hinit : P [] s m) :
    ∃ s' m', c.foreach body s m = .ok (s', m') ∧ (Q s' m' ∨ P xs s' m') := by
  obtain ⟨cs, d, hrep, rfl, rfl⟩ := h
  refine hrep.foreach body P Q (fun {ids s m'} hP => ?_) hbody hinit
  obtain ⟨qs, qs', hdisj, hw⟩ := hframe hP
  exact (hrep.frame hw hdisj).linked

/-- What `ts_docid_foreach` goes through. -/
lemma Lists.visited (h : c.Lists m ps xs) : c.visited m = .ok (xs.map some) := by
  obtain ⟨ids, m', hok, hres⟩ := h.foreach
    (fun id ids m => .ok (ids ++ [id], m, false))
    (fun pre ids m' => ids = pre.map some ∧ m' = m) (fun _ _ => False) (s := [])
    (fun {_ _ m'} hP => ⟨[], [], by simp, hP.2 ▸ Heap.Writes.refl [] m⟩)
    (fun {ids x rest s m'} _ hP => ⟨_, _, false, rfl, by simp [hP.1], hP.2⟩) ⟨rfl, rfl⟩
  obtain ⟨rfl, -⟩ := hres.resolve_left id
  exact bind_eq_ok.mpr ⟨_, hok, rfl⟩

/-- `ts_docid_container_append` of several ids, one after the other. -/
def appendAll (c : RawContainer) (docids : List α) (m : BucketMemory α) :
    Except HeapError (RawContainer × BucketMemory α) :=
  docids.foldlM (fun s docid => s.1.append docid s.2) (c, m)

lemma Built.appendAll (h : c.Built m ps xs) (ys : List α)
    (hroom : xs.length + ys.length ≤ containerCapacity) :
    ∃ c' m' ps', c.appendAll ys m = .ok (c', m') ∧ c'.Built m' ps' (xs ++ ys) ∧
      m.Writes ps ps' m' := by
  obtain ⟨⟨c', m'⟩, hok, ps', hbuilt, hw⟩ := foldlM_eq_ok
    (f := fun s docid => RawContainer.append s.1 docid s.2) (b := (c, m))
    (fun pre s => ∃ ps', s.1.Built s.2 ps' (xs ++ pre) ∧ m.Writes ps ps' s.2)
    (l := ys) (by
      rintro pre y post ⟨c', m'⟩ rfl ⟨ps', hbuilt, hw⟩
      rw [List.length_append, List.length_cons] at hroom
      obtain ⟨c'', m'', ps'', hok, hbuilt', hw'⟩ := hbuilt.append (x := y)
        (by rw [List.length_append]; omega)
      exact ⟨(c'', m''), hok, ps'', by simpa using hbuilt', hw.trans hw'⟩)
    ⟨ps, by simpa using h, Heap.Writes.refl ps m⟩
  exact ⟨c', m', ps', hok, hbuilt, hw⟩

/-- A container that is initialised and appended to lies apart from all that was allocated. -/
lemma built_appendAll (m : BucketMemory α) {xs : List α} (hroom : xs.length ≤ containerCapacity) :
    ∃ c m₁ c' m' ps, init m = .ok (c, m₁) ∧ c.appendAll xs m₁ = .ok (c', m') ∧ c'.Built m' ps xs ∧
      m.Writes [] ps m' := by
  obtain ⟨c, m₁, hinit, hbuilt, hw⟩ := built_init m
  obtain ⟨c', m', ps, hall, hbuilt', hw'⟩ := hbuilt.appendAll xs (by simpa using hroom)
  exact ⟨c, m₁, c', m', ps, hinit, hall, by simpa using hbuilt', hw.trans hw'⟩

/-- **Copying** appends what the source holds. -/
lemma Lists.copy {s : RawContainer} (hs : s.Lists m qs ys) (h : c.Built m ps xs)
    (hdisj : qs.Disjoint ps) (hroom : xs.length + ys.length ≤ containerCapacity) :
    ∃ c' m' ps', c.copy s m = .ok (c', m') ∧ c'.Built m' ps' (xs ++ ys) ∧ m.Writes ps ps' m' := by
  obtain ⟨c', m', hok, hres⟩ := hs.foreach copySlot
    (fun pre c' m' => ∃ ps', c'.Built m' ps' (xs ++ pre) ∧ m.Writes ps ps' m') (fun _ _ => False)
    (s := c)
    (fun {_ _ _} hP => by
      obtain ⟨ps', -, hw⟩ := hP
      exact ⟨ps, ps', hdisj, hw⟩)
    (by
      rintro pre y rest c' m' rfl ⟨ps', hbuilt, hw⟩
      rw [List.length_append, List.length_cons] at hroom
      obtain ⟨c'', m'', ps'', hok, hbuilt', hw'⟩ := hbuilt.append (x := y)
        (by rw [List.length_append]; omega)
      refine ⟨c'', m'', false, ?_, ps'', by simpa using hbuilt', hw.trans hw'⟩
      simp only [copySlot, hok, bind, Except.bind]
      rfl)
    ⟨ps, by simpa using h, Heap.Writes.refl ps m⟩
  obtain ⟨ps', hbuilt, hw⟩ := hres.resolve_left id
  exact ⟨c', m', ps', hok, hbuilt, hw⟩

end RawContainer

/-! ## The iterator -/

/-- The iterator is on buckets at `ps`, and has `xs` still to visit. -/
def RawIterator.Reads (m : BucketMemory α) (it : RawIterator) (ps : List BucketPtr)
    (xs : List α) : Prop :=
  ∃ cs it', it.At m cs it' ∧ it'.Wf ∧ it'.rest = xs ∧ cs.map Prod.fst ⊆ ps

namespace RawIterator

variable {it : RawIterator}

lemma reads_init (h : c.Lists m ps xs) : (init c).Reads m ps xs := by
  obtain ⟨cs, d, hrep, rfl, rfl⟩ := h
  exact ⟨cs, .init d, ⟨hrep.linked, hrep.buckets, rfl, hrep.fits⟩, DocidIterator.wf_init d,
    DocidIterator.rest_init d, fun _ hp => hp⟩

/-- `ts_docid_container_next`. -/
lemma Reads.next (h : it.Reads m ps xs) :
    ∃ it', it.next m = .ok (xs.head?, it') ∧ it'.Reads m ps xs.tail := by
  obtain ⟨cs, it', hat, hwf, rfl, hps⟩ := h
  obtain ⟨it₁, cs₁, hok, hat₁, hsuffix⟩ := hat.next hwf
  refine ⟨it₁, DocidIterator.next_fst hwf ▸ hok, cs₁, _, hat₁, DocidIterator.wf_next hwf,
    DocidIterator.rest_next hwf, fun p hp => hps ?_⟩
  exact (hsuffix.map Prod.fst).subset hp

lemma Reads.frame (h : it.Reads m ps xs) (hlt : ∀ p ∈ ps, p < m.next) (hw : m.Writes qs qs' m')
    (hdisj : ps.Disjoint qs) : it.Reads m' ps xs := by
  obtain ⟨cs, it', hat, hwf, rfl, hps⟩ := h
  refine ⟨cs, it', { hat with linked := (linked_congr fun p hp => ?_).mpr hat.linked }, hwf, rfl,
    hps⟩
  have hp := hps (by simpa using hp)
  exact hw.1.2 p (hlt p hp) fun hm => hdisj hp hm

/-- What the iterator yields until it yields null. -/
lemma Reads.drain (h : it.Reads m ps xs) {fuel : ℕ} (hfuel : xs.length < fuel) :
    drain fuel it m = .ok xs := by
  induction xs generalizing it fuel with
  | nil =>
      obtain ⟨it', hok, -⟩ := h.next
      obtain ⟨fuel, rfl⟩ : ∃ n, fuel = n + 1 := ⟨fuel - 1, by omega⟩
      simp only [RawIterator.drain, hok, bind, Except.bind, List.head?_nil]
      rfl
  | cons x xs ih =>
      obtain ⟨it', hok, hreads⟩ := h.next
      obtain ⟨fuel, rfl⟩ : ∃ n, fuel = n + 1 := ⟨fuel - 1, by simp at hfuel; omega⟩
      have hfuel : xs.length < fuel := by simpa using hfuel
      have hrest := ih hreads hfuel
      simp only [RawIterator.drain, hok, bind, Except.bind, List.head?_cons, hrest]
      rfl

end RawIterator

/-! ## The container -/

/-- The container with the buckets `bs`, from `head` over `next`, after the appends of `xs`. -/
structure RawContainer.Invariant (m : BucketMemory α) (c : RawContainer)
    (bs : List (BucketPtr × BucketData α)) (xs : List α) : Prop where
  linked : Linked m.cells none c.head bs
  total : c.total = xs.length
  len : c.len = bs.length
  size : ∀ i b, bs[i]? = some b → b.2.size = bucketSize * 2 ^ i ∧ b.2.ids.length = b.2.size
  full : ∀ b ∈ bs.dropLast, b.2.offset = b.2.size
  last : ∀ b ∈ bs.getLast?, b.2.offset ≤ b.2.size ∧ (c.total ≠ 0 → 1 ≤ b.2.offset)
  tail : c.tail = bs.getLast?.map Prod.fst

lemma RawContainer.Built.invariant (h : c.Built m ps xs) (hroom : xs.length ≤ containerCapacity) :
    ∃ bs, c.Invariant m bs xs := by
  obtain ⟨cs, d, hrep, hgrown, rfl, rfl⟩ := h
  have htotal : c.total = d.toList.length := by
    rw [hrep.total]
    exact d.total_eq.trans (Nat.mod_eq_of_lt (by rw [containerCapacity] at hroom; omega))
  have hbuckets := hrep.buckets
  refine ⟨chainCells cs, hrep.linked, htotal, ?_, fun i b hb => ?_, fun b hb => ?_,
    fun b hb => ?_, ?_⟩
  · rw [hrep.len, d.wf.len_eq, ← hbuckets]
    simp [chainCells]
  · obtain ⟨b', hb', rfl⟩ : ∃ b', cs[i]? = some b' ∧ (b'.1, b'.2.data []) = b := by
      simpa [chainCells] using hb
    have hget : d.raw.buckets[i]? = some b'.2 := by simp [← hbuckets, hb']
    have hmem : b'.2 ∈ d.raw.buckets := List.mem_of_getElem? hget
    exact ⟨hgrown.size i b'.2 hget, length_ids_data (by simpa using (hrep.fits b'.2 hmem).1)⟩
  · rw [chainCells, ← List.map_dropLast] at hb
    obtain ⟨b', hb', rfl⟩ := List.mem_map.mp hb
    refine hgrown.full b'.2 ?_
    rw [← hbuckets, ← List.map_dropLast]
    exact List.mem_map_of_mem hb'
  · obtain ⟨b', hb', rfl⟩ : ∃ b', cs.getLast? = some b' ∧ (b'.1, b'.2.data []) = b := by
      simpa [chainCells] using hb
    obtain ⟨hle, hnil⟩ := hgrown.last b'.2 (by simp [← hbuckets, hb'])
    refine ⟨hle, fun hne => ?_⟩
    by_contra hzero
    have hoff : ¬1 ≤ b'.2.ids.length := hzero
    have hids : b'.2.ids = [] := List.length_eq_zero_iff.mp (by omega)
    refine hne ?_
    rw [htotal, DocidContainer.toList, DocidBuckets.toList, hnil hids]
    simp [hids]
  · rw [hrep.tail]
    simp [chainCells, List.getLast?_map, Function.comp_def]

/-- **A doc-id container.**  Fewer than `2 ^ 32 - 8` appends to an initialised container make no
access outside a bucket and leave buckets of doubling sizes, all full but the last; both
`ts_docid_foreach` and `ts_docid_container_next` go through what was appended, in order; and
`ts_docid_container_copy` appends what one such container holds to another. -/
theorem docid_container (m : BucketMemory α) (xs : List α) (h : xs.length < containerCapacity) :
    ∃ c m₁ c' m' bs, RawContainer.init m = .ok (c, m₁) ∧ c.appendAll xs m₁ = .ok (c', m') ∧
      c'.Invariant m' bs xs ∧ c'.visited m' = .ok (xs.map some) ∧
      (∀ fuel, xs.length < fuel → (RawIterator.init c').drain fuel m' = .ok xs) ∧
      ∀ ys, xs.length + ys.length < containerCapacity →
        ∃ s m₂ s' m₃ c'' m'', RawContainer.init m' = .ok (s, m₂) ∧
          s.appendAll ys m₂ = .ok (s', m₃) ∧ c'.copy s' m₃ = .ok (c'', m'') ∧
          c''.visited m'' = .ok ((xs ++ ys).map some) ∧ s'.visited m'' = .ok (ys.map some) := by
  obtain ⟨c, m₁, c', m', ps, hinit, hall, hbuilt, -⟩ := RawContainer.built_appendAll m h.le
  obtain ⟨bs, hinv⟩ := hbuilt.invariant h.le
  refine ⟨c, m₁, c', m', bs, hinit, hall, hinv, hbuilt.lists.visited,
    fun fuel hfuel => (RawIterator.reads_init hbuilt.lists).drain hfuel, fun ys hys => ?_⟩
  obtain ⟨s, m₂, s', m₃, qs, hinit₂, hall₃, hs', hw⟩ :=
    RawContainer.built_appendAll m' (show ys.length ≤ containerCapacity by omega)
  have hdisj : ps.Disjoint qs := hw.disjoint hbuilt.lists.lt_next (by simp)
  obtain ⟨c'', m'', ps', hcopy, hbuilt'', hw'⟩ :=
    hs'.lists.copy (hbuilt.frame hw (by simp)) hdisj.symm hys.le
  exact ⟨s, m₂, s', m₃, c'', m'', hinit₂, hall₃, hcopy, hbuilt''.lists.visited,
    (hs'.lists.frame hw' hdisj.symm).visited⟩

/-- `docid_container` for nine ids, which take a second bucket. -/
theorem docid_container_sample : ∃ c m₁ c' m' bs,
    RawContainer.init (Heap.empty : BucketMemory ℕ) = .ok (c, m₁) ∧
    c.appendAll [1, 2, 3, 4, 5, 6, 7, 8, 9] m₁ = .ok (c', m') ∧
    c'.Invariant m' bs [1, 2, 3, 4, 5, 6, 7, 8, 9] := by
  obtain ⟨c, m₁, c', m', bs, hinit, hall, hinv, -⟩ :=
    docid_container (Heap.empty : BucketMemory ℕ) [1, 2, 3, 4, 5, 6, 7, 8, 9] (by decide)
  exact ⟨c, m₁, c', m', bs, hinit, hall, hinv⟩

end TsEngine
