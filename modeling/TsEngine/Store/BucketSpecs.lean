import TsEngine.Framework.Runs
import TsEngine.Store.Buckets

/-!
# What the operations on containers do to memory

`RawContainer.Represents` relates a container in memory to a container as a list of buckets
(`Store/Docid`), and names the buckets' addresses.  Under it each operation of `Store/Buckets` does
what its namesake does there, without an error, and writes no bucket of another container: appending
(`Represents.append`), as long as there is room, destroying (`Represents.destroy`), the walk
(`Represents.foreach`) and the explicit iterator (`RawIterator.At.next`).
-/

namespace TsEngine

open Framework

variable {α : Type}

/-! ## One bucket -/

/-- A bucket as it lies in memory; `pending` has been stored beyond `offset`. -/
def DocidBucket.data (b : DocidBucket α) (pending : List α) : BucketData α where
  size := b.size
  offset := b.ids.length
  ids := (b.ids ++ pending).map some ++ List.replicate (b.size - (b.ids ++ pending).length) none

section

variable {m : BucketMemory α} {p q : BucketPtr} {b : DocidBucket α} {pending : List α}
  {next : Option BucketPtr} {x : α}

lemma length_ids_data (hfit : (b.ids ++ pending).length ≤ b.size) :
    (b.data pending).ids.length = b.size := by
  rw [DocidBucket.data, List.length_append, List.length_map, List.length_replicate]
  omega

lemma getElem?_ids_data (hfit : (b.ids ++ pending).length ≤ b.size) {o : ℕ} (ho : o < b.size) :
    (b.data pending).ids[o]? = some (b.ids ++ pending)[o]? := by
  simp only [DocidBucket.data]
  by_cases hlt : o < (b.ids ++ pending).length
  · rw [List.getElem?_append_left (by simpa using hlt), List.getElem?_map]
    simp [List.getElem?_eq_getElem hlt]
  · rw [List.getElem?_append_right (by simpa using hlt), List.length_map,
      List.getElem?_replicate, if_pos (by omega),
      List.getElem?_eq_none (Nat.le_of_not_lt hlt)]

lemma loadId_eq (hp : m.cells p = some ⟨b.data pending, next⟩)
    (hfit : (b.ids ++ pending).length ≤ b.size) {o : ℕ} (ho : o < b.size) :
    m.loadId (some p) o = .ok (b.ids ++ pending)[o]? := by
  simp only [BucketMemory.loadId, Heap.deref_of_cells hp, bind, Except.bind,
    getElem?_ids_data hfit ho]
  rfl

lemma data_set (hlt : b.ids.length < b.size) :
    (b.data []).ids.set b.ids.length (some x) = (b.data [x]).ids := by
  obtain ⟨n, hn⟩ : ∃ n, b.size - b.ids.length = n + 1 := ⟨b.size - b.ids.length - 1, by omega⟩
  have hn' : b.size - (b.ids.length + 1) = n := by omega
  simp [DocidBucket.data, hn, hn', List.replicate_succ]

lemma storeId_eq (hp : m.cells p = some ⟨b.data [], next⟩) (hlt : b.ids.length < b.size) :
    m.storeId (some p) x = .ok (m.store p ⟨b.data [x], next⟩) := by
  have hlen : (b.data []).ids.length = b.size := length_ids_data (by simpa using hlt.le)
  have hoff : (b.data []).offset < (b.data []).ids.length := by rw [hlen]; exact hlt
  simp only [BucketMemory.storeId, Heap.deref_of_cells hp, bind, Except.bind, if_pos hoff]
  have hset : (b.data []).ids.set (b.data []).offset (some x) = (b.data [x]).ids := data_set hlt
  rw [hset]
  rfl

lemma data_push (hlt : b.ids.length < b.size) (hsize : b.size < 2 ^ 32) :
    (b.push x).data [] = { b.data [x] with offset := ((b.data [x]).offset + 1) % 2 ^ 32 } := by
  have hmod : ((b.data [x]).offset + 1) % 2 ^ 32 = b.ids.length + 1 :=
    Nat.mod_eq_of_lt (show b.ids.length + 1 < 2 ^ 32 by omega)
  rw [hmod]
  simp [DocidBucket.data, DocidBucket.push]

lemma incrOffset_eq (hp : m.cells p = some ⟨b.data [x], next⟩) (hlt : b.ids.length < b.size)
    (hsize : b.size < 2 ^ 32) :
    m.incrOffset (some p) = .ok (m.store p ⟨(b.push x).data [], next⟩) := by
  rw [data_push hlt hsize]
  simp only [BucketMemory.incrOffset, Heap.deref_of_cells hp, bind, Except.bind]
  rfl

/-- The two stores that append to a bucket. -/
lemma storeId_incrOffset (hp : m.cells p = some ⟨b.data [], next⟩) (hlt : b.ids.length < b.size)
    (hsize : b.size < 2 ^ 32) (x : α) :
    ∃ m₁ m', m.storeId (some p) x = .ok m₁ ∧ m₁.incrOffset (some p) = .ok m' ∧
      m'.cells p = some ⟨(b.push x).data [], next⟩ ∧ (∀ q ≠ p, m'.cells q = m.cells q) ∧
      m'.next = m.next := by
  have hp₁ := Heap.cells_store_self hp ⟨b.data [x], next⟩
  refine ⟨_, _, storeId_eq hp hlt, incrOffset_eq hp₁ hlt hsize, Heap.cells_store_self hp₁ _,
    fun q hq => ?_, rfl⟩
  rw [Heap.cells_store_of_ne hq, Heap.cells_store_of_ne hq]

lemma linkNext_eq {data : BucketData α} (hp : m.cells p = some ⟨data, next⟩) :
    m.linkNext (some p) q = .ok (m.store p ⟨data, some q⟩) := by
  simp [BucketMemory.linkNext, Heap.deref_of_cells hp, bind, Except.bind, pure, Except.pure]

lemma bucketNew_eq (m : BucketMemory α) (size : ℕ) :
    m.bucketNew size = (m.next, m.alloc ⟨(DocidBucket.new size).data [], none⟩) := rfl

end

/-! ## Containers -/

/-- The cells of a chain of buckets. -/
def chainCells (cs : List (BucketPtr × DocidBucket α)) : List (BucketPtr × BucketData α) :=
  cs.map fun c => (c.1, c.2.data [])

@[simp] lemma map_fst_chainCells (cs : List (BucketPtr × DocidBucket α)) :
    (chainCells cs).map Prod.fst = cs.map Prod.fst := by
  simp [chainCells]

/-- The container `c` in memory is `d`, with its buckets at the addresses in `cs`. -/
structure RawContainer.Represents (m : BucketMemory α) (c : RawContainer)
    (cs : List (BucketPtr × DocidBucket α)) (d : DocidContainer α) : Prop where
  linked : Linked m.cells none c.head (chainCells cs)
  nodup : (cs.map Prod.fst).Nodup
  buckets : cs.map Prod.snd = d.raw.buckets
  tail : c.tail = (cs.map Prod.fst).getLast?
  fits : ∀ b ∈ d.raw.buckets, b.ids.length ≤ b.size ∧ b.size < 2 ^ 32
  allocSize : c.allocSize = d.raw.allocSize
  len : c.len = d.raw.len
  total : c.total = d.raw.total

namespace RawContainer

variable {m m' : BucketMemory α} {c : RawContainer} {cs : List (BucketPtr × DocidBucket α)}
  {d : DocidContainer α}

lemma Represents.lt_next (h : c.Represents m cs d) : ∀ p ∈ cs.map Prod.fst, p < m.next :=
  fun p hp => Heap.lt_next (h.linked.ne_none (by simpa using hp))

/-- A container that nothing is written to. -/
lemma Represents.frame (h : c.Represents m cs d) {ps ps' : List BucketPtr}
    (hw : m.Writes ps ps' m') (hdisj : (cs.map Prod.fst).Disjoint ps) : c.Represents m' cs d :=
  { h with
    linked := (linked_congr fun p hp => by
      rw [map_fst_chainCells] at hp
      exact hw.1.2 p (h.lt_next p hp) fun hm => hdisj hp hm).mpr h.linked }

lemma Represents.length_le (h : c.Represents m cs d) : cs.length ≤ m.next := by
  have hsub : cs.map Prod.fst ⊆ List.range m.next := fun p hp => List.mem_range.mpr (h.lt_next p hp)
  simpa using (List.subperm_of_subset h.nodup hsub).length_le

/-- The container `c` in memory is `d`, and of its buckets `b`, at `p`, is the last. -/
structure EndsWith (m : BucketMemory α) (c : RawContainer)
    (cs₀ : List (BucketPtr × DocidBucket α)) (p : BucketPtr) (b : DocidBucket α)
    (d : DocidContainer α) : Prop where
  linked : Linked m.cells (some p) c.head (chainCells cs₀)
  cell : m.cells p = some ⟨b.data [], none⟩
  nodup : (cs₀.map Prod.fst).Nodup
  notMem : p ∉ cs₀.map Prod.fst
  tail : c.tail = some p
  buckets : d.raw.buckets = cs₀.map Prod.snd ++ [b]
  fitsBefore : ∀ b' ∈ cs₀.map Prod.snd, b'.ids.length ≤ b'.size ∧ b'.size < 2 ^ 32
  fits : b.ids.length ≤ b.size ∧ b.size < 2 ^ 32
  allocSize : c.allocSize = d.raw.allocSize
  len : c.len = d.raw.len
  total : c.total = d.raw.total

section

variable {cs₀ : List (BucketPtr × DocidBucket α)} {p : BucketPtr} {b : DocidBucket α}

lemma Represents.endsWith (h : c.Represents m cs d) :
    ∃ cs₀ p b, cs = cs₀ ++ [(p, b)] ∧ c.EndsWith m cs₀ p b d := by
  have hne : cs ≠ [] := by
    rintro rfl
    exact d.wf.ne_nil h.buckets.symm
  obtain ⟨cs₀, ⟨p, b⟩, rfl⟩ := (List.eq_nil_or_concat' cs).resolve_left hne
  have hlinked := h.linked
  rw [chainCells, List.map_append] at hlinked
  obtain ⟨mid, hcs₀, rfl, next, hp, rfl⟩ := linked_append.mp hlinked
  have hnodup := h.nodup
  rw [List.map_append, List.nodup_append] at hnodup
  have hbuckets : d.raw.buckets = cs₀.map Prod.snd ++ [b] := by simpa using h.buckets.symm
  have hfits := h.fits
  rw [hbuckets, List.forall_mem_append] at hfits
  exact ⟨cs₀, p, b, rfl, hcs₀, hp, hnodup.1, fun hm => hnodup.2.2 p hm p (by simp) rfl,
    by simpa using h.tail, hbuckets, hfits.1, hfits.2 b (by simp), h.allocSize, h.len, h.total⟩

lemma EndsWith.represents (h : c.EndsWith m cs₀ p b d) : c.Represents m (cs₀ ++ [(p, b)]) d where
  linked := by
    rw [chainCells, List.map_append]
    exact linked_append.mpr ⟨some p, h.linked, rfl, none, h.cell, rfl⟩
  nodup := by
    rw [List.map_append]
    refine List.nodup_append.mpr ⟨h.nodup, List.nodup_singleton _, fun a ha q hq he =>
      h.notMem ?_⟩
    obtain rfl : q = p := by simpa using hq
    exact he ▸ ha
  buckets := by simp [h.buckets]
  tail := by simp [h.tail]
  fits := by
    rw [h.buckets, List.forall_mem_append]
    exact ⟨h.fitsBefore, by simpa using h.fits⟩
  allocSize := h.allocSize
  len := h.len
  total := h.total

lemma EndsWith.len_ne_zero (h : c.EndsWith m cs₀ p b d) : c.len ≠ 0 := by
  rw [h.len, d.wf.len_eq, h.buckets]
  simp

end

section

variable {p : BucketPtr} {b : DocidBucket α} (hlen : c.len ≠ 0) (htail : c.tail = some p)
  (hp : m.cells p = some ⟨b.data [], none⟩)

include hlen htail hp

/-- Reserving where the tail has a free slot. -/
lemma reserve_of_lt (hlt : b.size < 2 ^ 32) (hfree : b.ids.length < b.size) :
    c.reserve m = .ok (c, m) := by
  have hsub : 0 < subU32 (b.data []).size (b.data []).offset := by
    rw [show subU32 (b.data []).size (b.data []).offset = b.size - b.ids.length from
      subU32_eq hlt hfree.le]
    omega
  simp only [RawContainer.reserve, if_neg hlen, htail, Heap.deref_of_cells hp, bind, Except.bind,
    if_pos hsub]
  rfl

/-- Reserving where the tail is full. -/
lemma reserve_of_full (hlt : b.size < 2 ^ 32) (hfull : b.size = b.ids.length) :
    c.reserve m = .ok ({ c with
        allocSize := (c.allocSize * 2) % 2 ^ 32, tail := some m.next, len := (c.len + 1) % 2 ^ 32 },
      (m.alloc ⟨(DocidBucket.new ((c.allocSize * 2) % 2 ^ 32)).data [], none⟩).store p
        ⟨b.data [], some m.next⟩) := by
  have hsub : ¬0 < subU32 (b.data []).size (b.data []).offset := by
    rw [show subU32 (b.data []).size (b.data []).offset = b.size - b.ids.length from
      subU32_eq hlt hfull.ge]
    omega
  have hne : p ≠ m.next := (Heap.lt_next (by simp [hp])).ne
  have hlink := linkNext_eq (q := m.next) ((Heap.cells_alloc_of_ne
    ⟨(DocidBucket.new ((c.allocSize * 2) % 2 ^ 32)).data [], none⟩ hne).trans hp)
  simp only [RawContainer.reserve, if_neg hlen, htail, Heap.deref_of_cells hp, bind, Except.bind,
    if_neg hsub, bucketNew_eq, hlink]
  rfl

end

section

variable {cs₀ : List (BucketPtr × DocidBucket α)} {p : BucketPtr} {b : DocidBucket α}

/-- Appending where the tail has a free slot. -/
lemma EndsWith.append_of_free (h : c.EndsWith m cs₀ p b d) (hres : d.raw.reserve = d.raw)
    (hfree : b.ids.length < b.size) (x : α) :
    ∃ c' m', c.append x m = .ok (c', m') ∧ c'.EndsWith m' cs₀ p (b.push x) (d.append x) ∧
      (∀ q ≠ p, m'.cells q = m.cells q) ∧ m'.next = m.next := by
  obtain ⟨m₁, m', hstore, hincr, hp', hcells, hnext⟩ :=
    storeId_incrOffset h.cell hfree h.fits.2 x
  have hreserve := reserve_of_lt h.len_ne_zero h.tail h.cell h.fits.2 hfree
  refine ⟨{ c with total := (c.total + 1) % 2 ^ 32 }, m', ?_, ⟨?linked, hp', h.nodup, h.notMem,
    h.tail, ?buckets, h.fitsBefore, ⟨?fits, h.fits.2⟩, ?allocSize, ?len, ?total⟩, hcells, hnext⟩
  · simp only [RawContainer.append, hreserve, h.tail, hstore, hincr, bind, Except.bind]
    rfl
  case linked =>
    refine (linked_congr fun q hq => hcells q ?_).mpr h.linked
    rintro rfl
    exact h.notMem (map_fst_chainCells cs₀ ▸ hq)
  case buckets =>
    simp [DocidContainer.append, DocidBuckets.append, hres, h.buckets,
      DocidBuckets.pushTail_append_singleton]
  case fits => simpa [DocidBucket.push] using hfree
  case allocSize => simpa [DocidContainer.append, DocidBuckets.append, hres] using h.allocSize
  case len => simpa [DocidContainer.append, DocidBuckets.append, hres] using h.len
  case total => simp [DocidContainer.append, DocidBuckets.append, hres, h.total]

/-- Appending where the tail is full: a bucket of twice its size is put behind it. -/
lemma EndsWith.append_of_full (h : c.EndsWith m cs₀ p b d) (hgrown : d.raw.Grown)
    (hroom : d.toList.length < containerCapacity) (hfull : b.size = b.ids.length)
    (hres : d.raw.reserve = { d.raw with
      buckets := cs₀.map Prod.snd ++ [b] ++ [.new ((d.raw.allocSize * 2) % 2 ^ 32)]
      allocSize := (d.raw.allocSize * 2) % 2 ^ 32
      len := d.raw.len + 1 }) (x : α) :
    ∃ c' m' b', c.append x m = .ok (c', m') ∧
      c'.EndsWith m' (cs₀ ++ [(p, b)]) m.next b' (d.append x) ∧
      (∀ q, q ≠ p → q ≠ m.next → m'.cells q = m.cells q) ∧ m'.next = m.next + 1 := by
  have hlts := h.represents.lt_next
  rw [List.map_append, List.forall_mem_append] at hlts
  have hnext := hgrown.next_size h.buckets hfull hroom
  have hcount := hgrown.length_le h.buckets hroom.le
  rw [← h.allocSize] at hnext hres
  have hreserve := reserve_of_full h.len_ne_zero h.tail h.cell h.fits.2 hfull
  generalize hsize : (c.allocSize * 2) % 2 ^ 32 = size at hnext hres hreserve
  have hsize : size < 2 ^ 32 := hsize ▸ Nat.mod_lt _ (by norm_num)
  have hpos : 0 < size := by
    rw [hnext, bucketSize]
    positivity
  have hpq : p ≠ m.next := (hlts.2 p (by simp)).ne
  generalize hm₂ : (m.alloc ⟨(DocidBucket.new size).data [], none⟩).store p
    ⟨b.data [], some m.next⟩ = m₂ at hreserve
  have hq : m₂.cells m.next = some ⟨(DocidBucket.new size).data [], none⟩ := by
    rw [← hm₂, Heap.cells_store_of_ne hpq.symm, Heap.cells_alloc_self]
  obtain ⟨m₃, m', hstore, hincr, hq', hcells, hnext'⟩ := storeId_incrOffset hq hpos hsize x
  have hp' : m'.cells p = some ⟨b.data [], some m.next⟩ := by
    rw [hcells p hpq, ← hm₂]
    exact Heap.cells_store_self ((Heap.cells_alloc_of_ne _ hpq).trans h.cell) _
  have hframe : ∀ q, q ≠ p → q ≠ m.next → m'.cells q = m.cells q := by
    intro q hqp hqn
    rw [hcells q hqn, ← hm₂, Heap.cells_store_of_ne hqp, Heap.cells_alloc_of_ne _ hqn]
  refine ⟨{ c with
      allocSize := size, tail := some m.next, len := (c.len + 1) % 2 ^ 32
      total := (c.total + 1) % 2 ^ 32 }, m', (DocidBucket.new size).push x, ?_,
    ⟨?linked, hq', ?nodup, ?notMem, rfl, ?buckets, ?fitsBefore, ⟨?fits, hsize⟩, ?allocSize, ?len,
      ?total⟩, hframe, ?_⟩
  · simp only [RawContainer.append, hreserve, hstore, hincr, bind, Except.bind]
    rfl
  case linked =>
    rw [chainCells, List.map_append]
    refine linked_append.mpr ⟨some p, (linked_congr fun q hq => ?_).mpr h.linked, rfl,
      some m.next, hp', rfl⟩
    rw [show List.map _ cs₀ = chainCells cs₀ from rfl, map_fst_chainCells] at hq
    exact hframe q (fun he => h.notMem (he ▸ hq)) (hlts.1 q hq).ne
  case nodup => exact h.represents.nodup
  case notMem => exact fun hm => absurd (h.represents.lt_next _ hm) (lt_irrefl _)
  case buckets =>
    simp only [DocidContainer.append, DocidBuckets.append, hres,
      DocidBuckets.pushTail_append_singleton]
    simp
  case fitsBefore =>
    rw [List.map_append]
    exact List.forall_mem_append.mpr ⟨h.fitsBefore, by simpa using h.fits⟩
  case fits => simpa [DocidBucket.push, DocidBucket.new, Nat.one_le_iff_ne_zero] using hpos.ne'
  case allocSize => simp [DocidContainer.append, DocidBuckets.append, hres]
  case len =>
    have hbuckets : d.raw.buckets.length = cs₀.length + 1 := by simp [h.buckets]
    have hcount : cs₀.length ≤ 28 := by simpa using hcount
    have hlen : (c.len + 1) % 2 ^ 32 = d.raw.len + 1 := by
      rw [h.len, d.wf.len_eq, hbuckets]
      omega
    rw [hlen]
    simp [DocidContainer.append, DocidBuckets.append, hres]
  case total => simp [DocidContainer.append, DocidBuckets.append, hres, h.total]
  · rw [hnext', ← hm₂]
    simp

end

/-- **Appending in memory** appends, and writes no bucket of another container. -/
lemma Represents.append (h : c.Represents m cs d) (hgrown : d.raw.Grown)
    (hroom : d.toList.length < containerCapacity) (x : α) :
    ∃ c' m' cs', c.append x m = .ok (c', m') ∧ c'.Represents m' cs' (d.append x) ∧
      m.Writes (cs.map Prod.fst) (cs'.map Prod.fst) m' := by
  obtain ⟨cs₀, p, b, rfl, hends⟩ := h.endsWith
  obtain ⟨bs', b', hbs', hcase⟩ := d.wf.reserve_cases
  obtain ⟨hbs₀, rfl⟩ : cs₀.map Prod.snd = bs' ∧ b = b' := by
    rw [hends.buckets] at hbs'
    simpa using List.append_inj' hbs' rfl
  subst hbs₀
  have hmem : ∀ q, q ∉ (cs₀ ++ [(p, b)]).map Prod.fst → q ≠ p := by
    rintro q hq rfl
    exact hq (by simp)
  rcases hcase with ⟨hres, hfree⟩ | ⟨hfull, hres⟩
  · have hslot : b.ids.length < b.size := lt_of_le_of_ne hends.fits.1 hfree.symm
    obtain ⟨c', m', hok, h', hcells, hnext⟩ := hends.append_of_free hres hslot x
    exact ⟨c', m', _, hok, h'.represents, ⟨hnext.ge, fun q _ hq => hcells q (hmem q hq)⟩,
      fun q hq => .inl (by simpa using hq)⟩
  · obtain ⟨c', m', b', hok, h', hcells, hnext⟩ := hends.append_of_full hgrown hroom hfull hres x
    refine ⟨c', m', _, hok, h'.represents, ⟨by omega, fun q hlt hq => hcells q (hmem q hq) hlt.ne⟩,
      fun q hq => ?_⟩
    rw [List.map_append, List.mem_append] at hq
    exact hq.imp_right fun hq => (List.mem_singleton.mp hq).ge

/-- **Initialising** a container allocates its first bucket. -/
lemma represents_init (m : BucketMemory α) :
    ∃ c m', init m = .ok (c, m') ∧ c.Represents m' [(m.next, .new bucketSize)] .init ∧
      m.Writes [] [m.next] m' := by
  refine ⟨⟨some m.next, some m.next, bucketSize, 1, 0⟩,
    m.alloc ⟨(DocidBucket.new bucketSize).data [], none⟩, rfl, ?_, Heap.writes_alloc [] m _⟩
  have hends : EndsWith _ ⟨some m.next, some m.next, bucketSize, 1, 0⟩ [] m.next
      (.new bucketSize) DocidContainer.init :=
    ⟨rfl, Heap.cells_alloc_self _, List.nodup_nil, by simp, rfl, rfl, by simp,
      ⟨Nat.zero_le _, by simp [DocidBucket.new, bucketSize]⟩, rfl, rfl, rfl⟩
  exact hends.represents

/-! ## Destroying -/

lemma destroyFrom_spec {ds : List (BucketPtr × BucketData α)} {start : Option BucketPtr} {fuel : ℕ}
    (hlinked : Linked m.cells none start ds) (hnodup : (ds.map Prod.fst).Nodup)
    (hfuel : ds.length ≤ fuel) :
    ∃ m', destroyFrom fuel start m = .ok m' ∧ m.Writes (ds.map Prod.fst) [] m' ∧
      ∀ p ∈ ds.map Prod.fst, m'.cells p = none := by
  induction ds generalizing m start fuel with
  | nil =>
      obtain rfl : start = none := hlinked
      exact ⟨m, by cases fuel <;> rfl, Heap.Writes.refl [] m, by simp⟩
  | cons c ds ih =>
      obtain ⟨rfl, next, hcell, hrest⟩ := hlinked
      rw [List.map_cons, List.nodup_cons] at hnodup
      cases fuel with
      | zero => simp at hfuel
      | succ fuel =>
          have hrest' : Linked (m.free c.1).cells none next ds := by
            refine (linked_congr fun p hp => Heap.cells_free_of_ne ?_).mpr hrest
            rintro rfl
            exact hnodup.1 hp
          obtain ⟨m', hok, hw, hfreed⟩ := ih hrest' hnodup.2 (by simpa using hfuel)
          refine ⟨m', ?_, (Heap.writes_free c.1 _ m).trans hw, ?_⟩
          · simp only [destroyFrom, Heap.deref_of_cells hcell, bind, Except.bind]
            exact hok
          · rw [List.map_cons, List.forall_mem_cons]
            refine ⟨?_, hfreed⟩
            have hlt : c.1 < m.next := Heap.lt_next (by simp [hcell])
            rw [hw.1.2 c.1 hlt hnodup.1, Heap.cells_free_self]

/-- **Destroying** a container frees its buckets. -/
lemma Represents.destroy (h : c.Represents m cs d) :
    ∃ m', c.destroy m = .ok m' ∧ m.Writes (cs.map Prod.fst) [] m' ∧
      ∀ p ∈ cs.map Prod.fst, m'.cells p = none := by
  have hfuel : (chainCells cs).length ≤ m.next := by simpa [chainCells] using h.length_le
  have hspec := destroyFrom_spec h.linked (by simpa using h.nodup) hfuel
  rw [map_fst_chainCells] at hspec
  exact hspec

/-! ## The walk -/

section

variable {σ : Type}
  {body : Option α → σ → BucketMemory α → Except HeapError (σ × BucketMemory α × Bool)}
  {P : List α → σ → BucketMemory α → Prop} {Q : σ → BucketMemory α → Prop} {s : σ}
  {pre post : List (BucketPtr × DocidBucket α)} {p : BucketPtr} {b : DocidBucket α}
  {head : Option BucketPtr}

/-- The pointers in a chain of buckets. -/
def idsOf (cs : List (BucketPtr × DocidBucket α)) : List α := cs.flatMap fun c => c.2.ids

variable (hchain : ∀ {ids s m}, P ids s m → Linked m.cells none head (chainCells cs))
  (hfits : ∀ c ∈ cs, c.2.ids.length ≤ c.2.size)
  (hbody : ∀ {ids x rest s m}, idsOf cs = ids ++ x :: rest → P ids s m →
    ∃ s' m' left, body (some x) s m = .ok (s', m', left) ∧
      if left then Q s' m' else P (ids ++ [x]) s' m')

include hchain hfits hbody

lemma foreachSlot_spec {fuel o : ℕ} (hcs : cs = pre ++ (p, b) :: post) (ho : o ≤ b.ids.length)
    (hfuel : b.ids.length < o + fuel) (hP : P (idsOf pre ++ b.ids.take o) s m) :
    ∃ s' m' left, foreachSlot body fuel (some p) o s m = .ok (s', m', left) ∧
      if left then Q s' m' else P (idsOf pre ++ b.ids) s' m' := by
  induction fuel generalizing o s m with
  | zero => omega
  | succ fuel ih =>
      have hlinked := hchain hP
      rw [hcs, chainCells, List.map_append] at hlinked
      obtain ⟨_, -, rfl, next, hcell, -⟩ := linked_append.mp hlinked
      have hcell : m.cells p = some ⟨b.data [], next⟩ := hcell
      have hfit : b.ids.length ≤ b.size := hfits (p, b) (by simp [hcs])
      by_cases hlt : o < b.ids.length
      · have hid : m.loadId (some p) o = .ok (some b.ids[o]) := by
          rw [loadId_eq hcell (by simpa using hfit) (by omega), List.append_nil,
            List.getElem?_eq_getElem hlt]
        have hids : idsOf cs =
            (idsOf pre ++ b.ids.take o) ++ b.ids[o] :: (b.ids.drop (o + 1) ++ idsOf post) := by
          have hsplit : b.ids = b.ids.take o ++ b.ids[o] :: b.ids.drop (o + 1) := by
            rw [← List.drop_eq_getElem_cons hlt, List.take_append_drop]
          calc idsOf cs = idsOf pre ++ (b.ids ++ idsOf post) := by simp [idsOf, hcs]
            _ = idsOf pre ++ (b.ids.take o ++ b.ids[o] :: b.ids.drop (o + 1) ++ idsOf post) := by
                rw [← hsplit]
            _ = _ := by simp only [List.append_assoc, List.cons_append]
        obtain ⟨s', m', left, hok, hres⟩ := hbody hids hP
        have hoff : o < (b.data []).offset := hlt
        simp only [foreachSlot, Heap.deref_of_cells hcell, bind, Except.bind, if_pos hoff, hid, hok]
        cases left with
        | true => exact ⟨s', m', true, rfl, hres⟩
        | false =>
            have htake : b.ids.take (o + 1) = b.ids.take o ++ [b.ids[o]] := by
              rw [List.take_add_one, List.getElem?_eq_getElem hlt]
              rfl
            refine ih hlt (by omega) ?_
            rw [htake, ← List.append_assoc]
            exact hres
      · have hoff : ¬o < (b.data []).offset := hlt
        simp only [foreachSlot, Heap.deref_of_cells hcell, bind, Except.bind, if_neg hoff]
        refine ⟨s, m, false, rfl, ?_⟩
        rwa [List.take_of_length_le (Nat.le_of_not_lt hlt)] at hP

lemma foreachBucket_spec {fuel : ℕ} (hcs : cs = pre ++ post) (hfuel : post.length ≤ fuel)
    (hP : P (idsOf pre) s m) :
    ∃ s' m' left, foreachBucket body fuel (post.head?.map Prod.fst) s m = .ok (s', m', left) ∧
      if left then Q s' m' else P (idsOf cs) s' m' := by
  induction post generalizing pre fuel s m with
  | nil =>
      refine ⟨s, m, false, by cases fuel <;> rfl, ?_⟩
      rw [hcs, List.append_nil]
      exact hP
  | cons c post ih =>
      obtain ⟨p, b⟩ := c
      cases fuel with
      | zero => simp at hfuel
      | succ fuel =>
          have hlinked := hchain hP
          rw [hcs, chainCells, List.map_append] at hlinked
          obtain ⟨_, -, rfl, next, hcell, hrest⟩ := linked_append.mp hlinked
          have hnext : next = post.head?.map Prod.fst := by
            rw [hrest.start_eq]
            cases post <;> rfl
          have hfit : b.ids.length ≤ b.size := hfits (p, b) (by simp [hcs])
          have hP : P (idsOf pre ++ b.ids.take 0) s m := by simpa using hP
          have hsize : (b.data []).size + 1 = b.size + 1 := rfl
          have hslots : b.ids.length < 0 + (b.size + 1) := by omega
          obtain ⟨s', m', left, hok, hres⟩ :=
            foreachSlot_spec hchain hfits hbody hcs (Nat.zero_le _) hslots hP
          simp only [List.head?_cons, Option.map_some, foreachBucket, Heap.deref_of_cells hcell,
            bind, Except.bind, hsize, hok]
          cases left with
          | true => exact ⟨s', m', true, rfl, hres⟩
          | false =>
              rw [hnext]
              have hcs : cs = (pre ++ [(p, b)]) ++ post := by simp [hcs]
              refine ih hcs (by simpa using hfuel) ?_
              simpa [idsOf] using hres

end

/-- **`ts_docid_foreach`**, by a property `P` of the pointers gone through, that the body keeps; if
the body leaves the loops it establishes `Q`. -/
lemma Represents.foreach {σ : Type}
    (body : Option α → σ → BucketMemory α → Except HeapError (σ × BucketMemory α × Bool))
    (P : List α → σ → BucketMemory α → Prop) (Q : σ → BucketMemory α → Prop) {s : σ}
    (h : c.Represents m cs d)
    (hchain : ∀ {ids s m}, P ids s m → Linked m.cells none c.head (chainCells cs))
    (hbody : ∀ {ids x rest s m}, d.toList = ids ++ x :: rest → P ids s m →
      ∃ s' m' left, body (some x) s m = .ok (s', m', left) ∧
        if left then Q s' m' else P (ids ++ [x]) s' m')
    (hinit : P [] s m) :
    ∃ s' m', c.foreach body s m = .ok (s', m') ∧ (Q s' m' ∨ P d.toList s' m') := by
  have hids : idsOf cs = d.toList := by
    have hsnd : cs.flatMap (fun c => c.2.ids) = (cs.map Prod.snd).flatMap DocidBucket.ids := by
      rw [List.flatMap_map]
    rw [idsOf, hsnd, h.buckets]
    rfl
  have hfits : ∀ c ∈ cs, c.2.ids.length ≤ c.2.size := fun c hc =>
    (h.fits c.2 (h.buckets ▸ List.mem_map_of_mem hc)).1
  have hhead : c.head = cs.head?.map Prod.fst := by
    rw [h.linked.start_eq]
    cases cs <;> rfl
  rw [← hids] at hbody ⊢
  obtain ⟨s', m', left, hok, hres⟩ := foreachBucket_spec (P := P) (Q := Q) hchain hfits hbody
    (show cs = [] ++ cs from rfl) h.length_le hinit
  rw [← hhead] at hok
  refine ⟨s', m', by simp only [RawContainer.foreach, hok, bind, Except.bind]; rfl, ?_⟩
  cases left with
  | true => exact .inl hres
  | false => exact .inr hres

end RawContainer

/-! ## The explicit iterator -/

/-- An iterator in memory, on the buckets at the addresses in `cs`. -/
structure RawIterator.At (m : BucketMemory α) (it : RawIterator)
    (cs : List (BucketPtr × DocidBucket α)) (it' : DocidIterator α) : Prop where
  linked : Linked m.cells none it.bkt (chainCells cs)
  buckets : cs.map Prod.snd = it'.bkt
  offset : it.offset = it'.offset
  fits : ∀ b ∈ it'.bkt, b.ids.length ≤ b.size ∧ b.size < 2 ^ 32

namespace RawIterator

variable {m : BucketMemory α} {it : RawIterator} {cs : List (BucketPtr × DocidBucket α)}
  {it' : DocidIterator α}

lemma At.advance (h : it.At m cs it') :
    ∃ it₁ cs₁, it.advance m = .ok it₁ ∧ it₁.At m cs₁ it'.advance ∧ cs₁ <:+ cs := by
  obtain ⟨bkt, offset⟩ := it
  obtain ⟨bkt', offset'⟩ := it'
  obtain rfl : offset = offset' := h.offset
  obtain rfl : cs.map Prod.snd = bkt' := h.buckets
  cases cs with
  | nil =>
      obtain rfl : bkt = none := h.linked
      exact ⟨_, [], rfl, ⟨rfl, rfl, rfl, by simp [DocidIterator.advance]⟩, List.suffix_rfl⟩
  | cons c cs =>
      obtain ⟨rfl, next, hcell, hrest⟩ : bkt = some c.1 ∧ ∃ next,
        m.cells c.1 = some ⟨c.2.data [], next⟩ ∧ Linked m.cells none next (chainCells cs) :=
          h.linked
      simp only [RawIterator.advance, Heap.deref_of_cells hcell, bind, Except.bind,
        DocidIterator.advance, List.map_cons]
      by_cases hend : c.2.offset ≤ offset
      · rw [if_pos hend, if_pos (show (c.2.data []).offset ≤ offset from hend)]
        exact ⟨_, cs, rfl, ⟨hrest, rfl, rfl, fun b hb => h.fits b (List.mem_cons_of_mem _ hb)⟩,
          List.suffix_cons ..⟩
      · rw [if_neg hend, if_neg (show ¬(c.2.data []).offset ≤ offset from hend)]
        exact ⟨_, c :: cs, rfl, h, List.suffix_rfl⟩

/-- **The iterator in memory** yields what the iterator on the list of buckets yields. -/
lemma At.next (h : it.At m cs it') (hwf : it'.Wf) :
    ∃ it₁ cs₁, it.next m = .ok (it'.next.1, it₁) ∧ it₁.At m cs₁ it'.next.2 ∧ cs₁ <:+ cs := by
  obtain ⟨it₁, cs₁, hadv, hat, hsuffix⟩ := h.advance
  obtain ⟨-, -, hlt⟩ := DocidIterator.advance_spec hwf
  simp only [RawIterator.next, hadv, bind, Except.bind, DocidIterator.next]
  cases cs₁ with
  | nil =>
      have hbkt : it₁.bkt = none := hat.linked
      have hbkt' : it'.advance.bkt = [] := hat.buckets.symm
      rw [hbkt]
      simp only [hbkt']
      exact ⟨it₁, [], rfl, hat, hsuffix⟩
  | cons c cs₁ =>
      obtain ⟨hbkt, next, hcell, -⟩ : it₁.bkt = some c.1 ∧ ∃ next,
        m.cells c.1 = some ⟨c.2.data [], next⟩ ∧ Linked m.cells none next (chainCells cs₁) :=
        hat.linked
      have hbkt' : it'.advance.bkt = c.2 :: cs₁.map Prod.snd := hat.buckets.symm
      have hlt := hlt c.2 _ hbkt'
      obtain ⟨hfit, hsize⟩ := hat.fits c.2 (by simp [hbkt'])
      have hload : m.loadId (some c.1) it₁.offset = .ok c.2.ids[it'.advance.offset]? := by
        rw [hat.offset, loadId_eq hcell (by simpa using hfit) (by omega), List.append_nil]
      have hmod : (it₁.offset + 1) % 2 ^ 32 = it'.advance.offset + 1 := by
        rw [hat.offset, Nat.mod_eq_of_lt (by omega)]
      simp only [hbkt, hbkt', hload, hmod]
      exact ⟨⟨some c.1, _⟩, c :: cs₁, rfl, ⟨hbkt ▸ hat.linked, by simp, rfl, hbkt' ▸ hat.fits⟩,
        hsuffix⟩

end RawIterator

end TsEngine
