import TsEngine.Store.BucketSpecs

/-!
# The buckets of a container in the middle of an append

`BucketChain.InMemory` says what a reader finds in memory whatever step of
`ts_docid_container_append` was the last: buckets that are full, and a last one that may hold an id
beyond its `offset`.  Three steps change that chain: a store of an id (`InMemory.storeId`), the
increment of `offset` (`InMemory.incrOffset`), and the link to a new bucket (`InMemory.link`).  To a
reader they look alike, for a chain only grows (`Grows`).
-/

namespace TsEngine

open Framework RawContainer

variable {α : Type}

/-- Buckets linked from the head: those that are full, the last one and the ids stored in it beyond
its `offset`. -/
structure BucketChain (α : Type) where
  full : List (BucketPtr × DocidBucket α)
  ptr : BucketPtr
  last : DocidBucket α
  pending : List α

namespace BucketChain

/-- The addresses of the buckets. -/
def ptrs (v : BucketChain α) : List BucketPtr := v.full.map Prod.fst ++ [v.ptr]

/-- The buckets with what is stored in them. -/
def stored (v : BucketChain α) : List (BucketPtr × DocidBucket α) :=
  v.full ++ [(v.ptr, ⟨v.last.size, v.last.ids ++ v.pending⟩)]

/-- How many ids the offsets count. -/
def published (v : BucketChain α) : ℕ := (idsOf v.full).length + v.last.ids.length

/-- The chain as it lies in memory. -/
structure InMemory (v : BucketChain α) (m : BucketMemory α) (head : Option BucketPtr) : Prop where
  linked : Linked m.cells (some v.ptr) head (chainCells v.full)
  cell : m.cells v.ptr = some ⟨v.last.data v.pending, none⟩
  nodup : v.ptrs.Nodup
  sizes : ∀ i b, (v.full.map Prod.snd)[i]? = some b → b.size = bucketSize * 2 ^ i
  size : v.last.size = bucketSize * 2 ^ v.full.length
  small : v.last.size < 2 ^ 32
  filled : ∀ b ∈ v.full.map Prod.snd, b.ids.length = b.size
  fits : (v.last.ids ++ v.pending).length ≤ v.last.size

end BucketChain

/-! ## Growing -/

/-- Ids are added to the last bucket, or buckets behind it. -/
def Grows (cs cs' : List (BucketPtr × DocidBucket α)) : Prop :=
  ∀ pre r b post, cs = pre ++ (r, b) :: post → ∃ b' post', cs' = pre ++ (r, b') :: post' ∧
    b.ids <+: b'.ids ∧ b'.size = b.size ∧
    (post ≠ [] → b' = b ∧ post' ≠ [] ∧ post'.head?.map Prod.fst = post.head?.map Prod.fst)

section

variable {cs cs' : List (BucketPtr × DocidBucket α)} {p : BucketPtr} {b b' : DocidBucket α}

lemma Grows.refl (cs : List (BucketPtr × DocidBucket α)) : Grows cs cs :=
  fun _ _ b post h => ⟨b, post, h, List.prefix_rfl, rfl, fun hne => ⟨rfl, hne, rfl⟩⟩

lemma grows_push (hids : b.ids <+: b'.ids) (hsize : b'.size = b.size) :
    Grows (cs ++ [(p, b)]) (cs ++ [(p, b')]) := by
  intro pre r b₀ post h
  rcases List.eq_nil_or_concat' post with rfl | ⟨post, c, rfl⟩
  · obtain ⟨rfl, heq⟩ := List.append_inj' h rfl
    obtain ⟨rfl, rfl⟩ := Prod.mk.inj (List.singleton_inj.mp heq)
    exact ⟨b', [], rfl, hids, hsize, fun hne => absurd rfl hne⟩
  · rw [← List.cons_append, ← List.append_assoc] at h
    obtain ⟨rfl, heq⟩ := List.append_inj' h rfl
    obtain rfl := List.singleton_inj.mp heq
    refine ⟨b₀, post ++ [(p, b')], by simp, List.prefix_rfl, rfl, fun _ => ⟨rfl, by simp, ?_⟩⟩
    cases post <;> rfl

lemma grows_link (cs : List (BucketPtr × DocidBucket α)) (c : BucketPtr × DocidBucket α) :
    Grows cs (cs ++ [c]) := by
  rintro pre r b post rfl
  refine ⟨b, post ++ [c], by simp, List.prefix_rfl, rfl, fun hne => ⟨rfl, by simp, ?_⟩⟩
  cases post with
  | nil => exact absurd rfl hne
  | cons d post => rfl

lemma idsOf_append (cs cs' : List (BucketPtr × DocidBucket α)) :
    idsOf (cs ++ cs') = idsOf cs ++ idsOf cs' := List.flatMap_append

lemma idsOf_cons (p : BucketPtr) (b : DocidBucket α) (cs : List (BucketPtr × DocidBucket α)) :
    idsOf ((p, b) :: cs) = b.ids ++ idsOf cs := List.flatMap_cons

lemma idsOf_singleton (p : BucketPtr) (b : DocidBucket α) : idsOf [(p, b)] = b.ids := by
  simp [idsOf]

lemma Grows.idsOf_isPrefix (h : Grows cs cs') : idsOf cs <+: idsOf cs' := by
  rcases List.eq_nil_or_concat' cs with rfl | ⟨pre, ⟨r, b⟩, rfl⟩
  · exact List.nil_prefix
  · obtain ⟨b', post, rfl, hids, -⟩ := h pre r b [] rfl
    rw [idsOf_append, idsOf_append, idsOf_singleton, idsOf_cons, List.prefix_append_right_inj]
    exact hids.trans (List.prefix_append _ _)

end

namespace BucketChain

variable {v : BucketChain α} {m m' : BucketMemory α} {head : Option BucketPtr} {x : α}

lemma idsOf_stored (v : BucketChain α) :
    idsOf v.stored = idsOf v.full ++ v.last.ids ++ v.pending := by
  rw [stored, idsOf_append, idsOf_singleton, List.append_assoc]

lemma length_idsOf_stored (v : BucketChain α) :
    (idsOf v.stored).length = v.published + v.pending.length := by
  rw [idsOf_stored, List.length_append, List.length_append, published]

/-! ## Loads -/

/-- The buckets of a chain are allocated. -/
lemma InMemory.lt_next (h : v.InMemory m head) : ∀ p ∈ v.ptrs, p < m.next := by
  intro p hp
  refine Heap.lt_next ?_
  rcases List.mem_append.mp hp with hp | hp
  · exact h.linked.ne_none (by simpa using hp)
  · obtain rfl := List.mem_singleton.mp hp
    simp [h.cell]

/-- From the cells of a chain one gets to the next one, or to its end. -/
lemma start_eq_or {heap : BucketPtr → Option (Cell BucketPtr (BucketData α))}
    {stop start : Option BucketPtr} {cs : List (BucketPtr × BucketData α)}
    (h : Linked heap stop start cs) : start = (cs.head?.map Prod.fst).or stop := by
  cases cs with
  | nil => exact h
  | cons c cs => exact h.1

/-- What a reader finds at the bucket `b` of the chain, where `pre` and `post` are the others. -/
structure Loads (v : BucketChain α) (m : BucketMemory α)
    (pre : List (BucketPtr × DocidBucket α)) (r : BucketPtr) (b : DocidBucket α)
    (post : List (BucketPtr × DocidBucket α)) (data : BucketData α) : Prop where
  cell : m.cells r = some ⟨data, post.head?.map Prod.fst⟩
  offset_le : data.offset ≤ b.ids.length
  fits : b.ids.length ≤ b.size
  small : b.size < 2 ^ 32
  pos : 0 < b.size
  full : post ≠ [] → data.offset = b.ids.length ∧ b.ids.length = b.size
  last : post = [] → v.published = (idsOf pre).length + data.offset
  id : ∀ o < b.size, m.loadId (some r) o = .ok b.ids[o]?

/-- **A bucket of the chain** as a reader finds it. -/
lemma InMemory.load (h : v.InMemory m head) {pre post : List (BucketPtr × DocidBucket α)}
    {r : BucketPtr} {b : DocidBucket α} (hcs : v.stored = pre ++ (r, b) :: post) :
    ∃ data, v.Loads m pre r b post data := by
  rcases List.eq_nil_or_concat' post with rfl | ⟨post, c, rfl⟩
  · -- the last bucket
    obtain ⟨rfl, heq⟩ := List.append_inj' hcs rfl
    obtain ⟨rfl, rfl⟩ := Prod.mk.inj (List.singleton_inj.mp heq)
    have hpos : 0 < v.last.size := by
      rw [h.size, bucketSize]
      positivity
    refine ⟨v.last.data v.pending, h.cell, ?_, h.fits, h.small, hpos, fun hne => absurd rfl hne,
      fun _ => rfl, fun o ho => loadId_eq h.cell h.fits ho⟩
    show v.last.ids.length ≤ (v.last.ids ++ v.pending).length
    simp
  · rw [← List.cons_append, ← List.append_assoc] at hcs
    obtain ⟨hfull, heq⟩ := List.append_inj' hcs rfl
    obtain rfl := List.singleton_inj.mp heq
    have hlinked := h.linked
    rw [hfull, chainCells, List.map_append] at hlinked
    obtain ⟨mid, -, rfl, next, hcell, hrest⟩ := linked_append.mp hlinked
    have hnext : next = (post ++ [(v.ptr, (⟨v.last.size, v.last.ids ++ v.pending⟩ :
        DocidBucket α))]).head?.map Prod.fst := by
      rw [start_eq_or hrest]
      cases post <;> rfl
    have hfilled := h.filled b (by simp [hfull])
    have hget : (v.full.map Prod.snd)[pre.length]? = some b := by simp [hfull]
    have hsize := h.sizes _ b hget
    have hpow : 2 ^ pre.length ≤ 2 ^ v.full.length :=
      Nat.pow_le_pow_right (by norm_num) (by simp [hfull])
    have hpos : 0 < 2 ^ pre.length := by positivity
    have hlast := h.size
    have hsmall := h.small
    rw [bucketSize] at hsize hlast
    refine ⟨b.data [], hnext ▸ hcell, le_rfl, hfilled.le, by omega, by omega,
      fun _ => ⟨rfl, hfilled⟩, fun hnil => absurd hnil (by simp), fun o ho => ?_⟩
    rw [loadId_eq hcell (by simpa using hfilled.le) ho, List.append_nil]

/-! ## Stores -/

/-- Nothing is stored to the chain. -/
lemma InMemory.frame (h : v.InMemory m head) (hcells : ∀ p ∈ v.ptrs, m'.cells p = m.cells p) :
    v.InMemory m' head :=
  { h with
    linked := (linked_congr fun p hp => hcells p (by simp_all [ptrs])).mpr h.linked
    cell := (hcells v.ptr (by simp [ptrs])).trans h.cell }

/-- Writing the last bucket leaves the others where they are. -/
lemma InMemory.linked_store (h : v.InMemory m head) (c : Cell BucketPtr (BucketData α)) :
    Linked (m.store v.ptr c).cells (some v.ptr) head (chainCells v.full) := by
  refine (linked_congr fun p hp => Heap.cells_store_of_ne ?_ _).mpr h.linked
  rw [map_fst_chainCells] at hp
  rintro rfl
  exact (List.nodup_append.mp h.nodup).2.2 _ hp _ (by simp) rfl

/-- The last bucket is written. -/
lemma InMemory.store (h : v.InMemory m head) {last : DocidBucket α} {pending : List α}
    (hsize : last.size = v.last.size) (hfits : (last.ids ++ pending).length ≤ v.last.size) :
    { v with last := last, pending := pending }.InMemory
      (m.store v.ptr ⟨last.data pending, none⟩) head where
  linked := h.linked_store _
  cell := Heap.cells_store_self h.cell _
  nodup := h.nodup
  sizes := h.sizes
  size := hsize.trans h.size
  small := hsize ▸ h.small
  filled := h.filled
  fits := hsize ▸ hfits

/-- An id is stored beyond `offset`. -/
lemma InMemory.storeId (h : v.InMemory m head) (hpending : v.pending = [])
    (hlt : v.last.ids.length < v.last.size) (x : α) :
    ∃ m', m.storeId (some v.ptr) x = .ok m' ∧ { v with pending := [x] }.InMemory m' head :=
  ⟨_, storeId_eq (hpending ▸ h.cell) hlt, h.store rfl (by simpa using hlt)⟩

/-- It is counted. -/
lemma InMemory.incrOffset (h : v.InMemory m head) (hpending : v.pending = [x]) :
    ∃ m', m.incrOffset (some v.ptr) = .ok m' ∧
      { v with last := v.last.push x, pending := [] }.InMemory m' head := by
  have hfits : (v.last.ids ++ [x]).length ≤ v.last.size := hpending ▸ h.fits
  have hlt : v.last.ids.length < v.last.size := by simpa using hfits
  exact ⟨_, incrOffset_eq (hpending ▸ h.cell) hlt h.small,
    h.store rfl (by simpa [DocidBucket.push] using hfits)⟩

/-- A bucket of twice the size is put behind the last one, which is full. -/
lemma InMemory.link (h : v.InMemory m head) (hpending : v.pending = [])
    (hfull : v.last.ids.length = v.last.size) {q : BucketPtr} {size : ℕ} (hq : q ∉ v.ptrs)
    (hcell : m.cells q = some ⟨(DocidBucket.new size).data [], none⟩)
    (hsize : size = bucketSize * 2 ^ (v.full.length + 1)) (hsmall : size < 2 ^ 32) :
    ∃ m', m.linkNext (some v.ptr) q = .ok m' ∧
      (BucketChain.mk (v.full ++ [(v.ptr, v.last)]) q (DocidBucket.new size) []).InMemory m'
        head := by
  have hptr : m.cells v.ptr = some ⟨v.last.data [], none⟩ := hpending ▸ h.cell
  have hne : q ≠ v.ptr := fun heq => hq (by simp [ptrs, heq])
  refine ⟨_, linkNext_eq hptr, ?_, ?_, ?_, ?_, ?_, hsmall, ?_, Nat.zero_le _⟩
  · rw [chainCells, List.map_append]
    exact linked_append.mpr
      ⟨some v.ptr, h.linked_store _, rfl, some q, Heap.cells_store_self hptr _, rfl⟩
  · exact (Heap.cells_store_of_ne hne _).trans hcell
  · have hptrs : ptrs (.mk (v.full ++ [(v.ptr, v.last)]) q (DocidBucket.new size) []) =
        v.ptrs ++ [q] := by simp [ptrs]
    rw [hptrs]
    exact List.nodup_append.mpr ⟨h.nodup, List.nodup_singleton q, fun a ha b hb heq =>
      hq (List.mem_singleton.mp hb ▸ heq ▸ ha)⟩
  · rw [List.map_append]
    exact DocidBuckets.forall_getElem?_concat.mpr ⟨h.sizes, by simpa using h.size⟩
  · simpa [DocidBucket.new] using hsize
  · rw [List.map_append]
    exact List.forall_mem_append.mpr ⟨h.filled, by simpa using hfull⟩

end BucketChain

end TsEngine
