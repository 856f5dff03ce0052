import Mathlib.Data.List.Basic
import Mathlib.Tactic

/-!
# Doc-id generator and doc-id container (`docid.h`, `docid.c`)

A `DocidContainer` is a linked list of buckets whose sizes double.  It stores *pointers* to
the `doc_id` field of documents, never ids, so it is generic in the pointer type.

The bucket chain is kept as the source has it (`DocidBuckets`), and the well-formedness that
appending maintains is a field of `DocidContainer`, so that no later module has to carry it.
Everything after this module sees a container through `DocidContainer.toList`, the order in
which `ts_docid_foreach` visits it, and through two facts: appending appends
(`DocidContainer.toList_append`), and the explicit iterator visits the same list
(`DocidIterator.next_fst`, `DocidIterator.rest_next`).
-/

namespace TsEngine

/-- The difference of two `uint32_t`. -/
def subU32 (a b : ℕ) : ℕ := (a + (2 ^ 32 - b % 2 ^ 32)) % 2 ^ 32

lemma subU32_eq {a b : ℕ} (ha : a < 2 ^ 32) (hb : b ≤ a) : subU32 a b = a - b := by
  unfold subU32
  omega

/-- `BUCKET_SIZE`. -/
def bucketSize : ℕ := 8

/-! ## The generator -/

/-- `ts_docid_generator_t`: the next id, a `uint32_t`. -/
structure DocidGenerator where
  start : ℕ

/-- `ts_docid_generator_init`. -/
def DocidGenerator.init : DocidGenerator := ⟨1⟩

/-- `ts_docid_incr`: `return generator->start++`, wrapping at 32 bits. -/
def DocidGenerator.incr (g : DocidGenerator) : ℕ × DocidGenerator :=
  (g.start, ⟨(g.start + 1) % 2 ^ 32⟩)

/-! ## The bucket chain -/

/-- `struct _ts_docid_bucket`: the slots written so far; `offset` is their number. -/
structure DocidBucket (α : Type*) where
  size : ℕ
  ids : List α

namespace DocidBucket

variable {α : Type*}

/-- `bkt->offset`. -/
def offset (b : DocidBucket α) : ℕ := b.ids.length

/-- `ts_docid_bucket_new`. -/
def new (size : ℕ) : DocidBucket α := ⟨size, []⟩

/-- `ids[offset] = docid; offset++`. -/
def push (b : DocidBucket α) (x : α) : DocidBucket α := { b with ids := b.ids ++ [x] }

end DocidBucket

/-- `struct _ts_docid_container`: the buckets from `head` to `tail`, and the counters. -/
structure DocidBuckets (α : Type*) where
  buckets : List (DocidBucket α)
  allocSize : ℕ
  len : ℕ
  total : ℕ

namespace DocidBuckets

variable {α : Type*}

/-- `ts_docid_container_reserve`.  The free space `tail->size - tail->offset` is a `uint32_t`
difference, positive exactly when the two differ. -/
def reserve (c : DocidBuckets α) : DocidBuckets α :=
  if c.len = 0 then
    { c with buckets := [DocidBucket.new c.allocSize], len := c.len + 1 }
  else
    match c.buckets.getLast? with
    | none => c
    | some tail =>
      if tail.size ≠ tail.offset then c
      else
        let allocSize := (c.allocSize * 2) % 2 ^ 32
        { c with
          buckets := c.buckets ++ [DocidBucket.new allocSize]
          allocSize := allocSize
          len := c.len + 1 }

/-- The store into the tail bucket. -/
def pushTail : List (DocidBucket α) → α → List (DocidBucket α)
  | [], _ => []
  | [b], x => [b.push x]
  | b :: bs, x => b :: pushTail bs x

/-- `ts_docid_container_append`. -/
def append (c : DocidBuckets α) (x : α) : DocidBuckets α :=
  let c := c.reserve
  { c with buckets := pushTail c.buckets x, total := (c.total + 1) % 2 ^ 32 }

/-- `ts_docid_container_init`: `bzero`, then reserve the first bucket. -/
def init : DocidBuckets α :=
  reserve { buckets := [], allocSize := bucketSize, len := 0, total := 0 }

/-- What `ts_docid_foreach` visits, in order. -/
def toList (c : DocidBuckets α) : List α := c.buckets.flatMap DocidBucket.ids

/-- Well-formedness: there is a bucket, `len` counts the buckets, `total` counts the ids, and
a bucket is empty only if it is the single initial one. -/
structure Wf (c : DocidBuckets α) : Prop where
  len_eq : c.len = c.buckets.length
  total_eq : c.total = c.toList.length % 2 ^ 32
  shape : (∃ b, c.buckets = [b] ∧ b.size ≠ 0) ∨
    (c.buckets ≠ [] ∧ ∀ b ∈ c.buckets, b.ids ≠ [])

lemma Wf.ne_nil {c : DocidBuckets α} (h : c.Wf) : c.buckets ≠ [] := by
  rcases h.shape with ⟨b, hb, -⟩ | ⟨hne, -⟩
  · simp [hb]
  · exact hne

lemma init_wf : (init : DocidBuckets α).Wf where
  len_eq := rfl
  total_eq := by simp [init, reserve, toList, DocidBucket.new]
  shape := .inl ⟨DocidBucket.new bucketSize, rfl, by simp [DocidBucket.new, bucketSize]⟩

/-! ### Appending -/

lemma pushTail_append_singleton (bs : List (DocidBucket α)) (b : DocidBucket α) (x : α) :
    pushTail (bs ++ [b]) x = bs ++ [b.push x] := by
  induction bs with
  | nil => rfl
  | cons b' bs ih =>
      cases bs with
      | nil => rfl
      | cons b'' bs => simpa [pushTail] using ih

/-- The two outcomes of reserving on a non-empty chain: nothing, or a fresh tail after a full
one. -/
lemma Wf.reserve_cases {c : DocidBuckets α} (h : c.Wf) :
    ∃ bs b, c.buckets = bs ++ [b] ∧
      ((c.reserve = c ∧ b.size ≠ b.ids.length) ∨
        (b.size = b.ids.length ∧
          c.reserve =
            { c with
              buckets := bs ++ [b] ++ [DocidBucket.new ((c.allocSize * 2) % 2 ^ 32)]
              allocSize := (c.allocSize * 2) % 2 ^ 32
              len := c.len + 1 })) := by
  obtain ⟨bs, b, hb⟩ : ∃ bs b, c.buckets = bs ++ [b] :=
    ⟨c.buckets.dropLast, c.buckets.getLast h.ne_nil, by
      rw [List.dropLast_append_getLast]⟩
  have hlen : c.len ≠ 0 := by
    rw [h.len_eq, hb]
    simp
  have hlast : c.buckets.getLast? = some b := by simp [hb]
  refine ⟨bs, b, hb, ?_⟩
  by_cases hfull : b.size = b.ids.length
  · refine .inr ⟨hfull, ?_⟩
    simp [reserve, hlen, DocidBucket.offset, hfull, hb]
  · exact .inl ⟨by simp [reserve, hlen, hlast, DocidBucket.offset, hfull], hfull⟩

lemma Wf.toList_append {c : DocidBuckets α} (h : c.Wf) (x : α) :
    (c.append x).toList = c.toList ++ [x] := by
  obtain ⟨bs, b, hb, ⟨hres, -⟩ | ⟨-, hres⟩⟩ := h.reserve_cases
  · simp [append, toList, hres, hb, pushTail_append_singleton, DocidBucket.push]
  · simp only [append, toList, hres, pushTail_append_singleton, hb]
    simp [DocidBucket.push, DocidBucket.new]

lemma Wf.append {c : DocidBuckets α} (h : c.Wf) (x : α) : (c.append x).Wf where
  len_eq := by
    obtain ⟨bs, b, hb, ⟨hres, -⟩ | ⟨-, hres⟩⟩ := h.reserve_cases
    · simp [DocidBuckets.append, hres, h.len_eq, hb, pushTail_append_singleton]
    · simp [DocidBuckets.append, hres, h.len_eq, hb, pushTail_append_singleton, -List.append_assoc]
  total_eq := by
    have hres : c.reserve.total = c.total := by
      obtain ⟨bs, b, hb, ⟨hres, -⟩ | ⟨-, hres⟩⟩ := h.reserve_cases <;> simp [hres]
    rw [h.toList_append, List.length_append, List.length_singleton, Nat.add_mod, ← h.total_eq]
    simp [DocidBuckets.append, hres]
  shape := by
    obtain ⟨bs, b, hb, ⟨hres, -⟩ | ⟨hfull, hres⟩⟩ := h.reserve_cases
    · rcases h.shape with ⟨b', hb', hsize⟩ | ⟨-, hids⟩
      · rw [hb] at hb'
        obtain ⟨rfl, rfl⟩ : bs = [] ∧ b = b' := by simpa [List.append_eq_cons_iff] using hb'
        exact .inl ⟨b.push x, by simp [DocidBuckets.append, hres, hb, pushTail], hsize⟩
      · refine .inr ⟨by simp [DocidBuckets.append, hres, hb, pushTail_append_singleton], ?_⟩
        intro b' hb'
        simp only [DocidBuckets.append, hres, hb, pushTail_append_singleton, List.mem_append,
          List.mem_singleton] at hb'
        rcases hb' with hb' | rfl
        · exact hids b' (by simp [hb, hb'])
        · simp [DocidBucket.push]
    · -- A full tail of positive size is non-empty, so every bucket before the fresh one is.
      have hids : ∀ b' ∈ bs ++ [b], b'.ids ≠ [] := by
        rcases h.shape with ⟨b', hb', hsize⟩ | ⟨-, hids⟩
        · rw [hb] at hb'
          obtain ⟨rfl, rfl⟩ : bs = [] ∧ b = b' := by simpa [List.append_eq_cons_iff] using hb'
          intro b' hmem
          obtain rfl : b' = b := by simpa using hmem
          intro hnil
          exact hsize (by simp [hfull, hnil])
        · simpa [hb] using hids
      have hbk : (c.append x).buckets =
          bs ++ [b] ++ [(DocidBucket.new ((c.allocSize * 2) % 2 ^ 32)).push x] := by
        simp only [DocidBuckets.append, hres, pushTail_append_singleton]
      refine .inr ⟨by simp [hbk], ?_⟩
      intro b' hb'
      rw [hbk, List.mem_append, List.mem_singleton] at hb'
      rcases hb' with hb' | rfl
      · exact hids b' hb'
      · simp [DocidBucket.push]

end DocidBuckets

/-! ## Containers -/

/-- An initialised container: a bucket chain in the shape that appending maintains. -/
structure DocidContainer (α : Type*) where
  raw : DocidBuckets α
  wf : raw.Wf

namespace DocidContainer

variable {α : Type*}

/-- `ts_docid_container_init`. -/
def init : DocidContainer α := ⟨DocidBuckets.init, DocidBuckets.init_wf⟩

/-- `ts_docid_container_append`. -/
def append (c : DocidContainer α) (x : α) : DocidContainer α := ⟨c.raw.append x, c.wf.append x⟩

/-- What `ts_docid_foreach` visits, in order. -/
def toList (c : DocidContainer α) : List α := c.raw.toList

/-- `container->total`. -/
def total (c : DocidContainer α) : ℕ := c.raw.total

@[simp] lemma toList_init : (init : DocidContainer α).toList = [] := rfl

@[simp] lemma toList_append (c : DocidContainer α) (x : α) :
    (c.append x).toList = c.toList ++ [x] := c.wf.toList_append x

lemma total_eq (c : DocidContainer α) : c.total = c.toList.length % 2 ^ 32 := c.wf.total_eq

end DocidContainer

/-! ## The explicit iterator -/

/-- `ts_docid_container_iterator_t`: the current bucket with its successors, and the offset
within it. -/
structure DocidIterator (α : Type*) where
  bkt : List (DocidBucket α)
  offset : ℕ

namespace DocidIterator

variable {α : Type*}

/-- `ts_docid_container_iterator_init`. -/
def init (c : DocidContainer α) : DocidIterator α := ⟨c.raw.buckets, 0⟩

/-- The bucket change at the start of `ts_docid_container_next`. -/
def advance (it : DocidIterator α) : DocidIterator α :=
  match it.bkt with
  | [] => it
  | b :: bs => if b.offset ≤ it.offset then ⟨bs, 0⟩ else it

/-- `ts_docid_container_next`.  Buckets are zeroed when allocated, so an unwritten slot reads
as the null pointer. -/
def next (it : DocidIterator α) : Option α × DocidIterator α :=
  let it := it.advance
  match it.bkt with
  | [] => (none, it)
  | b :: _ => (b.ids[it.offset]?, { it with offset := it.offset + 1 })

/-- What the iterator has still to visit. -/
def rest (it : DocidIterator α) : List α :=
  match it.bkt with
  | [] => []
  | b :: bs => b.ids.drop it.offset ++ bs.flatMap DocidBucket.ids

/-- No bucket after the current one is empty. -/
def Wf (it : DocidIterator α) : Prop := ∀ b ∈ it.bkt.tail, b.ids ≠ []

@[simp] lemma rest_init (c : DocidContainer α) : (init c).rest = c.toList := by
  unfold rest init DocidContainer.toList DocidBuckets.toList
  cases c.raw.buckets with
  | nil => rfl
  | cons b bs => simp

lemma wf_init (c : DocidContainer α) : (init c).Wf := by
  intro b hb
  rcases c.wf.shape with ⟨b', hb', -⟩ | ⟨-, hids⟩
  · simp [init, hb'] at hb
  · exact hids b (List.mem_of_mem_tail hb)

/-- Changing bucket does not change what is left, and puts the offset inside the bucket. -/
lemma advance_spec {it : DocidIterator α} (h : it.Wf) :
    it.advance.rest = it.rest ∧ it.advance.Wf ∧
      ∀ b bs, it.advance.bkt = b :: bs → it.advance.offset < b.ids.length := by
  obtain ⟨bkt, offset⟩ := it
  cases bkt with
  | nil => exact ⟨rfl, h, by simp [advance]⟩
  | cons b bs =>
      by_cases hoff : b.offset ≤ offset
      · have hadv : advance ⟨b :: bs, offset⟩ = ⟨bs, 0⟩ := by simp [advance, hoff]
        have hdrop : b.ids.drop offset = [] := List.drop_eq_nil_of_le hoff
        refine ⟨?_, ?_, ?_⟩
        · rw [hadv]
          cases bs with
          | nil => simp [rest, hdrop]
          | cons b' bs => simp [rest, hdrop]
        · rw [hadv]
          exact fun b' hb' => h b' (List.mem_of_mem_tail hb')
        · intro b' bs' hbs
          rw [hadv] at hbs ⊢
          exact List.length_pos_iff.mpr (h b' (by simp only at hbs; simp [hbs]))
      · have hadv : advance ⟨b :: bs, offset⟩ = ⟨b :: bs, offset⟩ := by simp [advance, hoff]
        refine ⟨by rw [hadv], by rw [hadv]; exact h, ?_⟩
        intro b' bs' hbs
        rw [hadv] at hbs ⊢
        obtain ⟨rfl, rfl⟩ : b = b' ∧ bs = bs' := by simpa using hbs
        simpa [DocidBucket.offset] using hoff

/-- The iterator yields the first element it has still to visit, and null at the end. -/
lemma next_fst {it : DocidIterator α} (h : it.Wf) : it.next.1 = it.rest.head? := by
  obtain ⟨hrest, -, hlt⟩ := advance_spec h
  rw [← hrest]
  unfold next rest
  cases hb : it.advance.bkt with
  | nil => simp [hb]
  | cons b bs =>
      have hlt := hlt b bs hb
      simp only [hb, List.drop_eq_getElem_cons hlt, List.cons_append, List.head?_cons]
      exact List.getElem?_eq_getElem hlt

/-- … and moves past it. -/
lemma rest_next {it : DocidIterator α} (h : it.Wf) : it.next.2.rest = it.rest.tail := by
  obtain ⟨hrest, -, hlt⟩ := advance_spec h
  rw [← hrest]
  unfold next rest
  cases hb : it.advance.bkt with
  | nil => simp [hb]
  | cons b bs =>
      have hlt := hlt b bs hb
      simp only [hb, List.drop_eq_getElem_cons hlt, List.cons_append, List.tail_cons]

lemma wf_next {it : DocidIterator α} (h : it.Wf) : it.next.2.Wf := by
  obtain ⟨-, hwf, -⟩ := advance_spec h
  unfold next
  cases hb : it.advance.bkt with
  | nil => simpa [hb] using hwf
  | cons b bs => simpa [Wf, hb] using hwf

end DocidIterator

end TsEngine
