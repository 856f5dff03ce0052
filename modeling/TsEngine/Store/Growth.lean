import TsEngine.Store.Docid

/-!
# How a container grows

Appending to an initialised container gives it buckets of sizes `8, 16, 32, …`, all full but the
last (`DocidBuckets.Grown`).  The sizes are `uint32_t` and would wrap at the thirtieth bucket, so a
container has room for the `2 ^ 32 - 8` ids of the first twenty-nine (`containerCapacity`), and up
to there `Grown` is kept (`DocidBuckets.Grown.append`).
-/

namespace TsEngine

/-- What the buckets that a container can have hold together. -/
def containerCapacity : ℕ := 2 ^ 32 - 8

namespace DocidBuckets

variable {α : Type*} {c : DocidBuckets α} {bs : List (DocidBucket α)} {b : DocidBucket α} {x : α}

/-- The layout that appending leaves. -/
structure Grown (c : DocidBuckets α) : Prop where
  size : ∀ i b, c.buckets[i]? = some b → b.size = bucketSize * 2 ^ i
  full : ∀ b ∈ c.buckets.dropLast, b.ids.length = b.size
  last : ∀ b ∈ c.buckets.getLast?, b.ids.length ≤ b.size ∧ (b.ids = [] → c.buckets = [b])
  allocSize : c.allocSize = bucketSize * 2 ^ (c.buckets.length - 1)

lemma init_grown : (init : DocidBuckets α).Grown where
  size i b hb := by
    have hinit : (init : DocidBuckets α).buckets = [DocidBucket.new bucketSize] := rfl
    rw [hinit, List.getElem?_singleton] at hb
    split_ifs at hb with hi
    obtain rfl := Option.some.inj hb
    simp [hi, DocidBucket.new]
  full b hb := by simp [init, reserve] at hb
  last b hb := by
    obtain rfl : DocidBucket.new bucketSize = b := by simpa [init, reserve] using hb
    exact ⟨Nat.zero_le _, fun _ => rfl⟩
  allocSize := by simp [init, reserve]

/-- What holds of every element of a list at its index. -/
lemma forall_getElem?_concat {β : Type*} {P : ℕ → β → Prop} {l : List β} {a : β} :
    (∀ i b, (l ++ [a])[i]? = some b → P i b) ↔ (∀ i b, l[i]? = some b → P i b) ∧ P l.length a := by
  constructor
  · intro h
    refine ⟨fun i b hb => h i b ?_, h _ _ List.getElem?_concat_length⟩
    rw [List.getElem?_append_left (List.getElem?_eq_some_iff.mp hb).1, hb]
  · rintro ⟨hl, ha⟩ i b hb
    by_cases hi : i < l.length
    · exact hl i b (by rwa [List.getElem?_append_left hi] at hb)
    · obtain ⟨hlt, hget⟩ := List.getElem?_eq_some_iff.mp hb
      obtain rfl : i = l.length := by
        rw [List.length_append, List.length_singleton] at hlt
        omega
      rw [List.getElem_concat_length rfl] at hget
      exact hget ▸ ha

/-- The layout, of buckets whose last is named. -/
lemma grown_iff (hbs : c.buckets = bs ++ [b]) :
    c.Grown ↔ (∀ i b', bs[i]? = some b' → b'.size = bucketSize * 2 ^ i) ∧
      b.size = bucketSize * 2 ^ bs.length ∧ (∀ b' ∈ bs, b'.ids.length = b'.size) ∧
      b.ids.length ≤ b.size ∧ (b.ids = [] → bs = []) ∧
      c.allocSize = bucketSize * 2 ^ bs.length := by
  constructor
  · intro h
    obtain ⟨hsize, hlast⟩ := forall_getElem?_concat.mp (hbs ▸ h.size)
    obtain ⟨hle, hnil⟩ := h.last b (by simp [hbs])
    refine ⟨hsize, hlast, fun b' hb' => h.full b' (by simp [hbs, hb']), hle, fun h0 => ?_, ?_⟩
    · simpa [hbs] using hnil h0
    · simpa [hbs] using h.allocSize
  · rintro ⟨hsize, hlast, hfull, hle, hnil, halloc⟩
    refine ⟨hbs ▸ forall_getElem?_concat.mpr ⟨hsize, hlast⟩, fun b' hb' => ?_, fun b' hb' => ?_, ?_⟩
    · exact hfull b' (by simpa [hbs] using hb')
    · obtain rfl : b = b' := by simpa [hbs] using hb'
      exact ⟨hle, fun h0 => by simp [hbs, hnil h0]⟩
    · simp [hbs, halloc]

/-- Full buckets of doubling sizes. -/
lemma length_flatMap_full (hsize : ∀ i b, bs[i]? = some b → b.size = bucketSize * 2 ^ i)
    (hfull : ∀ b ∈ bs, b.ids.length = b.size) :
    (bs.flatMap DocidBucket.ids).length = bucketSize * (2 ^ bs.length - 1) := by
  induction bs using List.reverseRecOn with
  | nil => rfl
  | append_singleton bs b ih =>
      obtain ⟨hsize, hlast⟩ := forall_getElem?_concat.mp hsize
      have hrest := ih hsize fun b' hb' => hfull b' (by simp [hb'])
      have hpos : 1 ≤ 2 ^ bs.length := Nat.one_le_two_pow
      rw [List.flatMap_append, List.length_append, hrest, List.flatMap_singleton,
        hfull b (by simp), hlast, ← Nat.mul_add, List.length_append, List.length_singleton,
        pow_succ]
      congr 1
      omega

/-- How much the buckets hold. -/
lemma Grown.length_toList (h : c.Grown) (hbs : c.buckets = bs ++ [b]) :
    c.toList.length = bucketSize * (2 ^ bs.length - 1) + b.ids.length := by
  obtain ⟨hsize, -, hfull, -⟩ := (grown_iff hbs).mp h
  rw [toList, hbs, List.flatMap_append, List.length_append, List.flatMap_singleton,
    length_flatMap_full hsize hfull]

/-- A container has at most twenty-nine buckets. -/
lemma Grown.length_le (h : c.Grown) (hbs : c.buckets = bs ++ [b])
    (hroom : c.toList.length ≤ containerCapacity) : bs.length ≤ 28 := by
  have hlength := h.length_toList hbs
  obtain ⟨-, hsize, -, -, hnil, -⟩ := (grown_iff hbs).mp h
  rw [bucketSize] at hlength hsize
  rw [containerCapacity] at hroom
  have hpow : 2 ^ bs.length ≤ 2 ^ 29 := by omega
  have hle : bs.length ≤ 29 := (Nat.pow_le_pow_iff_right (by norm_num)).mp hpow
  by_contra hgt
  -- a thirtieth bucket would have to be empty
  have heq : bs.length = 29 := by omega
  rw [hlength, heq] at hroom
  have hbs : bs = [] := hnil (List.length_eq_zero_iff.mp (by omega))
  simp [hbs] at heq

/-- The size of the bucket that a full container gets. -/
lemma Grown.next_size (h : c.Grown) (hbs : c.buckets = bs ++ [b]) (hfull : b.size = b.ids.length)
    (hroom : c.toList.length < containerCapacity) :
    (c.allocSize * 2) % 2 ^ 32 = bucketSize * 2 ^ (bs.length + 1) := by
  have hlength := h.length_toList hbs
  obtain ⟨-, hsize, -, -, -, halloc⟩ := (grown_iff hbs).mp h
  rw [bucketSize] at hlength hsize
  rw [containerCapacity] at hroom
  have hpos : 1 ≤ 2 ^ bs.length := Nat.one_le_two_pow
  have hpow : 2 ^ (bs.length + 1) < 2 ^ 29 := by
    rw [pow_succ]
    omega
  rw [halloc, mul_assoc, ← pow_succ, bucketSize]
  exact Nat.mod_eq_of_lt (by omega)

/-- **Appending keeps the layout.** -/
lemma Grown.append (h : c.Grown) (hwf : c.Wf) (hroom : c.toList.length < containerCapacity)
    (x : α) : (c.append x).Grown := by
  obtain ⟨bs, b, hbs, hcase⟩ := hwf.reserve_cases
  obtain ⟨hsize, hlast, hfull, hle, -, halloc⟩ := (grown_iff hbs).mp h
  rcases hcase with ⟨hres, hnot⟩ | ⟨hend, hres⟩
  · -- the tail has a free slot
    have hbk : (c.append x).buckets = bs ++ [b.push x] := by
      simp [DocidBuckets.append, hres, hbs, pushTail_append_singleton]
    refine (grown_iff hbk).mpr ⟨hsize, hlast, hfull, ?_, by simp [DocidBucket.push], ?_⟩
    · simp only [DocidBucket.push, List.length_append, List.length_singleton]
      omega
    · simpa [DocidBuckets.append, hres] using halloc
  · -- the tail is full, and a bucket of twice its size is put behind it
    have hnext := h.next_size hbs hend hroom
    have hbk : (c.append x).buckets =
        bs ++ [b] ++ [(DocidBucket.new ((c.allocSize * 2) % 2 ^ 32)).push x] := by
      simp only [DocidBuckets.append, hres, pushTail_append_singleton]
    have hlen : (bs ++ [b]).length = bs.length + 1 := by simp
    refine (grown_iff hbk).mpr ⟨forall_getElem?_concat.mpr ⟨hsize, hlast⟩, ?_, ?_, ?_,
      by simp [DocidBucket.push], ?_⟩
    · rw [hlen]
      exact hnext
    · simpa [or_imp, forall_and, hend] using hfull
    · simp only [DocidBucket.push, DocidBucket.new, List.nil_append, List.length_singleton, hnext,
        bucketSize]
      exact Nat.mul_pos (by norm_num) (by positivity)
    · rw [hlen, ← hnext]
      simp [DocidBuckets.append, hres]

end DocidBuckets

end TsEngine
