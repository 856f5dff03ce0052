import TsEngine.Framework.Chains
import TsEngine.Framework.Runs
import TsEngine.Store.Uthash

/-!
# The buckets of a hash table

`InBuckets` says that the chain of every bucket has exactly the elements whose hash value leads
there, and that its count is right.  Putting an element in front of its chain (`InBuckets.push`) and
taking one out (`InBuckets.unlink`) keep that, and doubling the bucket array does
(`Uthash.expandBuckets_spec`): the elements that have been moved are in the new buckets, and the
others are still on their old chains.
-/

namespace TsEngine

open Framework

variable {α κ : Type}

lemma hashToBkt_lt {hashv num : UInt32} (hnum : 0 < num.toNat) :
    hashToBkt hashv num < num.toNat := by
  have hle : (1 : UInt32) ≤ num := by
    rw [UInt32.le_iff_toNat_le]
    exact hnum
  rw [hashToBkt, UInt32.toNat_and, UInt32.toNat_sub_of_le _ _ hle]
  exact Nat.and_le_right.trans_lt (Nat.sub_lt hnum one_pos)

lemma UtHashTable.bkt_eq {tbl : UtHashTable α} {i : ℕ} {b : UtHashBucket α} :
    tbl.bkt i = .ok b ↔ tbl.buckets[i]? = some b := by
  rw [UtHashTable.bkt]
  cases tbl.buckets[i]? <;> simp

/-- The chain of every bucket has the elements of `xs` whose hash value leads there. -/
structure InBuckets (next prev : α → Option α) (hashv : α → UInt32) (num : UInt32)
    (bkts : List (UtHashBucket α)) (xs : List α) : Prop where
  length : bkts.length = num.toNat
  pos : 0 < num.toNat
  chain : ∀ i b, bkts[i]? = some b → ∃ ys, Chain next prev b.hhHead ys ∧
    (∀ x, x ∈ ys ↔ x ∈ xs ∧ hashToBkt (hashv x) num = i) ∧ b.count = UInt32.ofNat ys.length

namespace InBuckets

variable {next next' prev prev' : α → Option α} {hashv hashv' : α → UInt32} {num : UInt32}
  {bkts : List (UtHashBucket α)} {xs xs' : List α} {x : α} {b : UtHashBucket α}

lemma zero {n : ℕ} (hnum : num.toNat = n) (hpos : 0 < n) :
    InBuckets next prev hashv num (zeroBuckets α n) [] := by
  refine ⟨by simp [zeroBuckets, hnum], hnum ▸ hpos, fun i b hb => ⟨[], ?_, by simp, ?_⟩⟩
  all_goals
    obtain ⟨-, rfl⟩ : i < n ∧ _ = b := by simpa [zeroBuckets, List.getElem?_replicate] using hb
  · exact .nil
  · rfl

lemma exists_bkt (h : InBuckets next prev hashv num bkts xs) (hv : UInt32) :
    ∃ b, bkts[hashToBkt hv num]? = some b :=
  ⟨_, List.getElem?_eq_getElem (h.length ▸ hashToBkt_lt h.pos)⟩

/-- **Frame rule.** -/
lemma congr (h : InBuckets next prev hashv num bkts xs) (hxs : ∀ x, x ∈ xs' ↔ x ∈ xs)
    (hnext : ∀ x ∈ xs, next' x = next x) (hprev : ∀ x ∈ xs, prev' x = prev x)
    (hhashv : ∀ x ∈ xs, hashv' x = hashv x) : InBuckets next' prev' hashv' num bkts xs' := by
  refine ⟨h.length, h.pos, fun i b hb => ?_⟩
  obtain ⟨ys, hchain, hmem, hcount⟩ := h.chain i b hb
  have hsub : ∀ y ∈ ys, y ∈ xs := fun y hy => ((hmem y).mp hy).1
  refine ⟨ys, hchain.congr (fun y hy => hnext y (hsub y hy)) (fun y hy => hprev y (hsub y hy)),
    fun y => ?_, hcount⟩
  rw [hmem, hxs]
  refine and_congr_right fun hy => ?_
  rw [hhashv y hy]

/-- The neighbours of an element in its chain are elements. -/
lemma mem_of_prev (h : InBuckets next prev hashv num bkts xs) (hx : x ∈ xs) {y : α}
    (hy : prev x = some y) : y ∈ xs := by
  obtain ⟨b, hb⟩ := h.exists_bkt (hashv x)
  obtain ⟨ys, hchain, hmem, -⟩ := h.chain _ b hb
  exact ((hmem y).mp (hchain.mem_of_prev ((hmem x).mpr ⟨hx, rfl⟩) hy)).1

lemma mem_of_next (h : InBuckets next prev hashv num bkts xs) (hx : x ∈ xs) {y : α}
    (hy : next x = some y) : y ∈ xs := by
  obtain ⟨b, hb⟩ := h.exists_bkt (hashv x)
  obtain ⟨ys, hchain, hmem, -⟩ := h.chain _ b hb
  exact ((hmem y).mp (hchain.mem_of_next ((hmem x).mpr ⟨hx, rfl⟩) hy)).1

variable [DecidableEq α]

/-- **An element goes to the front of its bucket.** -/
lemma push (h : InBuckets next prev hashv num bkts xs) (hx : x ∉ xs) (b' : UtHashBucket α)
    (hb : bkts[hashToBkt (hashv x) num]? = some b) (hhead : b'.hhHead = some x)
    (hcount : b'.count = b.count + 1) :
    InBuckets (Function.update next x b.hhHead)
      (setAt (Function.update prev x none) b.hhHead (some x))
      hashv num (bkts.set (hashToBkt (hashv x) num) b') (x :: xs) := by
  obtain ⟨ys, hchain, hmem, hys⟩ := h.chain _ b hb
  have hxys : x ∉ ys := fun hxys => hx ((hmem x).mp hxys).1
  refine ⟨by rw [List.length_set, h.length], h.pos, fun i c hc => ?_⟩
  by_cases hi : hashToBkt (hashv x) num = i
  · subst hi
    obtain rfl : b' = c := by simpa [h.length, hashToBkt_lt h.pos] using hc
    refine ⟨x :: ys, by rw [hhead]; exact hchain.pushFront hxys, fun y => ?_, ?_⟩
    · rw [List.mem_cons, List.mem_cons, hmem, or_and_right]
      exact or_congr_left ⟨fun he => ⟨he, he ▸ rfl⟩, And.left⟩
    · rw [hcount, hys, List.length_cons, UInt32.ofNat_add]
      rfl
  · rw [List.getElem?_set_ne hi] at hc
    obtain ⟨zs, hchain', hmem', hzs⟩ := h.chain i c hc
    have hxzs : ∀ z ∈ zs, z ≠ x := fun z hz he => hx (he ▸ ((hmem' z).mp hz).1)
    have hdisj : ∀ z ∈ zs, z ∉ ys := fun z hz hz' =>
      hi (((hmem z).mp hz').2.symm.trans ((hmem' z).mp hz).2)
    refine ⟨zs, hchain'.congr (fun z hz => Function.update_of_ne (hxzs z hz) _ _) fun z hz => ?_,
      fun y => ?_, hzs⟩
    · refine (setAt_of_ne fun hhd => ?_).trans (Function.update_of_ne (hxzs z hz) _ _)
      exact hdisj z hz (List.mem_of_mem_head? (hchain.start_eq.symm.trans hhd))
    · rw [hmem', List.mem_cons, or_and_right, iff_or_self]
      rintro ⟨rfl, he⟩
      exact absurd he hi

/-- **An element is taken out of its bucket.** -/
lemma unlink (h : InBuckets next prev hashv num bkts xs) (hx : x ∈ xs) (b' : UtHashBucket α)
    (hxs' : ∀ y, y ∈ xs' ↔ y ∈ xs ∧ y ≠ x) (hb : bkts[hashToBkt (hashv x) num]? = some b)
    (hhead : b'.hhHead = if b.hhHead = some x then next x else b.hhHead)
    (hcount : b'.count = b.count - 1) :
    InBuckets (setAt next (prev x) (next x)) (setAt prev (next x) (prev x)) hashv num
      (bkts.set (hashToBkt (hashv x) num) b') xs' := by
  obtain ⟨ys, hchain, hmem, hys⟩ := h.chain _ b hb
  obtain ⟨us, vs, rfl⟩ := List.append_of_mem ((hmem x).mpr ⟨hx, rfl⟩)
  have hout := hchain.unlink
  have hxout : x ∉ us ++ vs := fun hmem' => (List.nodup_middle.mp hchain.nodup).notMem hmem'
  refine ⟨by rw [List.length_set, h.length], h.pos, fun i c hc => ?_⟩
  by_cases hi : hashToBkt (hashv x) num = i
  · subst hi
    obtain rfl : b' = c := by simpa [h.length, hashToBkt_lt h.pos] using hc
    have hstart : b'.hhHead = if prev x = none then next x else b.hhHead := by
      rw [hhead, hchain.start_eq, hchain.prev_eq]
      cases us with
      | nil => simp
      | cons u us =>
          have hne : u ≠ x := fun he => hxout (he ▸ List.mem_cons_self)
          simp [hne]
    refine ⟨us ++ vs, hstart ▸ hout, fun y => ?_, ?_⟩
    · have hy : y ∈ us ++ vs ↔ y ∈ us ++ x :: vs ∧ y ≠ x := by
        rw [List.mem_append, List.mem_append, List.mem_cons]
        refine ⟨fun hy => ⟨hy.imp_right .inr, fun he => hxout (he ▸ List.mem_append.mpr hy)⟩, ?_⟩
        rintro ⟨hy | rfl | hy, hne⟩
        · exact .inl hy
        · exact absurd rfl hne
        · exact .inr hy
      rw [hy, hmem, hxs', and_right_comm]
    · rw [hcount, hys]
      simp only [List.length_append, List.length_cons, ← Nat.add_assoc, UInt32.ofNat_add]
      exact UInt32.add_sub_cancel _ _
  · rw [List.getElem?_set_ne hi] at hc
    obtain ⟨zs, hchain', hmem', hzs⟩ := h.chain i c hc
    have hdisj : ∀ z ∈ zs, z ∉ us ++ x :: vs := fun z hz hz' =>
      hi (((hmem z).mp hz').2.symm.trans ((hmem' z).mp hz).2)
    refine ⟨zs, hchain'.congr (fun z hz => ?_) (fun z hz => ?_), fun y => ?_, hzs⟩
    · refine setAt_of_ne fun hp => hdisj z hz ?_
      have hz' : z ∈ us := List.mem_of_getLast? (hchain.prev_eq.symm.trans hp)
      simp [hz']
    · refine setAt_of_ne fun hq => hdisj z hz ?_
      have hz' : z ∈ vs := List.mem_of_mem_head? (hchain.next_eq.symm.trans hq)
      simp [hz']
    · rw [hmem', hxs', and_right_comm, iff_self_and]
      rintro ⟨-, he⟩ rfl
      exact hi he

end InBuckets

namespace Uthash

/-! ## Walks -/

variable {h : Uthash α κ} {start : Option α} {xs ys : List α} {n : ℕ}

lemma iter_eq (hchain : Utlist.NextChain h.next none start xs) (hn : xs.length ≤ n) :
    h.iter n start = .ok xs := by
  induction xs generalizing start n with
  | nil =>
      rw [Utlist.NextChain] at hchain
      cases n <;> simp [iter, hchain]
  | cons x xs ih =>
      obtain ⟨rfl, hrest⟩ := hchain
      obtain _ | n := n
      · simp at hn
      · rw [iter, ih hrest (by simpa using hn)]
        rfl

lemma findInBkt_eq [DecidableEq κ] (hchain : Utlist.NextChain h.hhNext none start ys)
    (hn : ys.length ≤ n) (k : κ) (hv : UInt32) :
    h.findInBkt k hv n start = .ok (ys.find? fun y => h.hashv y = hv ∧ h.key y = k) := by
  induction ys generalizing start n with
  | nil =>
      rw [Utlist.NextChain] at hchain
      cases n <;> simp [findInBkt, hchain]
  | cons y ys ih =>
      obtain ⟨rfl, hrest⟩ := hchain
      obtain _ | n := n
      · simp at hn
      · rw [findInBkt, List.find?_cons]
        split_ifs with hy
        · simp [hy]
        · rw [ih hrest (by simpa using hn)]
          simp [hy]

/-! ## Expansion -/

variable [DecidableEq α] {hashv : α → UInt32} {num : UInt32} {r : Rehash α}

omit [DecidableEq α] in
lemma count_countNew (ideal : UInt32) (b : UtHashBucket α) :
    (countNew ideal b).count = b.count + 1 := by
  unfold countNew
  dsimp only
  split_ifs <;> rfl

/-- **One turn of the inner loop** moves one element, and leaves the pointers of those that have not
been moved alone. -/
lemma rehashOne_spec (ideal : UInt32) {x : α}
    (h : InBuckets r.hhNext r.hhPrev hashv num r.newBuckets xs) (hx : x ∉ xs) :
    ∃ r', rehashOne hashv num ideal x r = .ok r' ∧
      InBuckets r'.hhNext r'.hhPrev hashv num r'.newBuckets (x :: xs) ∧
      ∀ y ∉ x :: xs, r'.hhNext y = r.hhNext y ∧ r'.hhPrev y = r.hhPrev y := by
  obtain ⟨b, hb⟩ := h.exists_bkt (hashv x)
  refine ⟨_, by rw [rehashOne, hb], ?_, fun y hy => ?_⟩
  · exact h.push hx { countNew ideal b with hhHead := some x } hb rfl
      (count_countNew ideal b)
  obtain ⟨hyx, hyxs⟩ := not_or.mp (mt List.mem_cons.mpr hy)
  refine ⟨Function.update_of_ne hyx _ _, (setAt_of_ne fun hhd => ?_).trans
    (Function.update_of_ne hyx _ _)⟩
  obtain ⟨ys, hchain, hmem, -⟩ := h.chain _ b hb
  exact hyxs ((hmem y).mp (List.mem_of_mem_head? (hchain.start_eq.symm.trans hhd))).1

/-- **The inner loop** moves the elements of one old chain. -/
lemma rehashChain_spec (ideal : UInt32)
    (h : InBuckets r.hhNext r.hhPrev hashv num r.newBuckets xs) (hnodup : ys.Nodup)
    (hdisj : ∀ y ∈ ys, y ∉ xs)
    (hchain : Utlist.NextChain r.hhNext none start ys) (hn : ys.length ≤ n) :
    ∃ r', rehashChain hashv num ideal n start r = .ok r' ∧
      InBuckets r'.hhNext r'.hhPrev hashv num r'.newBuckets (ys ++ xs) ∧
      ∀ y ∉ ys ++ xs, r'.hhNext y = r.hhNext y ∧ r'.hhPrev y = r.hhPrev y := by
  induction ys generalizing start r xs n with
  | nil =>
      rw [Utlist.NextChain] at hchain
      exact ⟨r, by cases n <;> simp [rehashChain, hchain], h, fun _ _ => ⟨rfl, rfl⟩⟩
  | cons y ys ih =>
      obtain ⟨rfl, hrest⟩ := hchain
      obtain _ | n := n
      · simp at hn
      · obtain ⟨hy, hys⟩ := List.nodup_cons.mp hnodup
        obtain ⟨r₁, hr₁, hin₁, hsame₁⟩ := rehashOne_spec ideal h
          (hdisj y List.mem_cons_self)
        have hdisj₁ : ∀ z ∈ ys, z ∉ y :: xs := fun z hz hmem => by
          rcases List.mem_cons.mp hmem with rfl | hmem
          · exact hy hz
          · exact hdisj z (List.mem_cons_of_mem y hz) hmem
        -- the rest of the old chain has not been touched
        have hrest₁ : Utlist.NextChain r₁.hhNext none (r.hhNext y) ys :=
          hrest.congr fun z hz => (hsame₁ z (hdisj₁ z hz)).1
        obtain ⟨r₂, hr₂, hin₂, hsame₂⟩ := ih hin₁ hys hdisj₁ hrest₁ (by simpa using hn)
        refine ⟨r₂, ?_, hin₂.congr (fun z => ?_) (fun _ _ => rfl) (fun _ _ => rfl) fun _ _ => rfl,
          fun z hz => ?_⟩
        · rw [rehashChain, hr₁]
          exact hr₂
        · simp [or_left_comm]
        · have hz₂ : z ∉ ys ++ y :: xs := fun hmem => hz (by simpa [or_left_comm] using hmem)
          have hz₁ : z ∉ y :: xs := fun hmem => hz₂ (List.mem_append_right ys hmem)
          rw [(hsame₂ z hz₂).1, (hsame₂ z hz₂).2]
          exact hsame₁ z hz₁

/-- The elements outside of `xs` have the handles they had. -/
structure AgreeOff (xs : List α) (h h' : UtHashHandles α κ) : Prop where
  prev : ∀ y ∉ xs, h'.prev y = h.prev y
  next : ∀ y ∉ xs, h'.next y = h.next y
  hhPrev : ∀ y ∉ xs, h'.hhPrev y = h.hhPrev y
  hhNext : ∀ y ∉ xs, h'.hhNext y = h.hhNext y
  key : ∀ y ∉ xs, h'.key y = h.key y
  hashv : ∀ y ∉ xs, h'.hashv y = h.hashv y

variable {tbl : UtHashTable α}

/-- **The two loops** move all elements: what has been moved is what was in the buckets visited. -/
lemma rehashAll_spec (hnum : (tbl.numBuckets * 2).toNat = 2 * tbl.numBuckets.toNat)
    (hn : xs.length ≤ n)
    (hin : InBuckets h.hhNext h.hhPrev h.hashv tbl.numBuckets tbl.buckets xs) :
    ∃ r, rehashAll n tbl h = .ok r ∧
      InBuckets r.hhNext r.hhPrev h.hashv (tbl.numBuckets * 2) r.newBuckets xs ∧
      ∀ y ∉ xs, r.hhNext y = h.hhNext y ∧ r.hhPrev y = h.hhPrev y := by
  have hpos := hin.pos
  obtain ⟨r, hfold, moved, hmem, hin', hsame⟩ := foldlM_eq_ok
    (f := fun r i => tbl.bkt i >>= fun bkt =>
      rehashChain h.hashv (tbl.numBuckets * 2) (idealChainMaxlen tbl) n bkt.hhHead r)
    (fun pre r => ∃ moved : List α,
      (∀ x, x ∈ moved ↔ x ∈ xs ∧ hashToBkt (h.hashv x) tbl.numBuckets ∈ pre) ∧
      InBuckets r.hhNext r.hhPrev h.hashv (tbl.numBuckets * 2) r.newBuckets moved ∧
      ∀ y ∉ moved, r.hhNext y = h.hhNext y ∧ r.hhPrev y = h.hhPrev y)
    (l := List.range tbl.numBuckets.toNat)
    (b := ⟨zeroBuckets α (2 * tbl.numBuckets.toNat), 0, h.hhPrev, h.hhNext⟩)
    (fun pre i post r hpre ⟨moved, hmem, hin', hsame⟩ => by
      have hi : i < tbl.buckets.length := by
        rw [hin.length, ← List.mem_range, hpre]
        simp
      have hipre : i ∉ pre := fun hmem => by
        have hnodup := hpre ▸ List.nodup_range (n := tbl.numBuckets.toNat)
        exact (List.nodup_append.mp hnodup).2.2 i hmem i List.mem_cons_self rfl
      have hb := List.getElem?_eq_getElem hi
      obtain ⟨ys, hchain, hys, -⟩ := hin.chain i _ hb
      have hdisj : ∀ y ∈ ys, y ∉ moved := fun y hy hmem' =>
        hipre (((hys y).mp hy).2 ▸ ((hmem y).mp hmem').2)
      have hlen : ys.length ≤ n :=
        (hchain.nodup.subperm fun y hy => ((hys y).mp hy).1).length_le.trans hn
      obtain ⟨r', hr', hin'', hsame'⟩ := rehashChain_spec (idealChainMaxlen tbl) hin'
        hchain.nodup hdisj (hchain.forth.congr fun y hy => (hsame y (hdisj y hy)).1) hlen
      refine ⟨r', ?_, ys ++ moved, fun x => ?_, hin'', fun y hy => ?_⟩
      · rw [UtHashTable.bkt_eq.mpr hb]
        exact hr'
      · rw [List.mem_append, hys, hmem, List.mem_append, List.mem_singleton, ← and_or_left,
          or_comm]
      · rw [(hsame' y hy).1, (hsame' y hy).2]
        exact hsame y fun hmem' => hy (List.mem_append_right ys hmem'))
    ⟨[], by simp, .zero hnum (by omega), fun _ _ => ⟨rfl, rfl⟩⟩
  have hall : ∀ x, x ∈ moved ↔ x ∈ xs := fun x => by
    rw [hmem, List.mem_range, and_iff_left (hashToBkt_lt hpos)]
  exact ⟨r, hfold, hin'.congr (fun x => (hall x).symm) (fun _ _ => rfl) (fun _ _ => rfl)
    fun _ _ => rfl, fun y hy => hsame y fun hmem' => hy ((hall y).mp hmem')⟩

/-- **`HASH_EXPAND_BUCKETS`** keeps every element in its bucket, unless there is no memory for twice
as many buckets. -/
lemma expandBuckets_spec {mem : ℕ} (hmem : mem < 2 ^ 36) (htbl : h.headTbl = .ok tbl)
    (hn : xs.length ≤ n)
    (hin : InBuckets h.hhNext h.hhPrev h.hashv tbl.numBuckets tbl.buckets xs) :
    h.expandBuckets n mem = .error .outOfMemory ∨
      ∃ r, h.expandBuckets n mem = .ok { h with
          hhPrev := r.hhPrev
          hhNext := r.hhNext
          tbl := some (expanded tbl r) } ∧
        InBuckets r.hhNext r.hhPrev h.hashv (expanded tbl r).numBuckets (expanded tbl r).buckets
          xs ∧
        ∀ y ∉ xs, r.hhNext y = h.hhNext y ∧ r.hhPrev y = h.hhPrev y := by
  rw [expandBuckets, htbl]
  by_cases hsize : 2 * tbl.numBuckets.toNat * sizeofUtHashBucket ≤ mem
  · have hnum : (tbl.numBuckets * 2).toNat = 2 * tbl.numBuckets.toNat := by
      have hlt : tbl.numBuckets.toNat * 2 < 2 ^ 32 := by
        rw [sizeofUtHashBucket] at hsize
        omega
      rw [UInt32.toNat_mul, show (2 : UInt32).toNat = 2 from rfl, Nat.mod_eq_of_lt hlt, mul_comm]
    obtain ⟨r, hr, hin', hsame⟩ := rehashAll_spec hnum hn hin
    refine .inr ⟨r, ?_, hin', hsame⟩
    simp [uthashMalloc, hsize, hr, bind, Except.bind, pure, Except.pure]
  · exact .inl (by simp [uthashMalloc, hsize, bind, Except.bind])

end Uthash

end TsEngine
