import TsEngine.Store.BucketChains
import TsEngine.Store.Unlocked

/-!
# What a reader without a lock sees

`ts_docid_foreach` loads `next` before it goes through the slots of a bucket.  If there is a next
bucket, the one at hand is full, and if there is none, whatever is linked later was appended after
the traversal began.  `ts_docid_container_next` loads `next` after it has found that the slots are
used up; if the appender fills the bucket and links another one in between, the reader goes there
and skips what came in.

`unlocked_reader` says that a reader sees a prefix of what is appended, and all that was there
before it began, as long as it does not leave a bucket in that way (`Orderly`).
-/

namespace TsEngine

open Framework System RawContainer

variable {α : Type}

/-! ## What a history says -/

/-- The argument of the call that a step makes. -/
def calledBy : Unlocked α × UnlockedStep α → Option α
  | (_, .call docid) => some docid
  | _ => none

/-- The argument of the call that a step completes. -/
def appendedBy : Unlocked α × UnlockedStep α → Option α
  | (s, .append) =>
      match s.appending with
      | some (docid, .incrTotal) => some docid
      | _ => none
  | _ => none

/-- What had been appended when the traversal began. -/
def before : List (Unlocked α × UnlockedStep α) → List α
  | [] => []
  | (_, .start _) :: l => notes appendedBy l
  | _ :: l => before l

/-- The reader sees a prefix of what is appended, and at its end all that was there before. -/
structure SeesPrefix (l : List (Unlocked α × UnlockedStep α)) (s : Unlocked α) : Prop where
  obtained : ∃ ids, s.obtained = ids.map some ∧ ids <+: notes calledBy l
  complete : s.reader = .finished → (before l).map some <+: s.obtained

/-- There is room for another id; and a reader with `ts_docid_container_next` that is about to go on
to another bucket has used up the one it leaves. -/
def Orderly : Unlocked α × UnlockedStep α → Prop
  | (s, .call _) => s.container.total < containerCapacity
  | (s, .read) =>
      match s.reader with
      | .nextBucket it =>
          ∀ cell ∈ it.bkt.bind s.mem.cells, cell.next ≠ none → cell.data.offset ≤ it.offset
      | _ => True
  | _ => True

instance : DecidablePred (Orderly (α := α)) := fun q =>
  match q with
  | (s, .call _) => inferInstanceAs (Decidable (s.container.total < containerCapacity))
  | (s, .read) =>
      match h : s.reader with
      | .nextBucket it =>
          decidable_of_iff (∀ cell ∈ it.bkt.bind s.mem.cells, cell.next ≠ none →
            cell.data.offset ≤ it.offset) (by simp only [Orderly, h])
      | .ready | .foreachBucket _ | .foreachOffset .. | .foreachId .. | .nextOffset _ | .nextId _
      | .finished => .isTrue (by simp only [Orderly, h])
  | (_, .append) | (_, .start _) => inferInstanceAs (Decidable True)

/-! ## The appender -/

/-- What a call has not stored yet. -/
def waiting : Option (α × AppendPc) → List α
  | none | some (_, .incrOffset) | some (_, .incrTotal) => []
  | some (docid, _) => [docid]

namespace BucketChain

variable {v : BucketChain α} {c : RawContainer} {m : BucketMemory α} {docid : α}

/-- The container belongs to the chain, as between two calls. -/
structure Settled (v : BucketChain α) (c : RawContainer) : Prop where
  pending : v.pending = []
  tail : c.tail = some v.ptr
  len : c.len = v.full.length + 1
  allocSize : c.allocSize = bucketSize * 2 ^ v.full.length

/-- The last bucket is full, and the size of the next one is set. -/
structure Doubled (v : BucketChain α) (c : RawContainer) : Prop where
  pending : v.pending = []
  tail : c.tail = some v.ptr
  len : c.len = v.full.length + 1
  allocSize : c.allocSize = bucketSize * 2 ^ (v.full.length + 1)
  small : c.allocSize < 2 ^ 32
  filled : v.last.ids.length = v.last.size

/-- The last bucket is new, and not counted yet. -/
structure Extended (v : BucketChain α) (c : RawContainer) : Prop where
  pending : v.pending = []
  len : c.len = v.full.length
  allocSize : c.allocSize = bucketSize * 2 ^ v.full.length
  empty : v.last.ids = []

/-- The container and the call that is at work on it. -/
def Appends (v : BucketChain α) (c : RawContainer) (m : BucketMemory α) :
    Option (α × AppendPc) → Prop
  | none | some (_, .reserve) | some (_, .incrTotal) => v.Settled c
  | some (_, .doubleSize) => v.Settled c ∧ v.last.ids.length = v.last.size
  | some (_, .bucketNew first) => first = false ∧ v.Doubled c
  | some (_, .link first bkt) => first = false ∧ v.Doubled c ∧ bkt ∉ v.ptrs ∧
      m.cells bkt = some ⟨(DocidBucket.new c.allocSize).data [], none⟩
  | some (_, .setTail bkt) => bkt = v.ptr ∧ v.Extended c
  | some (_, .incrLen) => c.tail = some v.ptr ∧ v.Extended c
  | some (_, .storeId) => v.Settled c ∧ v.last.ids.length < v.last.size
  | some (docid, .incrOffset) => v.pending = [docid] ∧ { v with pending := [] }.Settled c

/-- What is not published belongs to the call at work. -/
lemma Appends.length_le {a : Option (α × AppendPc)} (h : v.Appends c m a) :
    v.pending.length + (waiting a).length ≤ (a.map Prod.fst).toList.length := by
  match a, h with
  | none, h => simp [h.pending, waiting]
  | some (_, .reserve), h => simp [h.pending, waiting]
  | some (_, .incrTotal), h => simp [h.pending, waiting]
  | some (_, .doubleSize), h => simp [h.1.pending, waiting]
  | some (_, .bucketNew _), h => simp [h.2.pending, waiting]
  | some (_, .link _ _), h => simp [h.2.1.pending, waiting]
  | some (_, .setTail _), h => simp [h.2.pending, waiting]
  | some (_, .incrLen), h => simp [h.2.pending, waiting]
  | some (_, .storeId), h => simp [h.1.pending, waiting]
  | some (_, .incrOffset), h => simp [h.1, waiting]

/-- The size of another bucket does not wrap. -/
lemma InMemory.double_lt {head : Option BucketPtr} (h : v.InMemory m head)
    (hfilled : v.last.ids.length = v.last.size) (hroom : v.published < containerCapacity) :
    bucketSize * 2 ^ v.full.length * 2 < 2 ^ 32 := by
  have hids : idsOf v.full = (v.full.map Prod.snd).flatMap DocidBucket.ids := by
    rw [idsOf, List.flatMap_map]
  have hlength := DocidBuckets.length_flatMap_full h.sizes h.filled
  rw [← hids, List.length_map, bucketSize] at hlength
  have hsize := h.size
  rw [published, hlength, hfilled, hsize, containerCapacity, bucketSize] at hroom
  have hpos : 1 ≤ 2 ^ v.full.length := Nat.one_le_two_pow
  rw [bucketSize]
  omega

lemma InMemory.length_lt {head : Option BucketPtr} (h : v.InMemory m head) :
    v.full.length + 1 < 2 ^ 32 := by
  have hlt : v.full.length < 2 ^ v.full.length := Nat.lt_two_pow_self
  have hsmall := h.small
  rw [h.size, bucketSize] at hsmall
  omega

/-- Whether there is a slot. -/
lemma Settled.exec_reserve (ha : v.Settled c) (h : v.InMemory m c.head) (docid : α) :
    AppendPc.reserve.exec docid c m = .ok (if v.last.ids.length < v.last.size then some .storeId
      else some .doubleSize, c, m) := by
  have hcell : m.deref c.tail = .ok (v.ptr, ⟨v.last.data v.pending, none⟩) :=
    ha.tail ▸ Heap.deref_of_cells h.cell
  have hfits : v.last.ids.length ≤ v.last.size := by simpa [ha.pending] using h.fits
  have hsub : subU32 (v.last.data v.pending).size (v.last.data v.pending).offset =
      v.last.size - v.last.ids.length := subU32_eq h.small hfits
  have hlen : ¬c.len = 0 := by
    rw [ha.len]
    omega
  rw [AppendPc.exec, if_neg hlen]
  refine bind_eq_ok.mpr ⟨_, hcell, ?_⟩
  simp only [hsub, Nat.sub_pos_iff_lt]
  rfl

/-- **A step of a call** lets the chain grow by what is waiting, or not at all. -/
lemma Appends.exec {pc : AppendPc} (h : v.InMemory m c.head)
    (ha : v.Appends c m (some (docid, pc)))
    (hroom : (idsOf v.stored ++ waiting (some (docid, pc))).length ≤ containerCapacity) :
    ∃ (pc' : Option AppendPc) (c' : RawContainer) (m' : BucketMemory α) (v' : BucketChain α),
      pc.exec docid c m = .ok (pc', c', m') ∧ v'.InMemory m' c'.head ∧
      v'.Appends c' m' (pc'.map (Prod.mk docid)) ∧ Grows v.stored v'.stored ∧
      idsOf v'.stored ++ waiting (pc'.map (Prod.mk docid)) =
        idsOf v.stored ++ waiting (some (docid, pc)) ∧
      (pc' = none ↔ pc = .incrTotal) ∧
      c'.total = if pc = .incrTotal then (c.total + 1) % 2 ^ 32 else c.total := by
  have hgrows := Grows.refl v.stored
  match pc, ha with
  | .reserve, ha =>
      have hok := ha.exec_reserve h docid
      by_cases hlt : v.last.ids.length < v.last.size
      · rw [if_pos hlt] at hok
        exact ⟨_, c, m, v, hok, h, ⟨ha, hlt⟩, hgrows, rfl, by simp, by simp⟩
      · rw [if_neg hlt] at hok
        have hfits : v.last.ids.length ≤ v.last.size := by simpa [ha.pending] using h.fits
        exact ⟨_, c, m, v, hok, h, ⟨ha, by omega⟩, hgrows, rfl, by simp, by simp⟩
  | .doubleSize, ⟨ha, hfilled⟩ =>
      have hpublished : v.published < containerCapacity := by
        rw [List.length_append, length_idsOf_stored] at hroom
        simp only [waiting, List.length_singleton] at hroom
        omega
      have hlt := h.double_lt hfilled hpublished
      have hmod : (c.allocSize * 2) % 2 ^ 32 = bucketSize * 2 ^ (v.full.length + 1) := by
        rw [ha.allocSize, Nat.mod_eq_of_lt hlt, pow_succ, mul_assoc]
      refine ⟨some (.bucketNew false), _, m, v, rfl, h, ⟨rfl, ha.pending, ha.tail, ha.len, hmod, ?_,
        hfilled⟩, hgrows, rfl, by simp, by simp⟩
      exact Nat.mod_lt _ (by norm_num)
  | .bucketNew first, ⟨hfirst, ha⟩ =>
      refine ⟨some (.link first m.next), c, _, v, rfl, h.frame fun p hp => ?_,
        ⟨hfirst, ha, fun hm => absurd (h.lt_next _ hm) (lt_irrefl _), Heap.cells_alloc_self _⟩,
        hgrows, rfl, by simp, by simp⟩
      exact Heap.cells_alloc_of_ne _ (h.lt_next p hp).ne
  | .link first bkt, ⟨hfirst, ha, hbkt, hcell⟩ =>
      subst hfirst
      obtain ⟨m', hok, h'⟩ := h.link ha.pending ha.filled hbkt hcell ha.allocSize ha.small
      have hstored : stored (.mk (v.full ++ [(v.ptr, v.last)]) bkt (.new c.allocSize) []) =
          v.stored ++ [(bkt, DocidBucket.new c.allocSize)] := by
        simp [stored, ha.pending, DocidBucket.new]
      refine ⟨some (.setTail bkt), c, m', _, ?_, h', ⟨rfl, rfl, ?_, ?_, rfl⟩, ?_, ?_, by simp,
        by simp⟩
      · exact bind_eq_ok.mpr ⟨m', ha.tail ▸ hok, rfl⟩
      · simp [ha.len]
      · simp [ha.allocSize]
      · exact hstored ▸ grows_link v.stored _
      · rw [hstored, idsOf_append, idsOf_singleton, DocidBucket.new, List.append_nil]
        rfl
  | .setTail bkt, ⟨hbkt, ha⟩ =>
      subst hbkt
      exact ⟨some .incrLen, _, m, v, rfl, h, ⟨rfl, ha.pending, ha.len, ha.allocSize, ha.empty⟩,
        hgrows, rfl, by simp, by simp⟩
  | .incrLen, ⟨htail, ha⟩ =>
      have hlen : (c.len + 1) % 2 ^ 32 = v.full.length + 1 := by
        rw [ha.len, Nat.mod_eq_of_lt h.length_lt]
      have hpos : v.last.ids.length < v.last.size := by
        rw [ha.empty, h.size, bucketSize]
        exact Nat.mul_pos (by norm_num) (by positivity)
      exact ⟨some .storeId, _, m, v, rfl, h, ⟨⟨ha.pending, htail, hlen, ha.allocSize⟩, hpos⟩,
        hgrows, rfl, by simp, by simp⟩
  | .storeId, ⟨ha, hlt⟩ =>
      obtain ⟨m', hok, h'⟩ := h.storeId ha.pending hlt docid
      refine ⟨some .incrOffset, c, m', _, ?_, h', ⟨rfl, rfl, ha.tail, ha.len, ha.allocSize⟩, ?_, ?_,
        by simp, by simp⟩
      · exact bind_eq_ok.mpr ⟨m', ha.tail ▸ hok, rfl⟩
      · exact grows_push (by simp [ha.pending]) rfl
      · simp [idsOf_stored, ha.pending, waiting]
  | .incrOffset, ⟨hpending, ha⟩ =>
      obtain ⟨m', hok, h'⟩ := h.incrOffset hpending
      have htail : c.tail = some v.ptr := ha.tail
      have hstored : { v with last := v.last.push docid, pending := [] }.stored = v.stored := by
        simp [stored, hpending, DocidBucket.push]
      refine ⟨some .incrTotal, c, m', _, ?_, h', ⟨rfl, ha.tail, ha.len, ha.allocSize⟩,
        hstored ▸ hgrows, ?_, by simp, by simp⟩
      · exact bind_eq_ok.mpr ⟨m', htail ▸ hok, rfl⟩
      · rw [hstored]
        rfl
  | .incrTotal, ha =>
      exact ⟨none, _, m, v, rfl, h, ⟨ha.pending, ha.tail, ha.len, ha.allocSize⟩, hgrows, rfl,
        by simp, by simp⟩

end BucketChain

/-! ## The reader -/

section Readers

variable {cs cs' pre post : List (BucketPtr × DocidBucket α)} {ids : List α} {r : BucketPtr}
  {o n : ℕ} {b : DocidBucket α}

/-- What has been obtained is what the buckets before `r` hold, and the first `o` slots of `r`. -/
structure ReadTo (cs : List (BucketPtr × DocidBucket α)) (ids : List α) (r : BucketPtr) (o : ℕ)
    (pre : List (BucketPtr × DocidBucket α)) (b : DocidBucket α)
    (post : List (BucketPtr × DocidBucket α)) : Prop where
  split : cs = pre ++ (r, b) :: post
  ids : ids = idsOf pre ++ b.ids.take o
  le : o ≤ b.ids.length

lemma ReadTo.length (h : ReadTo cs ids r o pre b post) : ids.length = (idsOf pre).length + o := by
  rw [h.ids, List.length_append, List.length_take, Nat.min_eq_left h.le]

lemma ReadTo.isPrefix (h : ReadTo cs ids r o pre b post) : ids <+: idsOf cs := by
  rw [h.split, h.ids, idsOf_append, idsOf_cons, List.prefix_append_right_inj]
  exact (List.take_prefix o b.ids).trans (List.prefix_append _ _)

/-- One more slot. -/
lemma ReadTo.succ (h : ReadTo cs ids r o pre b post) {x : α} (hx : b.ids[o]? = some x) :
    ReadTo cs (ids ++ [x]) r (o + 1) pre b post := by
  obtain ⟨hlt, rfl⟩ := List.getElem?_eq_some_iff.mp hx
  refine ⟨h.split, ?_, hlt⟩
  rw [h.ids, List.append_assoc, List.take_concat_get' b.ids o hlt]

/-- The next bucket. -/
lemma ReadTo.next (h : ReadTo cs ids r o pre b post) (hend : b.ids.length ≤ o) {t : BucketPtr}
    (ht : post.head?.map Prod.fst = some t) :
    ∃ b' post', ReadTo cs ids t 0 (pre ++ [(r, b)]) b' post' := by
  obtain ⟨⟨t', b'⟩, hhead, rfl⟩ := Option.map_eq_some_iff.mp ht
  obtain ⟨post', rfl⟩ := List.head?_eq_some_iff.mp hhead
  refine ⟨b', post', by simp [h.split], ?_, Nat.zero_le _⟩
  rw [h.ids, idsOf_append, idsOf_singleton, List.take_of_length_le hend, List.take_zero,
    List.append_nil]

lemma ReadTo.grow (h : ReadTo cs ids r o pre b post) (hg : Grows cs cs') :
    ∃ b' post', ReadTo cs' ids r o pre b' post' ∧ b.ids <+: b'.ids ∧ b'.size = b.size ∧
      (post ≠ [] → b' = b ∧ post' ≠ [] ∧ post'.head?.map Prod.fst = post.head?.map Prod.fst) := by
  obtain ⟨b', post', hsplit, hids, hsize, hpost⟩ := hg pre r b post h.split
  refine ⟨b', post', ⟨hsplit, ?_, h.le.trans hids.length_le⟩, hids, hsize, hpost⟩
  obtain ⟨rest, hrest⟩ := hids
  rw [h.ids, ← hrest, List.take_append_of_le_length h.le]

/-- What the `next` that has been loaded says: the bucket it leads to; or that the bucket at hand
holds all there was before the traversal. -/
def Ahead (n : ℕ) (tmp : Option BucketPtr) (pre : List (BucketPtr × DocidBucket α))
    (b : DocidBucket α) (post : List (BucketPtr × DocidBucket α)) : Prop :=
  match tmp with
  | none => n ≤ (idsOf pre).length + b.ids.length
  | some t => post.head?.map Prod.fst = some t

/-- A reader that has obtained `ids`, where `n` ids were there before it began. -/
def ReaderPc.Reads (cs : List (BucketPtr × DocidBucket α)) (n : ℕ) (ids : List α) : ReaderPc → Prop
  | .ready => ids = []
  | .foreachBucket none | .nextOffset ⟨none, _⟩ | .nextId ⟨none, _⟩ | .finished =>
      ids <+: idsOf cs ∧ n ≤ ids.length
  | .foreachBucket (some r) => ∃ pre b post, ReadTo cs ids r 0 pre b post
  | .foreachOffset bkt tmp o => ∃ r pre b post, bkt = some r ∧ ReadTo cs ids r o pre b post ∧
      Ahead n tmp pre b post
  | .foreachId bkt tmp o => ∃ r pre b post, bkt = some r ∧ ReadTo cs ids r o pre b post ∧
      Ahead n tmp pre b post ∧ o < b.ids.length
  | .nextOffset ⟨some r, o⟩ => ∃ pre b post, ReadTo cs ids r o pre b post
  | .nextBucket ⟨bkt, o⟩ => ∃ r pre b post, bkt = some r ∧ ReadTo cs ids r o pre b post ∧
      (n ≤ ids.length ∨ post ≠ [] ∧ b.ids.length ≤ o)
  | .nextId ⟨some r, o⟩ => ∃ pre b post, ReadTo cs ids r o pre b post ∧ o < b.size

lemma Ahead.grow {tmp : Option BucketPtr} (h : Ahead n tmp pre b post) {b' : DocidBucket α}
    {post' : List (BucketPtr × DocidBucket α)} (hids : b.ids <+: b'.ids)
    (hpost : post ≠ [] → post'.head?.map Prod.fst = post.head?.map Prod.fst) :
    Ahead n tmp pre b' post' := by
  cases tmp with
  | none =>
      have hn : n ≤ (idsOf pre).length + b.ids.length := h
      exact hn.trans (Nat.add_le_add_left hids.length_le _)
  | some t =>
      have ht : post.head?.map Prod.fst = some t := h
      exact (hpost (by rintro rfl; simp at ht)).trans ht

namespace ReaderPc

variable {pc : ReaderPc}

/-- A traversal with `ts_docid_foreach`, or one that has not begun. -/
def IsForeach : ReaderPc → Prop
  | .nextOffset _ | .nextBucket _ | .nextId _ => False
  | _ => True

lemma IsForeach.exec {m : BucketMemory α} {r : ReaderPc × Option (Option α)} (h : pc.IsForeach)
    (hok : pc.exec m = .ok r) : r.1.IsForeach := by
  match pc, h with
  | .ready, _ | .finished, _ | .foreachBucket none, _ => exact Except.ok.inj hok ▸ trivial
  | .foreachBucket (some _), _ | .foreachId .., _ =>
      obtain ⟨_, -, hok⟩ := bind_eq_ok.mp hok
      exact Except.ok.inj hok ▸ trivial
  | .foreachOffset bkt tmp o, _ =>
      obtain ⟨_, -, hok⟩ := bind_eq_ok.mp hok
      obtain rfl := Except.ok.inj hok
      dsimp only
      split_ifs <;> trivial

/-- What is obtained is a prefix of what is stored. -/
lemma Reads.isPrefix (h : pc.Reads cs n ids) : ids <+: idsOf cs := by
  match pc, h with
  | .ready, h => exact h ▸ List.nil_prefix
  | .foreachBucket none, h | .nextOffset ⟨none, _⟩, h | .nextId ⟨none, _⟩, h | .finished, h =>
      exact h.1
  | .foreachBucket (some _), ⟨_, _, _, h⟩ => exact h.isPrefix
  | .foreachOffset .., ⟨_, _, _, _, _, h, _⟩ => exact h.isPrefix
  | .foreachId .., ⟨_, _, _, _, _, h, _⟩ => exact h.isPrefix
  | .nextOffset ⟨some _, _⟩, ⟨_, _, _, h⟩ => exact h.isPrefix
  | .nextBucket ⟨_, _⟩, ⟨_, _, _, _, _, h, _⟩ => exact h.isPrefix
  | .nextId ⟨some _, _⟩, ⟨_, _, _, h, _⟩ => exact h.isPrefix

/-- **A reader does not notice that the chain grows.** -/
lemma Reads.grow (h : pc.Reads cs n ids) (hg : Grows cs cs') : pc.Reads cs' n ids := by
  match pc, h with
  | .ready, h => exact h
  | .foreachBucket none, h | .nextOffset ⟨none, _⟩, h | .nextId ⟨none, _⟩, h | .finished, h =>
      exact ⟨h.1.trans hg.idsOf_isPrefix, h.2⟩
  | .foreachBucket (some _), ⟨pre, b, post, h⟩ =>
      obtain ⟨b', post', h', -⟩ := h.grow hg
      exact ⟨pre, b', post', h'⟩
  | .foreachOffset .., ⟨r, pre, b, post, hbkt, h, hahead⟩ =>
      obtain ⟨b', post', h', hb, -, hpost⟩ := h.grow hg
      exact ⟨r, pre, b', post', hbkt, h', hahead.grow hb fun hne => (hpost hne).2.2⟩
  | .foreachId .., ⟨r, pre, b, post, hbkt, h, hahead, hlt⟩ =>
      obtain ⟨b', post', h', hb, -, hpost⟩ := h.grow hg
      exact ⟨r, pre, b', post', hbkt, h', hahead.grow hb fun hne => (hpost hne).2.2,
        hlt.trans_le hb.length_le⟩
  | .nextOffset ⟨some _, _⟩, ⟨pre, b, post, h⟩ =>
      obtain ⟨b', post', h', -⟩ := h.grow hg
      exact ⟨pre, b', post', h'⟩
  | .nextBucket ⟨_, _⟩, ⟨r, pre, b, post, hbkt, h, hor⟩ =>
      obtain ⟨b', post', h', -, -, hpost⟩ := h.grow hg
      refine ⟨r, pre, b', post', hbkt, h', hor.imp_right fun ⟨hne, hend⟩ => ?_⟩
      obtain ⟨rfl, hne', -⟩ := hpost hne
      exact ⟨hne', hend⟩
  | .nextId ⟨some _, _⟩, ⟨pre, b, post, h, hlt⟩ =>
      obtain ⟨b', post', h', -, hsize, -⟩ := h.grow hg
      exact ⟨pre, b', post', h', hsize ▸ hlt⟩

/-- The start of a traversal. -/
lemma reads_start {v : BucketChain α} {m : BucketMemory α} {c : RawContainer} (kind : Traversal)
    (h : v.InMemory m c.head) : (start kind c).Reads v.stored n ([] : List α) := by
  obtain ⟨⟨r, b⟩, post, hcs⟩ : ∃ d post, v.stored = d :: post :=
    List.exists_cons_of_ne_nil (by simp [BucketChain.stored])
  have hhead : c.head = some r := by
    rw [BucketChain.start_eq_or h.linked]
    have hfst := congrArg (fun l => l.head?.map Prod.fst) hcs
    cases hfull : v.full <;> simp_all [BucketChain.stored, chainCells]
  have hread : ReadTo v.stored [] r 0 [] b post := ⟨hcs, rfl, Nat.zero_le _⟩
  cases kind with
  | foreach =>
      rw [start, hhead]
      exact ⟨[], b, post, hread⟩
  | next =>
      rw [start, RawIterator.init, hhead]
      exact ⟨[], b, post, hread⟩

section

variable {v : BucketChain α} {m : BucketMemory α} {data : BucketData α} {tmp : Option BucketPtr}

/-- A reader behind the `offset` of a bucket has obtained what was there before it began, or all
that the bucket can hold. -/
lemma caught_up (h : ReadTo v.stored ids r o pre b post) (hload : v.Loads m pre r b post data)
    (hn : n ≤ v.published) (hend : data.offset ≤ o) :
    n ≤ ids.length ∨ post ≠ [] ∧ b.ids.length ≤ o := by
  by_cases hpost : post = []
  · left
    rw [h.length]
    have hpublished := hload.last hpost
    omega
  · exact .inr ⟨hpost, (hload.full hpost).1 ▸ hend⟩

/-- The end of a bucket in `ts_docid_foreach`. -/
lemma reads_foreachBucket (h : ReadTo v.stored ids r o pre b post)
    (hload : v.Loads m pre r b post data) (hahead : Ahead n tmp pre b post) (hn : n ≤ v.published)
    (hend : data.offset ≤ o) : (foreachBucket tmp).Reads v.stored n ids := by
  cases tmp with
  | none =>
      -- what came in after `next` was loaded may be here or in later buckets
      have hn' : n ≤ (idsOf pre).length + b.ids.length := hahead
      refine ⟨h.isPrefix, ?_⟩
      rcases caught_up h hload hn hend with hle | ⟨-, hle⟩
      · exact hle
      · rw [h.length]
        omega
  | some t =>
      have ht : post.head?.map Prod.fst = some t := hahead
      have hpost : post ≠ [] := by
        rintro rfl
        simp at ht
      obtain ⟨b', post', h'⟩ := h.next ((hload.full hpost).1 ▸ hend) ht
      exact ⟨_, b', post', h'⟩

/-- The end of a bucket in `ts_docid_container_next`. -/
lemma reads_nextId {head : Option BucketPtr} (hmem : v.InMemory m head)
    (h : ReadTo v.stored ids r o pre b post) (hload : v.Loads m pre r b post data)
    (hor : n ≤ ids.length ∨ post ≠ [] ∧ b.ids.length ≤ o) (hleave : post ≠ [] → data.offset ≤ o) :
    (nextId ⟨post.head?.map Prod.fst, 0⟩).Reads v.stored n ids := by
  cases post with
  | nil => exact ⟨h.isPrefix, hor.resolve_right fun hr => hr.1 rfl⟩
  | cons c post =>
      have hpost : c :: post ≠ [] := List.cons_ne_nil _ _
      obtain ⟨b', post', h'⟩ := h.next ((hload.full hpost).1 ▸ hleave hpost) rfl
      obtain ⟨data', hload'⟩ := hmem.load h'.split
      exact ⟨_, b', post', h', hload'.pos⟩

end

/-- **A step of a reader** that leaves no id behind. -/
lemma Reads.exec {v : BucketChain α} {m : BucketMemory α} {head : Option BucketPtr}
    (h : pc.Reads v.stored n ids) (hmem : v.InMemory m head) (hn : n ≤ v.published)
    (hleave : ∀ it, pc = .nextBucket it → ∀ cell ∈ it.bkt.bind m.cells, cell.next ≠ none →
      cell.data.offset ≤ it.offset) :
    ∃ (pc' : ReaderPc) (id : Option (Option α)) (new : List α), pc.exec m = .ok (pc', id) ∧
      id.toList = new.map some ∧ pc'.Reads v.stored n (ids ++ new) := by
  have hids : ids ++ [] = ids := List.append_nil ids
  match pc, h with
  | .ready, h =>
      refine ⟨.ready, none, [], rfl, rfl, ?_⟩
      rwa [hids]
  | .foreachBucket none, h | .nextId ⟨none, _⟩, h | .finished, h =>
      refine ⟨.finished, none, [], rfl, rfl, ?_⟩
      rw [hids]
      exact h
  | .nextOffset ⟨none, o⟩, h =>
      refine ⟨.nextId ⟨none, o⟩, none, [], rfl, rfl, ?_⟩
      rw [hids]
      exact h
  | .foreachBucket (some r), ⟨pre, b, post, h⟩ =>
      obtain ⟨data, hload⟩ := hmem.load h.split
      have hahead : Ahead n (post.head?.map Prod.fst) pre b post := by
        cases post with
        | nil =>
            have hpublished := hload.last rfl
            have hle := hload.offset_le
            show n ≤ _
            omega
        | cons c post => rfl
      exact ⟨.foreachOffset (some r) (post.head?.map Prod.fst) 0, none, [],
        bind_eq_ok.mpr ⟨_, Heap.deref_of_cells hload.cell, rfl⟩, rfl,
        r, pre, b, post, rfl, hids.symm ▸ h, hahead⟩
  | .foreachOffset bkt tmp o, ⟨r, pre, b, post, hbkt, h, hahead⟩ =>
      subst hbkt
      obtain ⟨data, hload⟩ := hmem.load h.split
      refine ⟨_, none, [], bind_eq_ok.mpr ⟨_, Heap.deref_of_cells hload.cell, rfl⟩, rfl, ?_⟩
      rw [hids]
      by_cases hlt : o < data.offset
      · rw [if_pos hlt]
        exact ⟨r, pre, b, post, rfl, h, hahead, hlt.trans_le hload.offset_le⟩
      · rw [if_neg hlt]
        exact reads_foreachBucket h hload hahead hn (not_lt.mp hlt)
  | .foreachId bkt tmp o, ⟨r, pre, b, post, hbkt, h, hahead, hlt⟩ =>
      subst hbkt
      obtain ⟨data, hload⟩ := hmem.load h.split
      have hsmall := hload.small
      have hfits := hload.fits
      have hmod : (o + 1) % 2 ^ 32 = o + 1 := Nat.mod_eq_of_lt (by omega)
      have hget : b.ids[o]? = some b.ids[o] := List.getElem?_eq_getElem hlt
      refine ⟨.foreachOffset (some r) tmp (o + 1), some (some b.ids[o]), [b.ids[o]],
        bind_eq_ok.mpr ⟨_, hload.id o (by omega), ?_⟩, rfl, r, pre, b, post, rfl, h.succ hget,
        hahead⟩
      rw [hget, hmod]
      rfl
  | .nextOffset ⟨some r, o⟩, ⟨pre, b, post, h⟩ =>
      obtain ⟨data, hload⟩ := hmem.load h.split
      refine ⟨_, none, [], bind_eq_ok.mpr ⟨_, Heap.deref_of_cells hload.cell, rfl⟩, rfl, ?_⟩
      rw [hids]
      by_cases hend : data.offset ≤ o
      · rw [if_pos hend]
        exact ⟨r, pre, b, post, rfl, h, caught_up h hload hn hend⟩
      · rw [if_neg hend]
        have hle := hload.offset_le
        have hfits := hload.fits
        exact ⟨pre, b, post, h, by omega⟩
  | .nextBucket ⟨bkt, o⟩, ⟨r, pre, b, post, hbkt, h, hor⟩ =>
      subst hbkt
      obtain ⟨data, hload⟩ := hmem.load h.split
      refine ⟨_, none, [], bind_eq_ok.mpr ⟨_, Heap.deref_of_cells hload.cell, rfl⟩, rfl, ?_⟩
      rw [hids]
      refine reads_nextId hmem h hload hor fun hpost => hleave _ rfl _ hload.cell ?_
      simpa using hpost
  | .nextId ⟨some r, o⟩, ⟨pre, b, post, h, hlt⟩ =>
      obtain ⟨data, hload⟩ := hmem.load h.split
      cases hget : b.ids[o]? with
      | none =>
          -- an empty slot, and so the last bucket
          have hend := List.getElem?_eq_none_iff.mp hget
          have hn' := (caught_up h hload hn (hload.offset_le.trans hend)).resolve_right
            fun ⟨hpost, hle⟩ => absurd (hload.full hpost).2 (by omega)
          refine ⟨.finished, none, [], bind_eq_ok.mpr ⟨_, hload.id o hlt, ?_⟩, rfl, ?_⟩
          · rw [hget]
            rfl
          · rw [hids]
            exact ⟨h.isPrefix, hn'⟩
      | some x =>
          have hsmall := hload.small
          have hmod : (o + 1) % 2 ^ 32 = o + 1 := Nat.mod_eq_of_lt (by omega)
          refine ⟨.nextOffset ⟨some r, o + 1⟩, some (some x), [x],
            bind_eq_ok.mpr ⟨_, hload.id o hlt, ?_⟩, rfl, pre, b, post, h.succ hget⟩
          rw [hget, hmod]
          rfl

end ReaderPc

end Readers

/-! ## Both threads -/

section Results

variable {l : List (Unlocked α × UnlockedStep α)} {s : Unlocked α} {v : BucketChain α}
  {c : RawContainer} {m m' : BucketMemory α}

/-- What holds after any orderly steps. -/
structure Consistent (v : BucketChain α) (l : List (Unlocked α × UnlockedStep α))
    (s : Unlocked α) : Prop where
  memory : v.InMemory s.mem s.container.head
  appender : v.Appends s.container s.mem s.appending
  called : idsOf v.stored ++ waiting s.appending = notes calledBy l
  appended : notes appendedBy l ++ (s.appending.map Prod.fst).toList = notes calledBy l
  total : s.container.total = (notes appendedBy l).length
  room : (notes calledBy l).length ≤ containerCapacity
  prior : before l <+: notes appendedBy l
  reader : ∃ ids, s.obtained = ids.map some ∧ s.reader.Reads v.stored (before l).length ids

lemma consistent_init (hinit : RawContainer.init m = .ok (c, m')) :
    Consistent ⟨[], m.next, .new bucketSize, []⟩ [] (.init c m') := by
  obtain ⟨rfl, rfl⟩ := Prod.mk.inj (Except.ok.inj hinit)
  refine ⟨?_, ⟨rfl, rfl, rfl, rfl⟩, rfl, rfl, rfl, Nat.zero_le _, List.nil_prefix, [], rfl, rfl⟩
  exact ⟨rfl, Heap.cells_alloc_self _, List.nodup_singleton _, by simp, rfl,
    by simp [DocidBucket.new, bucketSize], by simp, Nat.zero_le _⟩

/-- A completed call has been published. -/
lemma Consistent.length_le (h : Consistent v l s) :
    (notes appendedBy l).length ≤ v.published := by
  have hcalled := congrArg List.length (h.called.trans h.appended.symm)
  have hle := h.appender.length_le
  rw [List.length_append, List.length_append, BucketChain.length_idsOf_stored] at hcalled
  omega

lemma Consistent.call (h : Consistent v l s) (hidle : s.appending = none) (docid : α)
    (hroom : s.container.total < containerCapacity) :
    Consistent v ((s, .call docid) :: l) { s with appending := some (docid, .reserve) } := by
  have happender := h.appender
  have hcalled := h.called
  have happended := h.appended
  rw [hidle] at happender hcalled happended
  refine ⟨h.memory, happender, ?_, ?_, ?_, ?_, ?_, h.reader⟩
  · simpa [notes_cons, calledBy, waiting] using hcalled
  · simpa [notes_cons, calledBy, appendedBy] using happended
  · simpa [notes_cons, appendedBy] using h.total
  · rw [h.total] at hroom
    simpa [notes_cons, calledBy, ← happended] using hroom
  · simpa [notes_cons, appendedBy, before] using h.prior

lemma Consistent.append (h : Consistent v l s) {docid : α} {pc : AppendPc}
    (hpc : s.appending = some (docid, pc)) :
    ∃ s' v', Unlocked.exec .append s = .ok s' ∧ Consistent v' ((s, .append) :: l) s' := by
  have hcalled := h.called
  have happended := h.appended
  have happender := h.appender
  rw [hpc] at hcalled happended happender
  obtain ⟨pc', c', m', v', hok, hmem, happends, hgrows, hids, hnone, htotal⟩ :=
    happender.exec h.memory (hcalled ▸ h.room)
  obtain ⟨ids, hobtained, hreads⟩ := h.reader
  have hby : appendedBy (s, .append) = if pc = .incrTotal then some docid else none := by
    simp only [appendedBy, hpc]
    cases pc <;> simp
  have hcount : (notes appendedBy l).length + 1 = (notes calledBy l).length := by
    simp [← happended]
  have hroom := h.room
  refine ⟨{ s with container := c', mem := m', appending := pc'.map (Prod.mk docid) }, v', ?_, hmem,
    happends, ?_, ?_, ?_, ?_, ?_, ids, hobtained, ?_⟩
  · rw [Unlocked.exec, hpc]
    exact bind_eq_ok.mpr ⟨_, hok, rfl⟩
  · simpa [notes_cons, calledBy, hcalled] using hids
  · rw [notes_cons, notes_cons, hby]
    by_cases hlast : pc = .incrTotal
    · simpa [hlast, hnone.mpr hlast, calledBy] using happended
    · obtain ⟨pc₁, rfl⟩ := Option.ne_none_iff_exists'.mp fun h' => hlast (hnone.mp h')
      simpa [hlast, calledBy] using happended
  · show c'.total = _
    rw [notes_cons, hby, htotal, h.total]
    split_ifs
    · rw [containerCapacity] at hroom
      simp only [Option.toList_some, List.length_append, List.length_singleton]
      omega
    · simp
  · simpa [notes_cons, calledBy] using h.room
  · rw [notes_cons]
    exact h.prior.trans (List.prefix_append _ _)
  · exact hreads.grow hgrows

/-- A step of the reader. -/
lemma Consistent.reading (h : Consistent v l s) {a : UnlockedStep α} {reader : ReaderPc}
    {obtained : List (Option α)} (hcalled : calledBy (s, a) = none)
    (happended : appendedBy (s, a) = none)
    (hprior : before ((s, a) :: l) <+: notes appendedBy l)
    (hreader : ∃ ids, obtained = ids.map some ∧
      reader.Reads v.stored (before ((s, a) :: l)).length ids) :
    Consistent v ((s, a) :: l) { s with reader, obtained } where
  memory := h.memory
  appender := h.appender
  called := by simpa [notes_cons, hcalled] using h.called
  appended := by simpa [notes_cons, hcalled, happended] using h.appended
  total := by simpa [notes_cons, happended] using h.total
  room := by simpa [notes_cons, hcalled] using h.room
  prior := by simpa [notes_cons, happended] using hprior
  reader := hreader

/-- **A step.** -/
lemma Consistent.step (h : Consistent v l s) {a : UnlockedStep α} (hen : s.Enabled a)
    (horderly : Orderly (s, a)) :
    ∃ s' v', Unlocked.exec a s = .ok s' ∧ Consistent v' ((s, a) :: l) s' := by
  cases a with
  | call docid => exact ⟨_, v, rfl, h.call (Option.isNone_iff_eq_none.mp hen) docid horderly⟩
  | append =>
      obtain ⟨⟨docid, pc⟩, hpc⟩ := Option.isSome_iff_exists.mp hen
      exact h.append hpc
  | start kind =>
      have hready : s.reader = .ready := hen
      obtain ⟨ids, hobtained, hreads⟩ := h.reader
      rw [hready] at hreads
      obtain rfl : ids = [] := hreads
      exact ⟨_, v, rfl, h.reading rfl rfl List.prefix_rfl
        ⟨[], hobtained, ReaderPc.reads_start kind h.memory⟩⟩
  | read =>
      obtain ⟨ids, hobtained, hreads⟩ := h.reader
      obtain ⟨pc', id, new, hok, hid, hreads'⟩ := hreads.exec h.memory
        (h.prior.length_le.trans h.length_le) (by
          intro it hit
          simpa only [Orderly, hit] using horderly)
      refine ⟨_, v, bind_eq_ok.mpr ⟨_, hok, rfl⟩,
        h.reading rfl rfl h.prior ⟨ids ++ new, ?_, hreads'⟩⟩
      rw [hobtained, hid, List.map_append]

lemma exists_consistent (hinit : RawContainer.init m = .ok (c, m'))
    (hrun : (unlockedSystem c m').Run l s) (horderly : ∀ q ∈ l, Orderly q) :
    ∃ v, Consistent v l s := by
  refine System.Run.invariant (fun l s => (∀ q ∈ l, Orderly q) → ∃ v, Consistent v l s)
    (fun _ => ⟨_, consistent_init hinit⟩) (fun {l s a s'} _ ih hen hexec hall => ?_) hrun horderly
  obtain ⟨v, h⟩ := ih fun q hq => hall q (List.mem_cons_of_mem _ hq)
  obtain ⟨s₁, v', hok, h'⟩ := h.step hen (hall _ List.mem_cons_self)
  obtain rfl := Except.ok.inj (hok.symm.trans hexec)
  exact ⟨v', h'⟩

lemma Consistent.seesPrefix (h : Consistent v l s) : SeesPrefix l s := by
  obtain ⟨ids, hobtained, hreads⟩ := h.reader
  have hcalled : idsOf v.stored <+: notes calledBy l := h.called ▸ List.prefix_append _ _
  have hids := hreads.isPrefix.trans hcalled
  refine ⟨⟨ids, hobtained, hids⟩, fun hfinished => ?_⟩
  rw [hfinished] at hreads
  have hbefore : before l <+: notes calledBy l :=
    h.prior.trans (h.appended ▸ List.prefix_append _ _)
  rw [hobtained]
  exact (List.prefix_of_prefix_length_le hbefore hids hreads.2).map some

/-- A traversal with `ts_docid_foreach` keeps to its own steps. -/
lemma isForeach_reader (hrun : (unlockedSystem c m').Run l s)
    (hforeach : ∀ q ∈ l, q.2 ≠ .start .next) : s.reader.IsForeach := by
  refine System.Run.invariant (fun l s => (∀ q ∈ l, q.2 ≠ .start .next) → s.reader.IsForeach)
    (fun _ => trivial) (fun {l s a s'} _ ih _ hexec hall => ?_) hrun hforeach
  have hpc := ih fun q hq => hall q (List.mem_cons_of_mem _ hq)
  cases a with
  | call docid => exact Except.ok.inj hexec ▸ hpc
  | append =>
      have hexec : Unlocked.exec .append s = .ok s' := hexec
      simp only [Unlocked.exec] at hexec
      split at hexec
      · exact Except.ok.inj hexec ▸ hpc
      · obtain ⟨_, -, hexec⟩ := bind_eq_ok.mp hexec
        exact Except.ok.inj hexec ▸ hpc
  | start kind =>
      cases kind with
      | foreach => exact Except.ok.inj hexec ▸ trivial
      | next => exact absurd rfl (hall _ List.mem_cons_self)
  | read =>
      obtain ⟨r, hok, hexec⟩ := bind_eq_ok.mp hexec
      exact Except.ok.inj hexec ▸ hpc.exec hok

/-- **`ts_docid_foreach` sees a prefix** in every run with room for what is appended. -/
theorem foreach_reader (hinit : RawContainer.init m = .ok (c, m'))
    (hrun : (unlockedSystem c m').Run l s) (hforeach : ∀ q ∈ l, q.2 ≠ .start .next)
    (hroom : ∀ q ∈ l, ∀ docid, q.2 = .call docid → q.1.container.total < containerCapacity) :
    SeesPrefix l s := by
  have horderly : ∀ q ∈ l, Orderly q := by
    rintro ⟨s', a⟩ hq
    cases a with
    | call docid => exact hroom _ hq docid rfl
    | append => trivial
    | start kind => trivial
    | read =>
        obtain ⟨l₁, l₂, -, rfl, hrun', -⟩ := hrun.split hq
        have hpc := isForeach_reader hrun' fun q hq => hforeach q (by simp [hq])
        cases hreader : s'.reader with
        | nextBucket it => exact (hreader ▸ hpc : (ReaderPc.nextBucket it).IsForeach).elim
        | _ => simp only [Orderly, hreader]
  obtain ⟨v, h⟩ := exists_consistent hinit hrun horderly
  exact h.seesPrefix

/-- **A reader without a lock sees a prefix.**  In every run of orderly steps the pointers that the
reader has obtained are those appended first, in order and none of them null, and a traversal that
has ended has obtained all that were appended before it began.  No orderly step is an error. -/
theorem unlocked_reader (hinit : RawContainer.init m = .ok (c, m'))
    (hrun : (unlockedSystem c m').Run l s) (horderly : ∀ q ∈ l, Orderly q) :
    SeesPrefix l s ∧ ∀ a, s.Enabled a → Orderly (s, a) → ∃ s', Unlocked.exec a s = .ok s' := by
  obtain ⟨v, h⟩ := exists_consistent hinit hrun horderly
  refine ⟨h.seesPrefix, fun a hen ha => ?_⟩
  obtain ⟨s', -, hok, -⟩ := h.step hen ha
  exact ⟨s', hok⟩

/-- A container initialised in an empty memory, for concrete runs. -/
def sampleContainer : RawContainer := ⟨some 0, some 0, bucketSize, 1, 0⟩

/-- Its memory. -/
def sampleMemory : BucketMemory ℕ :=
  Heap.empty.alloc ⟨(DocidBucket.new bucketSize).data [], none⟩

lemma init_sample : RawContainer.init Heap.empty = .ok (sampleContainer, sampleMemory) := rfl

/-- `unlocked_reader` for a traversal that ends in the middle of an append. -/
theorem unlocked_reader_sample : ∃ l s, (unlockedSystem sampleContainer sampleMemory).Run l s ∧
    SeesPrefix l s ∧ s.reader = .finished ∧ s.obtained = [some 1] ∧ notes calledBy l = [1, 2] := by
  obtain ⟨l, s, hrun, htest⟩ := exists_run_of_execAll
    (M := unlockedSystem sampleContainer sampleMemory)
    (fun l s => decide ((∀ q ∈ l, Orderly q) ∧ s.reader = .finished ∧ s.obtained = [some 1] ∧
      notes calledBy l = [1, 2]))
    [.call 1, .append, .append, .append, .append, .start .next, .read, .call 2, .append, .append,
      .read, .read, .append, .read, .read]
    (by decide +kernel)
  obtain ⟨horderly, hrest⟩ := of_decide_eq_true htest
  exact ⟨l, s, hrun, (unlocked_reader init_sample hrun horderly).1, hrest⟩

/-- Between the two loads of `ts_docid_container_next`, of `offset` and of `next`, seven ids fill
the bucket and an eighth goes to a new one: the reader skips the seven. -/
theorem unlocked_skips : RawContainer.init Heap.empty = .ok (sampleContainer, sampleMemory) ∧
    ∃ l s, (unlockedSystem sampleContainer sampleMemory).Run l s ∧
      notes calledBy l = List.range' 1 9 ∧ s.obtained = [some 1, some 9] ∧ ¬SeesPrefix l s := by
  obtain ⟨l, s, hrun, htest⟩ := exists_run_of_execAll
    (M := unlockedSystem sampleContainer sampleMemory)
    (fun l s => decide (notes calledBy l = List.range' 1 9 ∧ s.obtained = [some 1, some 9]))
    (List.flatten [.call 1 :: List.replicate 4 .append, .start .next :: List.replicate 3 .read,
      (List.range' 2 7).flatMap (fun x => .call x :: List.replicate 4 .append),
      .call 9 :: List.replicate 9 .append, List.replicate 2 .read])
    (by decide +kernel)
  obtain ⟨hcalled, hobtained⟩ := of_decide_eq_true htest
  refine ⟨init_sample, l, s, hrun, hcalled, hobtained, fun hsees => ?_⟩
  obtain ⟨ids, hids, hprefix⟩ := hsees.obtained
  have hmap : List.map some [1, 9] = ids.map some := hobtained.symm.trans hids
  obtain rfl := List.map_injective_iff.mpr (Option.some_injective ℕ) hmap
  rw [hcalled] at hprefix
  exact absurd hprefix (by decide)

end Results

end TsEngine
