import Mathlib.Data.Finset.Card
import Mathlib.Data.Finset.Range
import Mathlib.Data.List.GetD
import Mathlib.Tactic

/-!
# The deletion bitmap (`bitmap.h`)

Byte-level model of `ts_bitmap_t`: an allocation of `l` bytes, rounded up to a multiple of
`TS_BITMAP_PREALLOC`, grown and zeroed on demand by `ts_bitmap_set`.  That `c` has exactly `l`
bytes and that `l` is a multiple of the block are fields of `Bitmap`, so every access the
operations make is in bounds by construction.

Later modules see a bitmap as the finite set of its positions, `Bitmap.support`, through
`Bitmap.get_set` (setting a bit changes that bit only) and `Bitmap.support_set`.
-/

namespace TsEngine

/-- `TS_BITMAP_PREALLOC`. -/
def bitmapPrealloc : ℕ := 128

/-- `ts_bmp_align`: round up to a multiple of the block. -/
def bmpAlign (s : ℕ) : ℕ := (s + bitmapPrealloc - 1) / bitmapPrealloc * bitmapPrealloc

/-- `ts_bmp_dig`: the byte of a position. -/
def bmpDig (p : ℕ) : ℕ := p >>> 3

/-- `ts_bmp_mod`: the bit of a position within its byte. -/
def bmpMod (p : ℕ) : ℕ := p &&& 7

lemma bmpDig_eq (p : ℕ) : bmpDig p = p / 8 := by simp [bmpDig, Nat.shiftRight_eq_div_pow]

lemma bmpMod_eq (p : ℕ) : bmpMod p = p % 8 := Nat.and_two_pow_sub_one_eq_mod p 3

lemma bmpMod_lt (p : ℕ) : bmpMod p < 8 := by
  rw [bmpMod_eq]
  exact Nat.mod_lt _ (by norm_num)

/-- A position is determined by its byte and its bit. -/
lemma bmp_ext {p q : ℕ} (hdig : bmpDig p = bmpDig q) (hmod : bmpMod p = bmpMod q) : p = q := by
  rw [bmpDig_eq, bmpDig_eq] at hdig
  rw [bmpMod_eq, bmpMod_eq] at hmod
  omega

lemma dvd_bmpAlign (s : ℕ) : bitmapPrealloc ∣ bmpAlign s := Dvd.intro_left _ rfl

lemma le_bmpAlign (s : ℕ) : s ≤ bmpAlign s := by
  simp only [bmpAlign, bitmapPrealloc]
  omega

/-- `ts_bitmap_t`. -/
structure Bitmap where
  c : List (BitVec 8)
  l : ℕ
  length_eq : c.length = l
  dvd : bitmapPrealloc ∣ l

namespace Bitmap

/-- `ts_bitmap_init`. -/
def init : Bitmap := ⟨[], 0, rfl, Dvd.intro_left 0 rfl⟩

/-- `ts_bitmap_reserve`: `realloc` keeps the old bytes, `bzero` clears the new ones. -/
def reserve (bm : Bitmap) (n : ℕ) : Bitmap :=
  if h : bm.l < n then
    { c := bm.c ++ List.replicate (bmpAlign n - bm.l) 0#8
      l := bmpAlign n
      length_eq := by
        have hle := le_bmpAlign n
        rw [List.length_append, List.length_replicate, bm.length_eq]
        omega
      dvd := dvd_bmpAlign n }
  else bm

/-- `ts_bitmap_set`. -/
def set (bm : Bitmap) (p : ℕ) : Bitmap :=
  let bm := bm.reserve (bmpDig p + 1)
  { c := bm.c.modify (bmpDig p) fun b => b ||| (1#8 <<< bmpMod p)
    l := bm.l
    length_eq := by rw [List.length_modify, bm.length_eq]
    dvd := bm.dvd }

/-- `ts_bitmap_unset`. -/
def unset (bm : Bitmap) (p : ℕ) : Bitmap :=
  if bmpDig p < bm.l then
    { c := bm.c.modify (bmpDig p) fun b => b &&& ~~~(1#8 <<< bmpMod p)
      l := bm.l
      length_eq := by rw [List.length_modify, bm.length_eq]
      dvd := bm.dvd }
  else bm

/-- `ts_bitmap_get`. -/
def get (bm : Bitmap) (p : ℕ) : Bool :=
  if bm.l ≤ bmpDig p then false
  else ((bm.c.getD (bmpDig p) 0#8 >>> bmpMod p) &&& 1#8) == 1#8

/-- `ts_bitmap_clone`: a copy of the bytes. -/
def clone (bm : Bitmap) : Bitmap := bm

/-! ## Bits -/

lemma shiftRight_and_one (b : BitVec 8) (m : ℕ) :
    (((b >>> m) &&& 1#8) == 1#8) = b.getLsbD m := by
  have hbit : ∀ i, ((b >>> m) &&& 1#8).getLsbD i = (decide (i = 0) && b.getLsbD m) := by
    intro i
    rw [BitVec.getLsbD_and, BitVec.getLsbD_ushiftRight, BitVec.getLsbD_one]
    by_cases hi : i = 0
    · simp [hi]
    · simp [hi]
  cases hb : b.getLsbD m with
  | false =>
      rw [beq_eq_false_iff_ne]
      intro heq
      have h0 := hbit 0
      rw [heq, hb] at h0
      simp at h0
  | true =>
      rw [beq_iff_eq]
      refine BitVec.eq_of_getLsbD_eq fun i hi => ?_
      rw [hbit, hb, BitVec.getLsbD_one]
      simp

/-- Reading a bit, in terms of the byte that holds it. -/
lemma get_eq (bm : Bitmap) (p : ℕ) :
    bm.get p = (bm.c.getD (bmpDig p) 0#8).getLsbD (bmpMod p) := by
  unfold get
  split_ifs with h
  · have hout : bm.c.length ≤ bmpDig p := by rw [bm.length_eq]; exact h
    rw [List.getD_eq_default _ _ hout, BitVec.getLsbD_zero]
  · exact shiftRight_and_one _ _

@[simp] lemma get_init (p : ℕ) : init.get p = false := by simp [get, init]

@[simp] lemma get_clone (bm : Bitmap) (p : ℕ) : bm.clone.get p = bm.get p := rfl

lemma getD_reserve (bm : Bitmap) (n i : ℕ) :
    (bm.reserve n).c.getD i 0#8 = bm.c.getD i 0#8 := by
  unfold reserve
  split_ifs with h
  · by_cases hi : i < bm.c.length
    · exact List.getD_append _ _ _ _ hi
    · rw [List.getD_append_right _ _ _ _ (by omega), List.getD_eq_default bm.c _ (by omega)]
      simp only [List.getD_eq_getElem?_getD, List.getElem?_replicate]
      split_ifs <;> rfl
  · rfl

lemma lt_length_reserve (bm : Bitmap) (n : ℕ) : n ≤ (bm.reserve n).c.length := by
  rw [(bm.reserve n).length_eq]
  unfold reserve
  split_ifs with h
  · exact le_bmpAlign n
  · omega

/-- Within one byte, or-ing in one bit sets that bit and no other. -/
lemma getLsbD_or_one_shiftLeft (b : BitVec 8) {m k : ℕ} (hk : k < 8) :
    (b ||| (1#8 <<< m)).getLsbD k = (b.getLsbD k || decide (k = m)) := by
  rw [BitVec.getLsbD_or, BitVec.getLsbD_shiftLeft, BitVec.getLsbD_one]
  congr 1
  by_cases hkm : k = m
  · subst hkm
    simp [hk]
  · by_cases hlt : k < m
    · simp [hlt, hkm]
    · have hsub : k - m ≠ 0 := by omega
      simp [hkm, hsub]

/-- **Setting a bit sets that bit and no other**, growth included. -/
@[simp] lemma get_set (bm : Bitmap) (p q : ℕ) :
    (bm.set p).get q = (bm.get q || decide (q = p)) := by
  have hlen := bm.lt_length_reserve (bmpDig p + 1)
  rw [get_eq, get_eq, ← bm.getD_reserve (bmpDig p + 1) (bmpDig q)]
  simp only [set, List.getD_eq_getElem?_getD]
  by_cases hdig : bmpDig p = bmpDig q
  · have hin : bmpDig q < (bm.reserve (bmpDig p + 1)).c.length := by omega
    have hqp : (bmpMod q = bmpMod p) ↔ q = p :=
      ⟨fun h => bmp_ext hdig.symm h, fun h => by rw [h]⟩
    rw [hdig, List.getElem?_modify_eq, List.getElem?_eq_getElem (hdig ▸ hin)]
    simp [getLsbD_or_one_shiftLeft _ (bmpMod_lt q), hqp]
  · have hqp : q ≠ p := fun h => hdig (by rw [h])
    rw [List.getElem?_modify_ne _ _ hdig]
    simp [hqp]

/-- Within one byte, masking out one bit clears that bit and no other. -/
lemma getLsbD_and_not_one_shiftLeft (b : BitVec 8) {m k : ℕ} (hk : k < 8) :
    (b &&& ~~~(1#8 <<< m)).getLsbD k = (b.getLsbD k && !decide (k = m)) := by
  have hmask := getLsbD_or_one_shiftLeft 0#8 (m := m) hk
  rw [BitVec.zero_or, BitVec.getLsbD_zero, Bool.false_or] at hmask
  rw [BitVec.getLsbD_and, BitVec.getLsbD_not, hmask]
  simp [hk]

/-- **Unsetting a bit clears that bit and no other.** -/
@[simp] lemma get_unset (bm : Bitmap) (p q : ℕ) :
    (bm.unset p).get q = (bm.get q && !decide (q = p)) := by
  unfold unset
  split_ifs with hin
  · rw [get_eq, get_eq]
    simp only [List.getD_eq_getElem?_getD]
    by_cases hdig : bmpDig p = bmpDig q
    · have hlt : bmpDig q < bm.c.length := by
        rw [bm.length_eq, ← hdig]
        exact hin
      have hqp : (bmpMod q = bmpMod p) ↔ q = p :=
        ⟨fun h => bmp_ext hdig.symm h, fun h => by rw [h]⟩
      rw [hdig, List.getElem?_modify_eq, List.getElem?_eq_getElem hlt]
      simp [getLsbD_and_not_one_shiftLeft _ (bmpMod_lt q), hqp]
    · have hqp : q ≠ p := fun h => hdig (by rw [h])
      rw [List.getElem?_modify_ne _ _ hdig]
      simp [hqp]
  · -- beyond the allocation every bit is clear
    by_cases hqp : q = p
    · have hout : bm.l ≤ bmpDig q := by
        rw [hqp]
        omega
      simp [get, hout]
    · simp [hqp]

lemma l_le_reserve (bm : Bitmap) (n : ℕ) : bm.l ≤ (bm.reserve n).l := by
  unfold reserve
  split_ifs with h
  · exact h.le.trans (le_bmpAlign n)
  · exact le_rfl

/-- The allocation does not shrink. -/
lemma l_le_set (bm : Bitmap) (p : ℕ) : bm.l ≤ (bm.set p).l := bm.l_le_reserve _

lemma l_unset (bm : Bitmap) (p : ℕ) : (bm.unset p).l = bm.l := by
  unfold unset
  split_ifs <;> rfl

/-! ## A bitmap as a finite set -/

/-- The positions whose bit is set. -/
def support (bm : Bitmap) : Finset ℕ := (Finset.range (8 * bm.l)).filter fun p => bm.get p = true

@[simp] lemma mem_support {bm : Bitmap} {p : ℕ} : p ∈ bm.support ↔ bm.get p = true := by
  simp only [support, Finset.mem_filter, Finset.mem_range, and_iff_right_iff_imp]
  intro h
  by_contra hp
  have hout : bm.l ≤ bmpDig p := by
    rw [bmpDig_eq]
    omega
  simp [get, hout] at h

@[simp] lemma support_init : init.support = ∅ := rfl

lemma support_set (bm : Bitmap) (p : ℕ) : (bm.set p).support = insert p bm.support := by
  ext q
  simp [or_comm]

/-- Setting a clear bit adds one to the number of set bits. -/
lemma card_support_set {bm : Bitmap} {p : ℕ} (h : bm.get p = false) :
    (bm.set p).support.card = bm.support.card + 1 := by
  rw [support_set, Finset.card_insert_of_notMem (by simp [h])]

end Bitmap

end TsEngine
