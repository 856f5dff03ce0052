import TsEngine.Framework.Blocks
import TsEngine.Framework.Runs
import TsEngine.Store.Bitmap

/-!
# Bitmaps in memory (`bitmap.h`)

The macros on a pointer to bytes and a length, where `Store/Bitmap` has a list of bytes: growing is
a `realloc`, after which the new bytes are whatever the allocator has there until they are zeroed,
and a clone is a `malloc` and a `memcpy`.  An access outside the allocation is an error.

Any number of bitmaps live in one memory.  `bitmap_answers` says that each of them answers by the
last operation on the position (`BitmapOp.expected`), which for a clone may be one on its source
before it was cloned.
-/

namespace TsEngine

open Framework

/-- `ts_bitmap_t` with its pointer. -/
structure RawBitmap where
  c : Option ℕ
  l : ℕ

/-- The memory that bitmaps are allocated in. -/
abbrev ByteMemory := Blocks (BitVec 8)

namespace RawBitmap

section

variable (junk : ℕ → ℕ → BitVec 8)

/-- `ts_bitmap_init`. -/
def init : RawBitmap := ⟨none, 0⟩

/-- `ts_bitmap_reserve`. -/
def reserve (bm : RawBitmap) (n : ℕ) (m : ByteMemory) :
    Except HeapError (RawBitmap × ByteMemory) := do
  if bm.l < n then
    let len := bmpAlign n
    let (c, m) ← Blocks.realloc junk bm.c len m
    let m ← Blocks.fill (some c) bm.l (len - bm.l) 0#8 m
    return (⟨some c, len⟩, m)
  else return (bm, m)

/-- `ts_bitmap_set`. -/
def set (bm : RawBitmap) (p : ℕ) (m : ByteMemory) : Except HeapError (RawBitmap × ByteMemory) := do
  let (bm, m) ← bm.reserve junk (bmpDig p + 1) m
  let b ← Blocks.load bm.c (bmpDig p) m
  let m ← Blocks.store bm.c (bmpDig p) (b ||| (1#8 <<< bmpMod p)) m
  return (bm, m)

/-- `ts_bitmap_unset`. -/
def unset (bm : RawBitmap) (p : ℕ) (m : ByteMemory) : Except HeapError ByteMemory := do
  if bmpDig p < bm.l then
    let b ← Blocks.load bm.c (bmpDig p) m
    Blocks.store bm.c (bmpDig p) (b &&& ~~~(1#8 <<< bmpMod p)) m
  else return m

/-- `ts_bitmap_get`. -/
def get (bm : RawBitmap) (p : ℕ) (m : ByteMemory) : Except HeapError Bool := do
  if bm.l ≤ bmpDig p then return false
  else
    let b ← Blocks.load bm.c (bmpDig p) m
    return ((b >>> bmpMod p) &&& 1#8) == 1#8

/-- `ts_bitmap_clone(src, dst)`, whatever `dst` is. -/
def clone (src : RawBitmap) (m : ByteMemory) : Except HeapError (RawBitmap × ByteMemory) := do
  let (c, m) := Blocks.malloc junk src.l m
  let m ← Blocks.copy (some c) src.c src.l m
  return (⟨some c, src.l⟩, m)

end

/-! ## What a bitmap in memory stands for -/

variable {junk : ℕ → ℕ → BitVec 8} {m m' : ByteMemory} {bm : RawBitmap} {b : Bitmap} {n p : ℕ}
  {ps ps' : List ℕ}

/-- The bytes that the pointer leads to are those of the bitmap, all `l` of them. -/
structure Represents (m : ByteMemory) (bm : RawBitmap) (b : Bitmap) : Prop where
  c : Blocks.At m bm.c b.c
  l : bm.l = b.l

lemma Represents.frame (h : bm.Represents m b) (hw : m.Writes ps ps' m')
    (hdisj : bm.c.toList.Disjoint ps) : bm.Represents m' b :=
  ⟨h.c.frame hw hdisj, h.l⟩

/-- A byte below `l` can be read. -/
lemma Represents.load (h : bm.Represents m b) (hp : bmpDig p < bm.l) : ∃ c, bm.c = some c ∧
    m.cells c = some b.c ∧ bmpDig p < b.c.length ∧
    Blocks.load bm.c (bmpDig p) m = .ok (b.c.getD (bmpDig p) 0#8) := by
  have hlt : bmpDig p < b.c.length := by
    rw [b.length_eq, ← h.l]
    exact hp
  obtain ⟨c, l⟩ := bm
  cases c with
  | none =>
      have hnil : b.c = [] := h.c
      simp [hnil] at hlt
  | some c =>
      refine ⟨c, rfl, h.c, hlt, ?_⟩
      rw [Blocks.load_eq h.c hlt, List.getD_eq_getElem _ _ hlt]

variable (junk) in
/-- **Growing** keeps the old bytes and zeroes the new ones. -/
lemma Represents.reserve (h : bm.Represents m b) (n : ℕ) : ∃ bm' m',
    bm.reserve junk n m = .ok (bm', m') ∧ bm'.Represents m' (b.reserve n) ∧
      m.Writes bm.c.toList bm'.c.toList m' := by
  unfold RawBitmap.reserve Bitmap.reserve
  rw [h.l]
  split_ifs with hlt
  · have hle : b.l ≤ bmpAlign n := hlt.le.trans (le_bmpAlign n)
    obtain ⟨c, m₁, ys, hok, hcell, hlen, hw⟩ := h.c.realloc junk (b.length_eq ▸ hle)
    rw [b.length_eq] at hlen
    have hfill := Blocks.fill_eq hcell hlen 0#8
    rw [b.length_eq] at hfill
    refine ⟨⟨some c, bmpAlign n⟩, _, ?_, ⟨Heap.cells_store_self hcell _, rfl⟩,
      hw.trans (Heap.writes_store (by simp) m₁ _)⟩
    simp only [hok, bind, Except.bind, hfill]
    rfl
  · exact ⟨bm, m, rfl, h, Heap.Writes.refl ..⟩

/-- Storing a byte that a function of the old one gives. -/
lemma Represents.modify (h : bm.Represents m b) (hp : bmpDig p < bm.l) (f : BitVec 8 → BitVec 8) :
    ∃ m', Blocks.store bm.c (bmpDig p) (f (b.c.getD (bmpDig p) 0#8)) m = .ok m' ∧
      Blocks.At m' bm.c (b.c.modify (bmpDig p) f) ∧ m.Writes bm.c.toList bm.c.toList m' := by
  obtain ⟨c, hc, hcell, hlt, -⟩ := h.load hp
  have hmodify : b.c.set (bmpDig p) (f (b.c.getD (bmpDig p) 0#8)) = b.c.modify (bmpDig p) f := by
    rw [List.modify_eq_set_getElem?, List.getElem?_eq_getElem hlt, List.getD_eq_getElem _ _ hlt]
    rfl
  rw [hc, Blocks.store_eq hcell hlt, hmodify]
  exact ⟨_, rfl, Heap.cells_store_self hcell _, Heap.writes_store (by simp) m _⟩

variable (junk) in
/-- `ts_bitmap_set`. -/
lemma Represents.set (h : bm.Represents m b) (p : ℕ) : ∃ bm' m',
    bm.set junk p m = .ok (bm', m') ∧ bm'.Represents m' (b.set p) ∧
      m.Writes bm.c.toList bm'.c.toList m' := by
  obtain ⟨bm₁, m₁, hok, h₁, hw₁⟩ := h.reserve junk (bmpDig p + 1)
  have hp : bmpDig p < bm₁.l := by
    have hle := b.lt_length_reserve (bmpDig p + 1)
    rw [(b.reserve (bmpDig p + 1)).length_eq] at hle
    rw [h₁.l]
    omega
  obtain ⟨c, -, -, -, hload⟩ := h₁.load hp
  obtain ⟨m₂, hstore, hat, hw₂⟩ := h₁.modify hp fun b => b ||| (1#8 <<< bmpMod p)
  refine ⟨bm₁, m₂, ?_, ⟨hat, h₁.l⟩, hw₁.trans hw₂⟩
  simp only [RawBitmap.set, hok, bind, Except.bind, hload, hstore]
  rfl

/-- `ts_bitmap_unset`. -/
lemma Represents.unset (h : bm.Represents m b) (p : ℕ) : ∃ m',
    bm.unset p m = .ok m' ∧ bm.Represents m' (b.unset p) ∧
      m.Writes bm.c.toList bm.c.toList m' := by
  unfold RawBitmap.unset Bitmap.unset
  split_ifs with hp hp' hp'
  · obtain ⟨c, -, -, -, hload⟩ := h.load hp
    obtain ⟨m', hstore, hat, hw⟩ := h.modify hp fun b => b &&& ~~~(1#8 <<< bmpMod p)
    refine ⟨m', ?_, ⟨hat, h.l⟩, hw⟩
    simp only [hload, bind, Except.bind, hstore]
  · exact absurd (h.l ▸ hp) hp'
  · exact absurd (h.l.symm ▸ hp') hp
  · exact ⟨m, rfl, h, Heap.Writes.refl ..⟩

/-- `ts_bitmap_get`. -/
lemma Represents.get (h : bm.Represents m b) (p : ℕ) : bm.get p m = .ok (b.get p) := by
  unfold RawBitmap.get Bitmap.get
  rw [h.l]
  split_ifs with hp
  · rfl
  · obtain ⟨c, -, -, -, hload⟩ := h.load (p := p) (by rw [h.l]; omega)
    exact bind_eq_ok.mpr ⟨_, hload, rfl⟩

variable (junk) in
/-- `ts_bitmap_clone`. -/
lemma Represents.clone (h : bm.Represents m b) : ∃ bm' m',
    bm.clone junk m = .ok (bm', m') ∧ bm'.Represents m' b.clone ∧ m.Writes [] bm'.c.toList m' := by
  obtain ⟨c, m₁, ys, hmalloc, hcell, hlen, hw₁⟩ := Blocks.malloc_at junk bm.l m
  have hat : Blocks.At m₁ bm.c b.c := h.c.frame hw₁ (by simp)
  have hl : bm.l = b.c.length := h.l.trans b.length_eq.symm
  obtain ⟨m₂, hcopy, hcell₂, hw₂⟩ := hat.copy hcell (hlen.trans hl)
  refine ⟨⟨some c, bm.l⟩, m₂, ?_, ⟨hcell₂, h.l⟩, hw₁.trans hw₂⟩
  rw [← hl] at hcopy
  simp only [RawBitmap.clone, hmalloc, hcopy, bind, Except.bind]
  rfl

end RawBitmap

/-! ## Any number of bitmaps -/

/-- An operation on bitmaps, which are numbered. -/
inductive BitmapOp
  | set (i p : ℕ)
  | unset (i p : ℕ)
  /-- `ts_bitmap_clone` of bitmap `i` to bitmap `j`. -/
  | clone (i j : ℕ)
  deriving DecidableEq

/-- The last operation on position `q` of bitmap `k`, in a history with the newest first, was a set.
A bitmap takes over the operations on its source when it becomes a clone. -/
def BitmapOp.expected : List BitmapOp → ℕ → ℕ → Bool
  | [], _, _ => false
  | .set i p :: ops, k, q => if k = i ∧ q = p then true else expected ops k q
  | .unset i p :: ops, k, q => if k = i ∧ q = p then false else expected ops k q
  | .clone i j :: ops, k, q => if k = j then expected ops i q else expected ops k q

/-- The bitmaps and their memory. -/
structure Bitmaps where
  bm : ℕ → RawBitmap
  mem : ByteMemory

namespace Bitmaps

/-- The effect of an operation. -/
def exec (junk : ℕ → ℕ → BitVec 8) : BitmapOp → Bitmaps → Except HeapError Bitmaps
  | .set i p, s => do
      let (bm, mem) ← (s.bm i).set junk p s.mem
      return ⟨Function.update s.bm i bm, mem⟩
  | .unset i p, s => do
      let mem ← (s.bm i).unset p s.mem
      return { s with mem }
  | .clone i j, s => do
      let (bm, mem) ← (s.bm i).clone junk s.mem
      return ⟨Function.update s.bm j bm, mem⟩

/-- A bitmap is not cloned to itself. -/
def Enabled : BitmapOp → Prop
  | .clone i j => i ≠ j
  | _ => True

instance (a : BitmapOp) : Decidable (Enabled a) :=
  match a with
  | .set _ _ | .unset _ _ => inferInstanceAs (Decidable True)
  | .clone i j => inferInstanceAs (Decidable (i ≠ j))

/-- Each bitmap is in memory, in bytes of its own. -/
structure Represents (s : Bitmaps) (bs : ℕ → Bitmap) : Prop where
  each : ∀ k, (s.bm k).Represents s.mem (bs k)
  apart : ∀ {k k'}, k ≠ k' → (s.bm k).c.toList.Disjoint (s.bm k').c.toList

end Bitmaps

/-- Operations on initialised bitmaps, in any order. -/
def bitmapSystem (junk : ℕ → ℕ → BitVec 8) : System Bitmaps BitmapOp HeapError where
  init := ⟨fun _ => .init, Heap.empty⟩
  enabled _ _ a := Bitmaps.Enabled a
  exec := Bitmaps.exec junk

instance (junk : ℕ → ℕ → BitVec 8) (l : List (Bitmaps × BitmapOp)) (s : Bitmaps) (a : BitmapOp) :
    Decidable ((bitmapSystem junk).enabled l s a) :=
  inferInstanceAs (Decidable (Bitmaps.Enabled a))

namespace Bitmaps

variable {junk : ℕ → ℕ → BitVec 8} {s : Bitmaps} {bs : ℕ → Bitmap} {j : ℕ} {bm' : RawBitmap}
  {m' : ByteMemory} {b' : Bitmap}

/-- Writing one of them. -/
lemma Represents.write (h : s.Represents bs) (hbm : bm'.Represents m' b')
    (hw : s.mem.Writes (s.bm j).c.toList bm'.c.toList m') :
    Represents ⟨Function.update s.bm j bm', m'⟩ (Function.update bs j b') := by
  have hother : ∀ {k}, k ≠ j → (s.bm k).c.toList.Disjoint bm'.c.toList := fun hk =>
    hw.disjoint (h.each _).c.lt_next (h.apart hk)
  refine ⟨fun k => ?_, fun {k k'} hne => ?_⟩
  · by_cases hk : k = j
    · subst hk
      simpa using hbm
    · simpa [hk] using (h.each k).frame hw (h.apart hk)
  · by_cases hk : k = j
    · subst hk
      simpa [hne.symm] using (hother hne.symm).symm
    · by_cases hk' : k' = j
      · subst hk'
        simpa [hk] using hother hk
      · simpa [hk, hk'] using h.apart hne

variable (junk) in
/-- **One operation** on the bitmaps is one on what they stand for. -/
lemma Represents.exec (h : s.Represents bs) {ops : List BitmapOp}
    (hbs : ∀ k q, (bs k).get q = BitmapOp.expected ops k q) {a : BitmapOp} (hen : Enabled a) :
    ∃ s' bs', exec junk a s = .ok s' ∧ s'.Represents bs' ∧
      (∀ k q, (bs' k).get q = BitmapOp.expected (a :: ops) k q) ∧
      ∀ k, (∀ i, a ≠ .clone i k) → (bs k).l ≤ (bs' k).l := by
  cases a with
  | set i p =>
      obtain ⟨bm', m', hok, hbm, hw⟩ := (h.each i).set junk p
      refine ⟨_, _, ?_, h.write hbm hw, fun k q => ?_, fun k _ => ?_⟩
      · exact bind_eq_ok.mpr ⟨_, hok, rfl⟩
      · rw [BitmapOp.expected, ← hbs]
        by_cases hk : k = i
        · subst hk
          by_cases hq : q = p <;> simp [hq]
        · simp [hk]
      · by_cases hk : k = i
        · subst hk
          simpa using (bs k).l_le_set p
        · simp [hk]
  | unset i p =>
      obtain ⟨m', hok, hbm, hw⟩ := (h.each i).unset p
      have hwrite := h.write hbm hw
      rw [Function.update_eq_self] at hwrite
      refine ⟨_, _, ?_, hwrite, fun k q => ?_, fun k _ => ?_⟩
      · exact bind_eq_ok.mpr ⟨_, hok, rfl⟩
      · rw [BitmapOp.expected, ← hbs]
        by_cases hk : k = i
        · subst hk
          by_cases hq : q = p <;> simp [hq]
        · simp [hk]
      · by_cases hk : k = i
        · subst hk
          simp [Bitmap.l_unset]
        · simp [hk]
  | clone i j =>
      obtain ⟨bm', m', hok, hbm, hw⟩ := (h.each i).clone junk
      have hw' : s.mem.Writes (s.bm j).c.toList bm'.c.toList m' :=
        hw.weaken (by simp) fun p hp => .inr (.inl hp)
      refine ⟨_, _, ?_, h.write hbm hw', fun k q => ?_, fun k hk => ?_⟩
      · exact bind_eq_ok.mpr ⟨_, hok, rfl⟩
      · rw [BitmapOp.expected]
        by_cases hk : k = j
        · subst hk
          simp [← hbs]
        · simp [hk, ← hbs]
      · have hkj : k ≠ j := by
          rintro rfl
          exact hk i rfl
        simp [hkj]

lemma represents_of_run {l : List (Bitmaps × BitmapOp)} (hrun : (bitmapSystem junk).Run l s) :
    ∃ bs, s.Represents bs ∧ ∀ k q, (bs k).get q = BitmapOp.expected (l.map Prod.snd) k q := by
  refine System.Run.invariant (fun l s => ∃ bs, s.Represents bs ∧
    ∀ k q, (bs k).get q = BitmapOp.expected (l.map Prod.snd) k q) ?_ ?_ hrun
  · exact ⟨fun _ => .init, ⟨fun _ => ⟨rfl, rfl⟩, fun _ => List.disjoint_nil_left _⟩,
      fun _ q => Bitmap.get_init q⟩
  · rintro l s a s' - ⟨bs, hrep, hbs⟩ hen hexec
    obtain ⟨s₁, bs', hok, hrep', hbs', -⟩ := hrep.exec junk hbs hen
    obtain rfl := Except.ok.inj (hok.symm.trans hexec)
    exact ⟨bs', hrep', hbs'⟩

end Bitmaps

/-- **A bitmap is a set of positions.**  After any operations, without an access outside the bytes
that are allocated, each bitmap answers for each position by the last operation on it; its bytes are
`l` in number, a multiple of the block; and only becoming a clone makes `l` smaller.  An operation
on one bitmap is none on another, clone or not. -/
theorem bitmap_answers {junk : ℕ → ℕ → BitVec 8} {l : List (Bitmaps × BitmapOp)} {s : Bitmaps}
    (hrun : (bitmapSystem junk).Run l s) :
    (∀ k q, (s.bm k).get q s.mem = .ok (BitmapOp.expected (l.map Prod.snd) k q)) ∧
    (∀ k, bitmapPrealloc ∣ (s.bm k).l ∧
      ∃ bytes, Blocks.At s.mem (s.bm k).c bytes ∧ bytes.length = (s.bm k).l) ∧
    ∀ a, Bitmaps.Enabled a → ∃ s', Bitmaps.exec junk a s = .ok s' ∧
      ∀ k, (∀ i, a ≠ .clone i k) → (s.bm k).l ≤ (s'.bm k).l := by
  obtain ⟨bs, hrep, hbs⟩ := Bitmaps.represents_of_run hrun
  refine ⟨fun k q => ?_, fun k => ⟨?_, (bs k).c, (hrep.each k).c, ?_⟩, fun a hen => ?_⟩
  · rw [(hrep.each k).get, hbs]
  · rw [(hrep.each k).l]
    exact (bs k).dvd
  · rw [(hrep.each k).l, (bs k).length_eq]
  · obtain ⟨s', bs', hok, hrep', -, hl⟩ := hrep.exec junk hbs hen
    refine ⟨s', hok, fun k hk => ?_⟩
    rw [(hrep.each k).l, (hrep'.each k).l]
    exact hl k hk

/-- `bitmap_answers` for a bitmap that grows, a clone, and a set on either. -/
theorem bitmap_answers_sample : ∃ l s, (bitmapSystem fun _ _ => 255#8).Run l s ∧
    (s.bm 0).l = 256 ∧ (s.bm 1).l = 128 ∧
    (s.bm 0).get 5 s.mem = .ok true ∧ (s.bm 0).get 2000 s.mem = .ok true ∧
    (s.bm 1).get 5 s.mem = .ok false ∧ (s.bm 1).get 7 s.mem = .ok true := by
  obtain ⟨l, s, hrun, htest⟩ := System.exists_run_of_execAll (M := bitmapSystem fun _ _ => 255#8)
    (fun l s => decide ((s.bm 0).l = 256 ∧ (s.bm 1).l = 128 ∧ l.map Prod.snd =
      [.set 0 2000, .unset 1 5, .set 0 8, .clone 0 1, .set 0 7, .set 0 5]))
    [.set 0 5, .set 0 7, .clone 0 1, .set 0 8, .unset 1 5, .set 0 2000] (by decide +kernel)
  obtain ⟨h0, h1, hops⟩ := of_decide_eq_true htest
  obtain ⟨hget, -, -⟩ := bitmap_answers hrun
  rw [hops] at hget
  exact ⟨l, s, hrun, h0, h1, hget 0 5, hget 0 2000, hget 1 5, hget 1 7⟩

end TsEngine
