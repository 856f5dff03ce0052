import TsEngine.Store.BucketRuns
import TsEngine.Store.Intersect

/-!
# Intersection in memory

`linear_intersect` and `ts_seek_intersect` on containers in memory (`Store/Buckets`).  The two
temporaries of `ts_seek_intersect` are destroyed and initialised anew in turn, so that reading one
of them after its reset is a read of freed buckets, or of none.

`seek_intersect` says what is appended to `out` for any containers that ascend, and that
nothing else in memory changes.  The invariant of the loop is `RawSeek.Temps`: the temporaries lie
at addresses of their own, which were not in use before the call.
-/

namespace TsEngine

open Framework

/-! ## The functions -/

/-- The locals of `linear_intersect`, its `out`, and the memory. -/
structure RawLinear where
  it1 : RawIterator
  it2 : RawIterator
  id1 : Option DocPtr
  id2 : Option DocPtr
  out : RawContainer
  mem : BucketMemory DocPtr

section

variable (docId : DocPtr → ℕ) (deletion : Bitmap)

namespace RawLinear

/-- `id1 = ts_docid_container_next(&it1)`. -/
def next1 (s : RawLinear) : Except HeapError RawLinear := do
  let (id1, it1) ← s.it1.next s.mem
  return { s with id1, it1 }

/-- `id2 = ts_docid_container_next(&it2)`. -/
def next2 (s : RawLinear) : Except HeapError RawLinear := do
  let (id2, it2) ← s.it2.next s.mem
  return { s with id2, it2 }

/-- `if (!ts_bitmap_get(deletion, *id1)) ts_docid_container_append(out, id1)`. -/
def keep (s : RawLinear) (a : DocPtr) : Except HeapError RawLinear := do
  if deletion.get (docId a) then return s
  else
    let (out, mem) ← s.out.append a s.mem
    return { s with out, mem }

/-- The body of the loop, at non-null `id1 = a` and `id2 = b`. -/
def body (s : RawLinear) (a b : DocPtr) : Except HeapError RawLinear := do
  if docId a < docId b then s.next1
  else if docId b < docId a then s.next2
  else
    let s ← s.keep docId deletion a
    let s ← s.next1
    s.next2

/-- `do … while (id1 && id2)`. -/
def loop : ℕ → RawLinear → Except HeapError (RawContainer × BucketMemory DocPtr)
  | 0, _ => .error .outOfFuel
  | fuel + 1, s =>
      match s.id1, s.id2 with
      | some a, some b => do
          let s ← s.body docId deletion a b
          if s.id1.isSome && s.id2.isSome then loop fuel s else return (s.out, s.mem)
      | _, _ => .error .nullDereference

end RawLinear

/-- `linear_intersect`. -/
def RawContainer.linearIntersect (input1 input2 out : RawContainer) (m : BucketMemory DocPtr) :
    Except HeapError (RawContainer × BucketMemory DocPtr) := do
  if input1.total = 0 ∨ input2.total = 0 then return (out, m)
  else
    let s : RawLinear := ⟨.init input1, .init input2, none, none, out, m⟩
    let s ← s.next1
    let s ← s.next2
    RawLinear.loop docId deletion (input1.total + input2.total) s

/-- `tmp[2]` of `ts_seek_intersect`, its `p`, which points at `ids_list[0]` or at `cc[idx]`, and the
memory. -/
structure RawSeek where
  cc : Bool → RawContainer
  p : Option Bool
  mem : BucketMemory DocPtr

/-- `*cc[idx] = c`. -/
def RawSeek.setCc (s : RawSeek) (idx : Bool) (c : RawContainer) (m : BucketMemory DocPtr) :
    RawSeek :=
  { s with cc := Function.update s.cc idx c, mem := m }

/-- `*p`. -/
def RawSeek.read (s : RawSeek) (first : RawContainer) : RawContainer :=
  match s.p with
  | none => first
  | some idx => s.cc idx

/-- `ts_docid_container_reset(cc[idx])`, then `linear_intersect(p, ids, deletion, cc[idx])`. -/
def RawSeek.body (first ids : RawContainer) (idx : Bool) (s : RawSeek) :
    Except HeapError RawSeek := do
  let (c, m) ← (s.cc idx).reset s.mem
  let s := s.setCc idx c m
  let (c, m) ← (s.read first).linearIntersect docId deletion ids (s.cc idx) s.mem
  return s.setCc idx c m

/-- The loop of `ts_seek_intersect` from iteration `i`, over the remaining `ids_list`.  The flag
says that it left through `goto end` because an intersection came out empty. -/
def RawSeek.loop (first : RawContainer) :
    List RawContainer → ℕ → RawSeek → Except HeapError (RawSeek × Bool)
  | [], _, s => .ok (s, false)
  | ids :: idsList, i, s => do
      let idx := i % 2 == 1
      let s ← s.body docId deletion first ids idx
      if (s.cc idx).total = 0 then return (s, true)
      else RawSeek.loop first idsList (i + 1) { s with p := some idx }

/-- The body of the loop of `ts_seek_intersect` that copies; `goto end` leaves it. -/
def RawContainer.copyOne (copiedLen : ℕ) : Option DocPtr → RawContainer × ℕ → BucketMemory DocPtr →
    Except HeapError ((RawContainer × ℕ) × BucketMemory DocPtr × Bool)
  | none, _, _ => .error .nullDereference
  | some id, (out, copied), m => do
      let (out, m) ← out.append id m
      let copied := (copied + 1) % 2 ^ 32
      return ((out, copied), m, decide (copiedLen ≤ copied))

/-- The loop of `ts_seek_intersect` that copies. -/
def RawContainer.copyUpTo (copiedLen : ℕ) (p out : RawContainer) (m : BucketMemory DocPtr) :
    Except HeapError (RawContainer × BucketMemory DocPtr) := do
  let ((out, _), m) ← p.foreach (RawContainer.copyOne copiedLen) (out, 0) m
  return (out, m)

/-- `out`, `*total` and the memory at the label `end`, which the loop may have gone to. -/
def RawSeek.copyOut (first out : RawContainer) (copiedLen total : ℕ) (s : RawSeek) :
    Bool → Except HeapError (RawContainer × ℕ × BucketMemory DocPtr)
  | true => .ok (out, total, s.mem)
  | false => do
      let (out, m) ← (s.read first).copyUpTo copiedLen out s.mem
      return (out, (s.read first).total, m)

/-- `ts_seek_intersect`: the return value, `out`, `*total` and the memory. -/
def RawContainer.seekIntersect (idsList : List RawContainer) (out : RawContainer)
    (copiedLen total : ℕ) (m : BucketMemory DocPtr) :
    Except HeapError (ℤ × RawContainer × ℕ × BucketMemory DocPtr) :=
  match idsList with
  | first :: second :: rest => do
      let (tmp0, m) ← RawContainer.init m
      let (tmp1, m) ← RawContainer.init m
      let (s, empty) ← RawSeek.loop docId deletion first (second :: rest) 1
        ⟨fun idx => if idx then tmp1 else tmp0, none, m⟩
      let (out, total, m) ← s.copyOut first out copiedLen total empty
      let m ← (s.cc false).destroy m
      let m ← (s.cc true).destroy m
      return (0, out, total, m)
  | _ => .error .assertion

end

/-! ## Two containers -/

section

variable {docId : DocPtr → ℕ} (deletion : Bitmap) {s : RawLinear} {ps₁ ps₂ qs : List BucketPtr}
  {l₁ l₂ ys : List DocPtr} {a b : DocPtr}

/-- The state of the loop stands for the two lists still to be merged, in buckets that are not
`out`'s, and for what `out` holds. -/
structure RawLinear.Reads (s : RawLinear) (ps₁ ps₂ qs : List BucketPtr) (l₁ l₂ ys : List DocPtr) :
    Prop where
  id1 : s.id1 = l₁.head?
  id2 : s.id2 = l₂.head?
  it1 : s.it1.Reads s.mem ps₁ l₁.tail
  it2 : s.it2.Reads s.mem ps₂ l₂.tail
  out : s.out.Built s.mem qs ys
  lt : ∀ p ∈ ps₁ ++ ps₂, p < s.mem.next
  disjoint : (ps₁ ++ ps₂).Disjoint qs

lemma RawLinear.Reads.next1 (h : s.Reads ps₁ ps₂ qs l₁ l₂ ys) :
    ∃ s', s.next1 = .ok s' ∧ s'.Reads ps₁ ps₂ qs l₁.tail l₂ ys ∧ s'.mem = s.mem := by
  obtain ⟨it1, hok, hreads⟩ := h.it1.next
  refine ⟨{ s with id1 := l₁.tail.head?, it1 := it1 }, ?_, { h with id1 := rfl, it1 := hreads },
    rfl⟩
  exact bind_eq_ok.mpr ⟨_, hok, rfl⟩

lemma RawLinear.Reads.next2 (h : s.Reads ps₁ ps₂ qs l₁ l₂ ys) :
    ∃ s', s.next2 = .ok s' ∧ s'.Reads ps₁ ps₂ qs l₁ l₂.tail ys ∧ s'.mem = s.mem := by
  obtain ⟨it2, hok, hreads⟩ := h.it2.next
  refine ⟨{ s with id2 := l₂.tail.head?, it2 := it2 }, ?_, { h with id2 := rfl, it2 := hreads },
    rfl⟩
  exact bind_eq_ok.mpr ⟨_, hok, rfl⟩

lemma RawLinear.Reads.keep (h : s.Reads ps₁ ps₂ qs l₁ l₂ ys) (hroom : ys.length < containerCapacity)
    (docId : DocPtr → ℕ) (a : DocPtr) :
    ∃ s' qs', s.keep docId deletion a = .ok s' ∧ s'.Reads ps₁ ps₂ qs' l₁ l₂
      (ys ++ if undeleted deletion (docId a) = true then [a] else []) ∧
      s.mem.Writes qs qs' s'.mem := by
  unfold RawLinear.keep
  cases hdel : deletion.get (docId a) with
  | true => exact ⟨s, qs, rfl, by simpa [undeleted, hdel] using h, Heap.Writes.refl ..⟩
  | false =>
      obtain ⟨out, m, qs', hok, hout, hw⟩ := h.out.append hroom a
      have hdisj := hw.disjoint h.lt h.disjoint
      have hlt := fun p (hp : p ∈ ps₁ ++ ps₂) => (h.lt p hp).trans_le hw.1.1
      refine ⟨{ s with out := out, mem := m }, qs', ?_, ⟨h.id1, h.id2, ?_, ?_, ?_, hlt, hdisj⟩, hw⟩
      · exact bind_eq_ok.mpr ⟨_, hok, rfl⟩
      · exact h.it1.frame (fun p hp => h.lt p (by simp [hp])) hw
          (List.disjoint_of_disjoint_append_left_left h.disjoint)
      · exact h.it2.frame (fun p hp => h.lt p (by simp [hp])) hw
          (List.disjoint_of_disjoint_append_left_right h.disjoint)
      · simpa [undeleted, hdel] using hout

/-- One iteration consumes a head, and moves what it keeps from the intersection to `out`. -/
lemma RawLinear.Reads.body (h : s.Reads ps₁ ps₂ qs (a :: l₁) (b :: l₂) ys)
    (h₁ : Ascending docId (a :: l₁)) (h₂ : Ascending docId (b :: l₂))
    (hroom : ys.length + (a :: l₁).length ≤ containerCapacity) :
    ∃ s' qs' m₁ m₂ zs, s.body docId deletion a b = .ok s' ∧ s'.Reads ps₁ ps₂ qs' m₁ m₂ zs ∧
      s.mem.Writes qs qs' s'.mem ∧ Ascending docId m₁ ∧ Ascending docId m₂ ∧
      m₁.length + m₂.length < (a :: l₁).length + (b :: l₂).length ∧
      zs.length + m₁.length ≤ containerCapacity ∧
      zs ++ common docId (undeleted deletion) m₁ m₂ =
        ys ++ common docId (undeleted deletion) (a :: l₁) (b :: l₂) := by
  rw [List.length_cons] at hroom
  unfold RawLinear.body
  split_ifs with hlt hgt
  · obtain ⟨s', hok, hreads, hmem⟩ := h.next1
    refine ⟨s', qs, l₁, b :: l₂, ys, hok, hreads, hmem ▸ Heap.Writes.refl .., h₁.tail, h₂, by simp,
      by omega, ?_⟩
    rw [common_cons_of_lt h₂ hlt]
  · obtain ⟨s', hok, hreads, hmem⟩ := h.next2
    refine ⟨s', qs, a :: l₁, l₂, ys, hok, hreads, hmem ▸ Heap.Writes.refl .., h₁, h₂.tail, by simp,
      hroom, ?_⟩
    rw [common_cons_of_gt h₁ hgt]
  · have heq : docId a = docId b := by omega
    obtain ⟨s₁, qs', hok₁, hreads₁, hw⟩ := h.keep deletion (by omega) docId a
    obtain ⟨s₂, hok₂, hreads₂, hmem₂⟩ := hreads₁.next1
    obtain ⟨s₃, hok₃, hreads₃, hmem₃⟩ := hreads₂.next2
    refine ⟨s₃, qs', l₁, l₂, _, ?_, hreads₃, ?_, h₁.tail, h₂.tail, by simp; omega, ?_, ?_⟩
    · simp only [hok₁, hok₂, hok₃, bind, Except.bind]
    · rw [hmem₃, hmem₂]
      exact hw
    · rw [List.length_append]
      split_ifs <;> simp <;> omega
    · rw [common_cons_of_eq h₁ heq, List.append_assoc]

/-- The loop appends the intersection of what is left of the two inputs. -/
lemma RawLinear.loop_spec (fuel : ℕ) (h : s.Reads ps₁ ps₂ qs (a :: l₁) (b :: l₂) ys)
    (h₁ : Ascending docId (a :: l₁)) (h₂ : Ascending docId (b :: l₂))
    (hroom : ys.length + (a :: l₁).length ≤ containerCapacity)
    (hfuel : l₁.length + l₂.length < fuel) :
    ∃ out m' qs', RawLinear.loop docId deletion fuel s = .ok (out, m') ∧
      out.Built m' qs' (ys ++ common docId (undeleted deletion) (a :: l₁) (b :: l₂)) ∧
      s.mem.Writes qs qs' m' := by
  induction fuel generalizing s a b l₁ l₂ ys qs with
  | zero => omega
  | succ fuel ih =>
      obtain ⟨s', qs', m₁, m₂, zs, hok, hreads, hw, hm₁, hm₂, hlen, hroom', hres⟩ :=
        h.body deletion h₁ h₂ hroom
      have hid1 : s.id1 = some a := h.id1
      have hid2 : s.id2 = some b := h.id2
      simp only [RawLinear.loop, hid1, hid2, hok, bind, Except.bind, hreads.id1, hreads.id2]
      have hdone : common docId (undeleted deletion) m₁ m₂ = [] →
          s'.out.Built s'.mem qs'
            (ys ++ common docId (undeleted deletion) (a :: l₁) (b :: l₂)) := by
        intro hnil
        rw [← hres, hnil, List.append_nil]
        exact hreads.out
      cases m₁ with
      | nil => exact ⟨s'.out, s'.mem, qs', rfl, hdone common_nil_left, hw⟩
      | cons a' m₁ =>
          cases m₂ with
          | nil => exact ⟨s'.out, s'.mem, qs', rfl, hdone common_nil_right, hw⟩
          | cons b' m₂ =>
              simp only [List.length_cons] at hlen
              obtain ⟨out, m', qs'', hloop, hbuilt, hw'⟩ := ih hreads hm₁ hm₂ hroom' (by omega)
              exact ⟨out, m', qs'', by simpa using hloop, hres ▸ hbuilt, hw.trans hw'⟩

/-- **One pass intersects**, and writes no bucket but `out`'s. -/
lemma linearIntersect_built {m : BucketMemory DocPtr} {input1 input2 out : RawContainer}
    (hin₁ : input1.Lists m ps₁ l₁) (hin₂ : input2.Lists m ps₂ l₂) (hout : out.Built m qs ys)
    (hdisj : (ps₁ ++ ps₂).Disjoint qs) (h₁ : Ascending docId l₁) (h₂ : Ascending docId l₂)
    (hroom : ys.length + l₁.length ≤ containerCapacity) (hsize : l₂.length ≤ containerCapacity) :
    ∃ out' m' qs', input1.linearIntersect docId deletion input2 out m = .ok (out', m') ∧
      out'.Built m' qs' (ys ++ common docId (undeleted deletion) l₁ l₂) ∧ m.Writes qs qs' m' := by
  have htotal₁ : input1.total = l₁.length :=
    hin₁.total.trans (Nat.mod_eq_of_lt (by rw [containerCapacity] at hroom; omega))
  have htotal₂ : input2.total = l₂.length :=
    hin₂.total.trans (Nat.mod_eq_of_lt (by rw [containerCapacity] at hsize; omega))
  unfold RawContainer.linearIntersect
  rw [htotal₁, htotal₂]
  split_ifs with hempty <;> rw [List.length_eq_zero_iff, List.length_eq_zero_iff] at hempty
  · refine ⟨out, m, qs, rfl, ?_, Heap.Writes.refl ..⟩
    rcases hempty with h | h <;> simpa [h] using hout
  · rw [not_or] at hempty
    obtain ⟨a, l₁, rfl⟩ := List.exists_cons_of_ne_nil hempty.1
    obtain ⟨b, l₂, rfl⟩ := List.exists_cons_of_ne_nil hempty.2
    obtain ⟨it1, hok₁, hreads₁⟩ := (RawIterator.reads_init hin₁).next
    obtain ⟨it2, hok₂, hreads₂⟩ := (RawIterator.reads_init hin₂).next
    have hlt : ∀ p ∈ ps₁ ++ ps₂, p < m.next := by
      rw [List.forall_mem_append]
      exact ⟨hin₁.lt_next, hin₂.lt_next⟩
    have hreads : RawLinear.Reads ⟨it1, it2, some a, some b, out, m⟩ ps₁ ps₂ qs (a :: l₁)
        (b :: l₂) ys :=
      ⟨rfl, rfl, hreads₁, hreads₂, hout, hlt, hdisj⟩
    obtain ⟨out', m', qs', hloop, hbuilt, hw⟩ := RawLinear.loop_spec deletion
      ((a :: l₁).length + (b :: l₂).length) hreads h₁ h₂ hroom (by simp; omega)
    refine ⟨out', m', qs', ?_, hbuilt, hw⟩
    simp only [RawLinear.next1, RawLinear.next2, hok₁, hok₂, bind, Except.bind, pure, Except.pure,
      List.head?_cons]
    exact hloop

end

/-! ## Copying the result -/

/-- The loop that copies appends the first `copiedLen` ids. -/
lemma RawContainer.Lists.copyUpTo {m : BucketMemory DocPtr} {p out : RawContainer}
    {ps os : List BucketPtr} {xs ys : List DocPtr} (hp : p.Lists m ps xs) (hout : out.Built m os ys)
    (hdisj : ps.Disjoint os) {copiedLen : ℕ} (hlen : 1 ≤ copiedLen)
    (hsize : xs.length ≤ containerCapacity)
    (hroom : ys.length + min copiedLen xs.length ≤ containerCapacity) :
    ∃ out' m' os', p.copyUpTo copiedLen out m = .ok (out', m') ∧
      out'.Built m' os' (ys ++ xs.take copiedLen) ∧ m.Writes os os' m' := by
  obtain ⟨⟨out', copied⟩, m', hok, hres⟩ := hp.foreach (RawContainer.copyOne copiedLen)
    (fun pre s m' => s.2 = pre.length ∧ pre.length < copiedLen ∧
      ∃ os', s.1.Built m' os' (ys ++ pre) ∧ m.Writes os os' m')
    (fun s m' => ∃ os', s.1.Built m' os' (ys ++ xs.take copiedLen) ∧ m.Writes os os' m')
    (s := (out, 0))
    (fun {_ _ _} hP => by
      obtain ⟨-, -, os', -, hw⟩ := hP
      exact ⟨os, os', hdisj, hw⟩)
    (by
      rintro pre x rest ⟨out', copied⟩ m' rfl ⟨hcopied, hlt, os', hbuilt, hw⟩
      obtain rfl : copied = pre.length := hcopied
      rw [List.length_append, List.length_cons] at hroom hsize
      obtain ⟨out'', m'', os'', hok, hbuilt', hw'⟩ := hbuilt.append
        (by rw [List.length_append]; omega) x
      rw [List.append_assoc] at hbuilt'
      have hmod : (pre.length + 1) % 2 ^ 32 = pre.length + 1 :=
        Nat.mod_eq_of_lt (by rw [containerCapacity] at hsize; omega)
      refine ⟨(out'', pre.length + 1), m'', decide (copiedLen ≤ pre.length + 1), ?_, ?_⟩
      · have hok : out'.append x m' = .ok (out'', m'') := hok
        simp only [RawContainer.copyOne, hok, bind, Except.bind, hmod]
        rfl
      · split_ifs with hleft
        · have heq : copiedLen = (pre ++ [x]).length := by
            rw [decide_eq_true_eq] at hleft
            rw [List.length_append, List.length_singleton]
            omega
          have htake : (pre ++ x :: rest).take copiedLen = pre ++ [x] := by
            rw [heq, List.append_cons pre x rest, List.take_left]
          exact ⟨os'', htake ▸ hbuilt', hw.trans hw'⟩
        · rw [decide_eq_true_eq] at hleft
          exact ⟨by simp, by simpa using hleft, os'', hbuilt', hw.trans hw'⟩)
    ⟨rfl, hlen, os, by simpa using hout, Heap.Writes.refl ..⟩
  refine ⟨out', m', ?_⟩
  have hcopy : p.copyUpTo copiedLen out m = .ok (out', m') := by
    exact bind_eq_ok.mpr ⟨_, hok, rfl⟩
  rcases hres with ⟨os', hbuilt, hw⟩ | ⟨-, hlt, os', hbuilt, hw⟩
  · exact ⟨os', hcopy, hbuilt, hw⟩
  · rw [List.take_of_length_le hlt.le]
    exact ⟨os', hcopy, hbuilt, hw⟩

/-! ## Any number of containers -/

/-- A container that `ts_seek_intersect` is given, the addresses of its buckets, and its ids. -/
structure SeekInput where
  container : RawContainer
  ptrs : List BucketPtr
  ids : List DocPtr

/-- The container is in memory and in order. -/
structure SeekInput.Sorted (docId : DocPtr → ℕ) (m : BucketMemory DocPtr) (input : SeekInput) :
    Prop where
  lists : input.container.Lists m input.ptrs input.ids
  ascending : Ascending docId input.ids
  size : input.ids.length ≤ containerCapacity

/-- The temporaries lie apart from each other and from all that was allocated in `m₀`, which is as
it was. -/
structure RawSeek.Temps (m₀ : BucketMemory DocPtr) (s : RawSeek) (qs : Bool → List BucketPtr)
    (ts : Bool → List DocPtr) : Prop where
  built : ∀ idx, (s.cc idx).Built s.mem (qs idx) (ts idx)
  apart : ∀ idx, (qs idx).Disjoint (qs !idx)
  fresh : ∀ idx, m₀.Writes [] (qs idx) s.mem

namespace RawSeek

variable {m₀ m' : BucketMemory DocPtr} {s : RawSeek} {qs : Bool → List BucketPtr}
  {ts : Bool → List DocPtr} {c : RawContainer} {ps : List BucketPtr} {xs : List DocPtr}

/-- Writing one of them. -/
lemma Temps.setCc (h : s.Temps m₀ qs ts) {idx : Bool} (hc : c.Built m' ps xs)
    (hw : s.mem.Writes (qs idx) ps m') :
    (s.setCc idx c m').Temps m₀ (Function.update qs idx ps) (Function.update ts idx xs) := by
  have hother : (qs !idx).Disjoint ps :=
    hw.disjoint (h.built (!idx)).lists.lt_next (h.apart idx).symm
  have hcases : ∀ idx', idx' = idx ∨ idx' = !idx := by
    intro idx'
    cases idx <;> cases idx' <;> simp
  refine ⟨fun idx' => ?_, fun idx' => ?_, fun idx' => ?_⟩
  · rcases hcases idx' with rfl | rfl
    · simpa [RawSeek.setCc] using hc
    · simpa [RawSeek.setCc] using (h.built (!idx)).frame hw (h.apart idx).symm
  · rcases hcases idx' with rfl | rfl
    · simpa using hother.symm
    · simpa using hother
  · have hkeep : m₀.Writes [] ps m' := (h.fresh idx).trans hw
    rcases hcases idx' with rfl | rfl
    · simpa [RawSeek.setCc] using hkeep
    · rw [Function.update_of_ne (by simp)]
      exact ⟨hkeep.1, (h.fresh (!idx)).2⟩

/-- What `*p` holds. -/
def current (first : List DocPtr) (ts : Bool → List DocPtr) (s : RawSeek) : List DocPtr :=
  match s.p with
  | none => first
  | some idx => ts idx

/-- `*p` can be read as long as it is not the temporary that is written. -/
lemma Temps.read (h : s.Temps m₀ qs ts) {first : SeekInput}
    (hfirst : first.container.Lists m₀ first.ptrs first.ids) :
    ∃ ps, (s.read first.container).Lists s.mem ps (s.current first.ids ts) ∧
      (∀ idx, s.p ≠ some idx → ps.Disjoint (qs idx)) ∧
      ∀ os : List BucketPtr, (∀ p ∈ os, p < m₀.next) → first.ptrs.Disjoint os → ps.Disjoint os := by
  unfold RawSeek.read RawSeek.current
  cases hp : s.p with
  | none =>
      exact ⟨first.ptrs, hfirst.frame (h.fresh false) (by simp),
        fun idx _ => (h.fresh idx).disjoint hfirst.lt_next (by simp), fun os _ hdisj => hdisj⟩
  | some idx' =>
      refine ⟨qs idx', (h.built idx').lists, fun idx hne => ?_, fun os hos _ => ?_⟩
      · obtain rfl : idx = !idx' := by
          revert hne
          cases idx <;> cases idx' <;> simp
        exact h.apart idx'
      · exact ((h.fresh idx').disjoint hos (by simp)).symm

/-- Writing the temporary that `p` does not point at leaves `*p` as it is. -/
lemma current_update {idx : Bool} (hp : s.p ≠ some idx) (first xs : List DocPtr) :
    s.current first (Function.update ts idx xs) = s.current first ts := by
  unfold RawSeek.current
  cases hs : s.p with
  | none => rfl
  | some idx' =>
      refine Function.update_of_ne ?_ ..
      rintro rfl
      exact hp hs

end RawSeek

section

variable {docId : DocPtr → ℕ} (deletion : Bitmap) {m₀ : BucketMemory DocPtr}
  {first input : SeekInput} {s : RawSeek} {qs : Bool → List BucketPtr} {ts : Bool → List DocPtr}

/-- One iteration leaves `*p` intersected with `ids` in the temporary that `p` does not point at. -/
lemma RawSeek.Temps.body (h : s.Temps m₀ qs ts)
    (hfirst : first.container.Lists m₀ first.ptrs first.ids) (hinput : input.Sorted docId m₀)
    {idx : Bool} (hp : s.p ≠ some idx) (hasc : Ascending docId (s.current first.ids ts))
    (hsize : (s.current first.ids ts).length ≤ containerCapacity) :
    ∃ s' qs' ts', s.body docId deletion first.container input.container idx = .ok s' ∧
      s'.Temps m₀ qs' ts' ∧
      ts' idx = common docId (undeleted deletion) (s.current first.ids ts) input.ids := by
  obtain ⟨hlists, hasc', hsize'⟩ := hinput
  obtain ⟨c₁, m₁, ps₁, hreset, hc₁, hw₁⟩ := (h.built idx).lists.reset
  have h₁ := h.setCc hc₁ hw₁
  obtain ⟨ps, hread, hapart, -⟩ := h₁.read hfirst
  have hcur : (s.setCc idx c₁ m₁).current first.ids (Function.update ts idx []) =
      s.current first.ids ts := current_update hp ..
  rw [hcur] at hread
  have hin : input.container.Lists (s.setCc idx c₁ m₁).mem input.ptrs input.ids :=
    hlists.frame (h₁.fresh idx) (by simp)
  have hdisj : (ps ++ input.ptrs).Disjoint (Function.update qs idx ps₁ idx) :=
    List.disjoint_append_left.mpr
      ⟨hapart idx hp, (h₁.fresh idx).disjoint hlists.lt_next (by simp)⟩
  obtain ⟨c₂, m₂, ps₂, hok, hc₂, hw₂⟩ := linearIntersect_built deletion hread hin (h₁.built idx)
    hdisj hasc hasc' (by simpa using hsize) hsize'
  refine ⟨_, _, _, ?_, h₁.setCc hc₂ hw₂, by simp⟩
  simp only [RawSeek.body, hreset, bind, Except.bind, hok]
  rfl

/-- **The loop folds the intersection.**  The temporary that it resets is never the one it reads. -/
lemma RawSeek.loop_spec (hfirst : first.container.Lists m₀ first.ptrs first.ids)
    {inputs : List SeekInput} (hinputs : ∀ input ∈ inputs, input.Sorted docId m₀) {i : ℕ}
    (h : s.Temps m₀ qs ts) (hp : s.p ≠ some (i % 2 == 1))
    (hasc : Ascending docId (s.current first.ids ts))
    (hsize : (s.current first.ids ts).length ≤ containerCapacity) :
    ∃ s' empty qs' ts', RawSeek.loop docId deletion first.container (inputs.map SeekInput.container)
        i s = .ok (s', empty) ∧ s'.Temps m₀ qs' ts' ∧
      (if empty then [] else s'.current first.ids ts') =
        (inputs.map SeekInput.ids).foldl (common docId (undeleted deletion))
          (s.current first.ids ts) := by
  induction inputs generalizing i s qs ts with
  | nil => exact ⟨s, false, qs, ts, rfl, h, rfl⟩
  | cons input inputs ih =>
      obtain ⟨s₁, qs₁, ts₁, hok, h₁, hts⟩ :=
        h.body deletion hfirst (hinputs input (by simp)) hp hasc hsize
      rw [List.map_cons, List.map_cons, List.foldl_cons, ← hts]
      have hasc₁ : Ascending docId (ts₁ (i % 2 == 1)) := hts ▸ ascending_common hasc
      have hsize₁ : (ts₁ (i % 2 == 1)).length ≤ containerCapacity :=
        hts ▸ (List.length_filter_le _ _).trans hsize
      have htotal : (s₁.cc (i % 2 == 1)).total = (ts₁ (i % 2 == 1)).length :=
        (h₁.built _).lists.total.trans
          (Nat.mod_eq_of_lt (by rw [containerCapacity] at hsize₁; omega))
      simp only [RawSeek.loop, hok, bind, Except.bind]
      split_ifs with hempty
      · have hnil : ts₁ (i % 2 == 1) = [] := List.length_eq_zero_iff.mp (htotal ▸ hempty)
        refine ⟨s₁, true, qs₁, ts₁, rfl, h₁, ?_⟩
        rw [hnil, foldl_common_nil]
        rfl
      · have h₁' : RawSeek.Temps m₀ { s₁ with p := some (i % 2 == 1) } qs₁ ts₁ :=
          ⟨h₁.built, h₁.apart, h₁.fresh⟩
        refine ih (fun input' h' => hinputs input' (by simp [h'])) h₁' ?_ hasc₁ hsize₁
        rcases Nat.mod_two_eq_zero_or_one i with hi | hi <;> simp [hi, Nat.add_mod]

end

/-- The ids that are in every list and whose bit in `deletion` is clear, as the first list has
them. -/
def intersection (docId : DocPtr → ℕ) (deletion : Bitmap) : List (List DocPtr) → List DocPtr
  | [] => []
  | l :: ls => l.filter fun a =>
      decide (∀ l' ∈ ls, docId a ∈ l'.map docId) && undeleted deletion (docId a)

section

variable {docId : DocPtr → ℕ} {deletion : Bitmap} {l : List DocPtr} {ls ls' : List (List DocPtr)}

lemma intersection_cons (hne : ls ≠ []) :
    intersection docId deletion (l :: ls) = ls.foldl (common docId (undeleted deletion)) l :=
  (foldl_common_eq_filter hne).symm

lemma mem_map_intersection (hne : ls ≠ []) (i : ℕ) :
    i ∈ (intersection docId deletion ls).map docId ↔
      (∀ l ∈ ls, i ∈ l.map docId) ∧ deletion.get i = false := by
  obtain ⟨l, ls, rfl⟩ := List.exists_cons_of_ne_nil hne
  rw [List.forall_mem_cons]
  constructor
  · intro hi
    obtain ⟨a, ha, rfl⟩ := List.mem_map.mp hi
    obtain ⟨hal, htest⟩ := List.mem_filter.mp ha
    rw [Bool.and_eq_true, decide_eq_true_eq] at htest
    exact ⟨⟨List.mem_map_of_mem hal, htest.1⟩, by simpa [undeleted] using htest.2⟩
  · rintro ⟨⟨hi, hls⟩, hdel⟩
    obtain ⟨a, hal, rfl⟩ := List.mem_map.mp hi
    refine List.mem_map_of_mem (List.mem_filter.mpr ⟨hal, ?_⟩)
    rw [Bool.and_eq_true, decide_eq_true_eq]
    exact ⟨hls, by simp [undeleted, hdel]⟩

lemma ascending_intersection (h : ∀ l ∈ ls, Ascending docId l) :
    Ascending docId (intersection docId deletion ls) := by
  cases ls with
  | nil => exact List.Pairwise.nil
  | cons l ls => exact (h l List.mem_cons_self).sublist List.filter_sublist

/-- The order of the lists does not matter. -/
lemma map_intersection_perm (hperm : ls'.Perm ls) (hne : ls ≠ [])
    (h : ∀ l ∈ ls, Ascending docId l) :
    (intersection docId deletion ls').map docId = (intersection docId deletion ls).map docId := by
  have hne' : ls' ≠ [] := by
    rintro rfl
    exact hne hperm.nil_eq.symm
  have h' : ∀ l ∈ ls', Ascending docId l := fun l hl => h l (hperm.mem_iff.mp hl)
  refine List.Pairwise.eq_of_mem_iff (r := (· < ·))
    (List.pairwise_map.mpr (ascending_intersection h'))
    (List.pairwise_map.mpr (ascending_intersection h)) fun i => ?_
  rw [mem_map_intersection hne', mem_map_intersection hne]
  simp only [hperm.mem_iff]

end

/-! ## `ts_seek_intersect` -/

section

variable {docId : DocPtr → ℕ} (deletion : Bitmap) {m₀ : BucketMemory DocPtr}

/-- The temporaries as they are initialised. -/
lemma RawSeek.temps_init (m : BucketMemory DocPtr) :
    ∃ tmp0 tmp1 m₁ m₂ qs, RawContainer.init m = .ok (tmp0, m₁) ∧
      RawContainer.init m₁ = .ok (tmp1, m₂) ∧
      RawSeek.Temps m ⟨fun idx => if idx then tmp1 else tmp0, none, m₂⟩ qs fun _ => [] := by
  obtain ⟨tmp0, m₁, hok₁, h₁, hw₁⟩ := RawContainer.built_init m
  obtain ⟨tmp1, m₂, hok₂, h₂, hw₂⟩ := RawContainer.built_init m₁
  have hapart : [m.next].Disjoint [m₁.next] := hw₂.disjoint h₁.lists.lt_next (by simp)
  refine ⟨tmp0, tmp1, m₁, m₂, fun idx => if idx then [m₁.next] else [m.next], hok₁, hok₂, ?_, ?_,
    ?_⟩
  · intro idx
    cases idx with
    | false => exact h₁.frame hw₂ (by simp)
    | true => exact h₂
  · intro idx
    cases idx with
    | false => exact hapart
    | true => exact hapart.symm
  · intro idx
    cases idx with
    | false =>
        have hw : m.Writes [] ([m.next] ++ [m₁.next]) m₂ :=
          hw₁.trans (hw₂.weaken (by simp) (by simp))
        exact hw.weaken (by simp) (by simp)
    | true => exact (hw₁.trans (hw₂.weaken (by simp) fun _ hp => .inr (.inl hp)))

/-- Freeing the temporaries leaves memory as it was but for what the call wrote to `out`. -/
lemma RawSeek.Temps.destroy {s : RawSeek} {qs : Bool → List BucketPtr} {ts : Bool → List DocPtr}
    {os os' : List BucketPtr} {m : BucketMemory DocPtr} (h : s.Temps m₀ qs ts)
    (hos : ∀ p ∈ os, p < m₀.next) (hw : s.mem.Writes os os' m) :
    ∃ m₁ m₂ ps, (s.cc false).destroy m = .ok m₁ ∧ (s.cc true).destroy m₁ = .ok m₂ ∧
      m₀.Writes os os' m₂ ∧ m.Writes ps [] m₂ ∧ os'.Disjoint ps := by
  have hdisj : ∀ idx, (qs idx).Disjoint os := fun idx =>
    ((h.fresh idx).disjoint hos (by simp)).symm
  have hdisj' : ∀ idx, (qs idx).Disjoint os' := fun idx =>
    hw.disjoint (h.built idx).lists.lt_next (hdisj idx)
  have hlists : ∀ idx, (s.cc idx).Lists m (qs idx) (ts idx) := fun idx =>
    (h.built idx).lists.frame hw (hdisj idx)
  obtain ⟨m₁, hok₁, hw₁, -⟩ := (hlists false).destroy
  obtain ⟨m₂, hok₂, hw₂, -⟩ := ((hlists true).frame hw₁ (h.apart true)).destroy
  have hw₁' : m.Writes (qs false ++ qs true) (qs true) m₁ :=
    hw₁.weaken (by simp) fun p hp => .inl (List.mem_append_right _ hp)
  have hfreed : m.Writes (qs false ++ qs true) [] m₂ := hw₁'.trans hw₂
  refine ⟨m₁, m₂, qs false ++ qs true, hok₁, hok₂, ?_, hfreed,
    List.disjoint_append_right.mpr ⟨(hdisj' false).symm, (hdisj' true).symm⟩⟩
  have hbefore : m₀.Writes os (os ++ (qs false ++ qs true)) s.mem := by
    refine (h.fresh false).weaken (by simp) fun p hp => ?_
    simp only [List.mem_append] at hp
    rcases hp with hp | hp | hp
    · exact .inl hp
    · exact .inr (.inl hp)
    · exact .inr (.inr (((h.fresh true).2 p hp).resolve_left (by simp)))
  have hduring : s.mem.Writes (os ++ (qs false ++ qs true)) (os' ++ (qs false ++ qs true)) m := by
    refine hw.weaken (by simp) fun p hp => ?_
    rcases List.mem_append.mp hp with hp | hp
    · exact .inr (.inl hp)
    · exact .inl (List.mem_append_right os hp)
  have hafter : m.Writes (os' ++ (qs false ++ qs true)) os' m₂ :=
    hfreed.weaken (by simp) fun p hp => .inl (List.mem_append_left _ hp)
  exact (hbefore.trans hduring).trans hafter

/-- The call as a whole, on `ids_list` with the two first containers named. -/
lemma seekIntersect_built {first second : SeekInput} {rest : List SeekInput} {out : RawContainer}
    {os : List BucketPtr} {ys : List DocPtr} {copiedLen : ℕ}
    (hinputs : ∀ input ∈ first :: second :: rest, input.Sorted docId m₀) (hout : out.Built m₀ os ys)
    (hdisj : ∀ input ∈ first :: second :: rest, input.ptrs.Disjoint os) (hcopied : 1 ≤ copiedLen)
    (hroom : ys.length + min copiedLen (intersection docId deletion
      ((first :: second :: rest).map SeekInput.ids)).length ≤ containerCapacity) (total : ℕ) :
    ∃ out' total' m' os', RawContainer.seekIntersect docId deletion
        ((first :: second :: rest).map SeekInput.container) out copiedLen total m₀ =
          .ok (0, out', total', m') ∧
      out'.Built m' os' (ys ++ (intersection docId deletion
        ((first :: second :: rest).map SeekInput.ids)).take copiedLen) ∧
      m₀.Writes os os' m' ∧
      ∀ input ∈ first :: second :: rest, input.container.Lists m' input.ptrs input.ids := by
  obtain ⟨hfirst, hasc, hsize⟩ := hinputs first (by simp)
  obtain ⟨tmp0, tmp1, m₁, m₂, qs, hinit₁, hinit₂, htemps⟩ := RawSeek.temps_init m₀
  have hrest : ∀ input ∈ second :: rest, input.Sorted docId m₀ := fun input hin =>
    hinputs input (List.mem_cons_of_mem first hin)
  obtain ⟨s, empty, qs', ts', hloop, h, hfold⟩ :=
    RawSeek.loop_spec deletion hfirst hrest (i := 1) htemps (by simp) hasc hsize
  set zs := intersection docId deletion ((first :: second :: rest).map SeekInput.ids) with hzs
  have hcur : (if empty then [] else s.current first.ids ts') = zs :=
    hfold.trans (intersection_cons (by simp)).symm
  have hout' : out.Built s.mem os ys := hout.frame (h.fresh false) (by simp)
  -- what is left to copy: nothing if the loop left early
  obtain ⟨out', total', m₃, os', hcopy, hbuilt, hw⟩ : ∃ out' total' m₃ os',
      s.copyOut first.container out copiedLen total empty = .ok (out', total', m₃) ∧
      out'.Built m₃ os' (ys ++ zs.take copiedLen) ∧ s.mem.Writes os os' m₃ := by
    cases empty with
    | true =>
        rw [← hcur]
        exact ⟨out, total, s.mem, os, rfl, by simpa using hout', Heap.Writes.refl ..⟩
    | false =>
        obtain ⟨ps, hread, -, hapart⟩ := h.read hfirst
        rw [show s.current first.ids ts' = zs from hcur] at hread
        have hlen : zs.length ≤ containerCapacity := (List.length_filter_le _ _).trans hsize
        obtain ⟨out', m₃, os', hok, hbuilt, hw⟩ := hread.copyUpTo hout'
          (hapart os hout.lists.lt_next (hdisj first (by simp))) hcopied hlen hroom
        refine ⟨out', (s.read first.container).total, m₃, os', ?_, hbuilt, hw⟩
        exact bind_eq_ok.mpr ⟨_, hok, rfl⟩
  obtain ⟨m₄, m₅, ps, hok₄, hok₅, hw₅, hfreed, hapart⟩ := h.destroy hout.lists.lt_next hw
  refine ⟨out', total', m₅, os', ?_, hbuilt.frame hfreed hapart, hw₅, fun input hin =>
    (hinputs input hin).lists.frame hw₅ (hdisj input hin)⟩
  rw [List.map_cons] at hloop
  simp only [List.map_cons, RawContainer.seekIntersect, hinit₁, hinit₂, hloop, hcopy, hok₄, hok₅,
    bind, Except.bind]
  rfl

/-- **Multi-way intersection.**  For at least two containers whose ids ascend and an `out` that is
none of them, with room for the result, `ts_seek_intersect` reads no null and no freed bucket,
appends the first `copied_len` ids of the intersection to `out` and changes nothing else.  The
intersection ascends, it holds the ids that are in every container and not deleted, and it does not
depend on the order of the containers. -/
theorem seek_intersect (m : BucketMemory DocPtr) {inputs : List SeekInput} {out : RawContainer}
    {os : List BucketPtr} {ys : List DocPtr} {copiedLen : ℕ} (hlen : 2 ≤ inputs.length)
    (hinputs : ∀ input ∈ inputs, input.Sorted docId m) (hout : out.Built m os ys)
    (hdisj : ∀ input ∈ inputs, input.ptrs.Disjoint os) (hcopied : 1 ≤ copiedLen)
    (hroom : ys.length + min copiedLen
      (intersection docId deletion (inputs.map SeekInput.ids)).length ≤ containerCapacity)
    (total : ℕ) :
    (∃ out' total' m' os', RawContainer.seekIntersect docId deletion
        (inputs.map SeekInput.container) out copiedLen total m = .ok (0, out', total', m') ∧
      out'.Built m' os'
        (ys ++ (intersection docId deletion (inputs.map SeekInput.ids)).take copiedLen) ∧
      m.Writes os os' m' ∧ ∀ input ∈ inputs, input.container.Lists m' input.ptrs input.ids) ∧
    Ascending docId (intersection docId deletion (inputs.map SeekInput.ids)) ∧
    (∀ i, i ∈ (intersection docId deletion (inputs.map SeekInput.ids)).map docId ↔
      (∀ input ∈ inputs, i ∈ input.ids.map docId) ∧ deletion.get i = false) ∧
    ∀ inputs' : List SeekInput, inputs'.Perm inputs →
      (intersection docId deletion (inputs'.map SeekInput.ids)).map docId =
        (intersection docId deletion (inputs.map SeekInput.ids)).map docId := by
  have hne : inputs.map SeekInput.ids ≠ [] := by
    rintro hnil
    rw [List.map_eq_nil_iff.mp hnil] at hlen
    simp at hlen
  have hasc : ∀ l ∈ inputs.map SeekInput.ids, Ascending docId l :=
    List.forall_mem_map.mpr fun input hin => (hinputs input hin).ascending
  refine ⟨?_, ascending_intersection hasc, fun i => ?_, fun inputs' hperm =>
    map_intersection_perm (hperm.map SeekInput.ids) hne hasc⟩
  · obtain ⟨first, second, rest, rfl⟩ : ∃ first second rest, inputs = first :: second :: rest := by
      match inputs, hlen with
      | first :: second :: rest, _ => exact ⟨first, second, rest, rfl⟩
    exact seekIntersect_built deletion hinputs hout hdisj hcopied hroom total
  · rw [mem_map_intersection hne, List.forall_mem_map]

/-- `seek_intersect` for two containers of three ids, one of which is deleted. -/
theorem seek_intersect_sample : ∃ (m : BucketMemory DocPtr) (c₁ c₂ out : RawContainer),
    c₁.visited m = .ok [some 1, some 2, some 3] ∧ c₂.visited m = .ok [some 2, some 3, some 4] ∧
    out.visited m = .ok [] ∧
    ∃ out' total' m', RawContainer.seekIntersect id ((Bitmap.init).set 3) [c₁, c₂] out 5 0 m =
        .ok (0, out', total', m') ∧ out'.visited m' = .ok [some 2] := by
  obtain ⟨-, -, c₁, m₁, ps₁, -, -, h₁, -⟩ := RawContainer.built_appendAll
    (Heap.empty : BucketMemory DocPtr) (show [1, 2, 3].length ≤ containerCapacity by decide)
  obtain ⟨-, -, c₂, m₂, ps₂, -, -, h₂, hw₂⟩ :=
    RawContainer.built_appendAll m₁ (show [2, 3, 4].length ≤ containerCapacity by decide)
  obtain ⟨out, m, hinit, hout, hw⟩ := RawContainer.built_init m₂
  have hlists₁ : c₁.Lists m ps₁ [1, 2, 3] :=
    (h₁.lists.frame hw₂ (by simp)).frame hw (by simp)
  have hlists₂ : c₂.Lists m ps₂ [2, 3, 4] := h₂.lists.frame hw (by simp)
  have hsorted₁ : SeekInput.Sorted id m ⟨c₁, ps₁, [1, 2, 3]⟩ :=
    ⟨hlists₁, by simp [Ascending], by simp [containerCapacity]⟩
  have hsorted₂ : SeekInput.Sorted id m ⟨c₂, ps₂, [2, 3, 4]⟩ :=
    ⟨hlists₂, by simp [Ascending], by simp [containerCapacity]⟩
  have hdisj₁ : ps₁.Disjoint [m₂.next] :=
    hw.disjoint (h₁.lists.frame hw₂ (by simp)).lt_next (by simp)
  have hdisj₂ : ps₂.Disjoint [m₂.next] := hw.disjoint h₂.lists.lt_next (by simp)
  have hroom : 0 + min 5 (intersection id ((Bitmap.init).set 3) [[1, 2, 3], [2, 3, 4]]).length ≤
      containerCapacity := by decide
  obtain ⟨⟨out', total', m', os', hok, hbuilt, -, -⟩, -⟩ := seek_intersect ((Bitmap.init).set 3) m
    (show 2 ≤ [(⟨c₁, ps₁, [1, 2, 3]⟩ : SeekInput), ⟨c₂, ps₂, [2, 3, 4]⟩].length from le_rfl)
    (List.forall_mem_cons.mpr ⟨hsorted₁, List.forall_mem_singleton.mpr hsorted₂⟩) hout
    (List.forall_mem_cons.mpr ⟨hdisj₁, List.forall_mem_singleton.mpr hdisj₂⟩)
    (show 1 ≤ 5 by decide) hroom 0
  exact ⟨m, c₁, c₂, out, hlists₁.visited, hlists₂.visited, hout.lists.visited, out', total', m',
    hok, hbuilt.lists.visited⟩

end

end TsEngine
