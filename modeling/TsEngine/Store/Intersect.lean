import TsEngine.Framework.Ascending
import TsEngine.Store.Bitmap
import TsEngine.Store.Docid
import TsEngine.Store.Document

/-!
# Intersection of posting lists (`intersect.c`)

`linearIntersect` is the two-iterator pass of `linear_intersect`, with the `do … while (id1 &&
id2)` loop run on a fuel that the lengths of the inputs bound, and `seekIntersect` the fold of
`ts_seek_intersect` over any number of containers through two temporaries that are reset in
turn.  Reading a null `id` and running out of fuel are both the result `none`, so a statement
that the result is `some` rules both out.

On containers whose ids ascend, one pass computes `Framework.common` of the two lists
(`linearIntersect_spec`) and the whole fold its iteration (`seekIntersect_spec`): in particular
the temporary that is reset is never the one being read.
-/

namespace TsEngine

open Framework

/-- The copying loop of `ts_seek_intersect` and of `ts_segment_lookup`: append, then stop once
`limit` ids have been copied. -/
def copyUpTo {α : Type*} (limit : ℕ) : List α → ℕ → DocidContainer α → DocidContainer α
  | [], _, out => out
  | x :: xs, copied, out =>
      let out := out.append x
      if limit ≤ copied + 1 then out else copyUpTo limit xs (copied + 1) out

lemma toList_copyUpTo {α : Type*} {limit copied : ℕ} (h : copied < limit) (xs : List α)
    (out : DocidContainer α) :
    (copyUpTo limit xs copied out).toList = out.toList ++ xs.take (limit - copied) := by
  induction xs generalizing copied out with
  | nil => simp [copyUpTo]
  | cons x xs ih =>
      by_cases hstop : limit ≤ copied + 1
      · have hone : limit - copied = 1 := by omega
        simp [copyUpTo, hstop, hone]
      · have hsucc : limit - copied = (limit - (copied + 1)) + 1 := by omega
        simp [copyUpTo, hstop, ih (by omega : copied + 1 < limit), hsucc]

section

variable (docId : DocPtr → ℕ) (deletion : Bitmap)

/-! ## Two containers -/

/-- The locals of `linear_intersect`. -/
structure LinearState where
  it1 : DocidIterator DocPtr
  it2 : DocidIterator DocPtr
  id1 : Option DocPtr
  id2 : Option DocPtr
  out : DocidContainer DocPtr

/-- `id1 = ts_docid_container_next(&it1)`. -/
def LinearState.next1 (s : LinearState) : LinearState :=
  { s with id1 := s.it1.next.1, it1 := s.it1.next.2 }

/-- `id2 = ts_docid_container_next(&it2)`. -/
def LinearState.next2 (s : LinearState) : LinearState :=
  { s with id2 := s.it2.next.1, it2 := s.it2.next.2 }

/-- `if (!ts_bitmap_get(deletion, *id1)) ts_docid_container_append(out, id1)`. -/
def LinearState.keep (s : LinearState) (a : DocPtr) : LinearState :=
  if deletion.get (docId a) then s else { s with out := s.out.append a }

/-- The body of the loop, at non-null `id1 = a` and `id2 = b`. -/
def linearBody (s : LinearState) (a b : DocPtr) : LinearState :=
  if docId a < docId b then s.next1
  else if docId b < docId a then s.next2
  else (s.keep docId deletion a).next1.next2

/-- The iterators of `linear_intersect` after its two initial `next` calls. -/
def linearStart (input1 input2 out : DocidContainer DocPtr) : LinearState :=
  (LinearState.mk (.init input1) (.init input2) none none out).next1.next2

/-- `do … while (id1 && id2)`. -/
def linearLoop : ℕ → LinearState → Option (DocidContainer DocPtr)
  | 0, _ => none
  | fuel + 1, s =>
      match s.id1, s.id2 with
      | some a, some b =>
          let s := linearBody docId deletion s a b
          if s.id1.isSome && s.id2.isSome then linearLoop fuel s else some s.out
      | _, _ => none

/-- `linear_intersect`. -/
def linearIntersect (input1 input2 out : DocidContainer DocPtr) :
    Option (DocidContainer DocPtr) :=
  if input1.total = 0 ∨ input2.total = 0 then some out
  else
    linearLoop docId deletion (input1.toList.length + input2.toList.length)
      (linearStart input1 input2 out)

/-- The ids that survive the deletion test. -/
def undeleted (deletion : Bitmap) (i : ℕ) : Bool := !deletion.get i

/-- The state of the loop stands for the two lists still to be merged. -/
structure LinearState.Reads (s : LinearState) (l₁ l₂ : List DocPtr) : Prop where
  id1 : s.id1 = l₁.head?
  id2 : s.id2 = l₂.head?
  rest1 : s.it1.rest = l₁.tail
  rest2 : s.it2.rest = l₂.tail
  wf1 : s.it1.Wf
  wf2 : s.it2.Wf

variable {docId} {s : LinearState} {l₁ l₂ : List DocPtr}

lemma LinearState.Reads.next1 (h : s.Reads l₁ l₂) : s.next1.Reads l₁.tail l₂ where
  id1 := by
    show s.it1.next.1 = _
    rw [DocidIterator.next_fst h.wf1, h.rest1]
  id2 := h.id2
  rest1 := by
    show s.it1.next.2.rest = _
    rw [DocidIterator.rest_next h.wf1, h.rest1]
  rest2 := h.rest2
  wf1 := DocidIterator.wf_next h.wf1
  wf2 := h.wf2

lemma LinearState.Reads.next2 (h : s.Reads l₁ l₂) : s.next2.Reads l₁ l₂.tail where
  id1 := h.id1
  id2 := by
    show s.it2.next.1 = _
    rw [DocidIterator.next_fst h.wf2, h.rest2]
  rest1 := h.rest1
  rest2 := by
    show s.it2.next.2.rest = _
    rw [DocidIterator.rest_next h.wf2, h.rest2]
  wf1 := h.wf1
  wf2 := DocidIterator.wf_next h.wf2

lemma LinearState.Reads.keep (h : s.Reads l₁ l₂) (a : DocPtr) :
    (s.keep docId deletion a).Reads l₁ l₂ := by
  unfold LinearState.keep
  split_ifs
  · exact h
  · exact ⟨h.id1, h.id2, h.rest1, h.rest2, h.wf1, h.wf2⟩

@[simp] lemma LinearState.toList_out_keep (a : DocPtr) :
    (s.keep docId deletion a).out.toList =
      s.out.toList ++ if undeleted deletion (docId a) = true then [a] else [] := by
  unfold LinearState.keep undeleted
  split_ifs <;> simp_all

@[simp] lemma LinearState.out_next1 : s.next1.out = s.out := rfl

@[simp] lemma LinearState.out_next2 : s.next2.out = s.out := rfl

lemma linearStart_reads (input1 input2 out : DocidContainer DocPtr) :
    (linearStart input1 input2 out).Reads input1.toList input2.toList where
  id1 := by
    rw [← DocidIterator.rest_init input1]
    exact DocidIterator.next_fst (DocidIterator.wf_init input1)
  id2 := by
    rw [← DocidIterator.rest_init input2]
    exact DocidIterator.next_fst (DocidIterator.wf_init input2)
  rest1 := by
    rw [← DocidIterator.rest_init input1]
    exact DocidIterator.rest_next (DocidIterator.wf_init input1)
  rest2 := by
    rw [← DocidIterator.rest_init input2]
    exact DocidIterator.rest_next (DocidIterator.wf_init input2)
  wf1 := DocidIterator.wf_next (DocidIterator.wf_init input1)
  wf2 := DocidIterator.wf_next (DocidIterator.wf_init input2)

/-- One iteration consumes a head, and moves what it keeps from the intersection to `out`. -/
lemma linearBody_spec {a b : DocPtr} {l₁ l₂ : List DocPtr}
    (h : s.Reads (a :: l₁) (b :: l₂)) (h₁ : Ascending docId (a :: l₁))
    (h₂ : Ascending docId (b :: l₂)) :
    ∃ m₁ m₂, (linearBody docId deletion s a b).Reads m₁ m₂ ∧
      m₁.length + m₂.length < (a :: l₁).length + (b :: l₂).length ∧
      Ascending docId m₁ ∧ Ascending docId m₂ ∧
      (linearBody docId deletion s a b).out.toList ++ common docId (undeleted deletion) m₁ m₂ =
        s.out.toList ++ common docId (undeleted deletion) (a :: l₁) (b :: l₂) := by
  unfold linearBody
  split_ifs with hlt hgt
  · refine ⟨l₁, b :: l₂, h.next1, by simp, h₁.tail, h₂, ?_⟩
    rw [common_cons_of_lt h₂ hlt]
    rfl
  · refine ⟨a :: l₁, l₂, h.next2, by simp, h₁, h₂.tail, ?_⟩
    rw [common_cons_of_gt h₁ hgt]
    rfl
  · have heq : docId a = docId b := by omega
    refine ⟨l₁, l₂, (h.keep deletion a).next1.next2, by simp; omega, h₁.tail, h₂.tail, ?_⟩
    rw [common_cons_of_eq h₁ heq]
    simp

/-- The loop computes the intersection of what is left of the two inputs. -/
lemma linearLoop_spec (fuel : ℕ) {a b : DocPtr} {l₁ l₂ : List DocPtr}
    (h : s.Reads (a :: l₁) (b :: l₂)) (h₁ : Ascending docId (a :: l₁))
    (h₂ : Ascending docId (b :: l₂)) (hfuel : l₁.length + l₂.length < fuel) :
    ∃ out, linearLoop docId deletion fuel s = some out ∧
      out.toList =
        s.out.toList ++ common docId (undeleted deletion) (a :: l₁) (b :: l₂) := by
  induction fuel generalizing s a b l₁ l₂ with
  | zero => omega
  | succ fuel ih =>
      obtain ⟨m₁, m₂, hreads, hlen, hm₁, hm₂, hout⟩ := linearBody_spec deletion h h₁ h₂
      have hid1 : s.id1 = some a := h.id1
      have hid2 : s.id2 = some b := h.id2
      simp only [linearLoop, hid1, hid2, hreads.id1, hreads.id2]
      cases m₁ with
      | nil => exact ⟨_, rfl, by simpa using hout⟩
      | cons a' m₁ =>
          cases m₂ with
          | nil => exact ⟨_, rfl, by simpa using hout⟩
          | cons b' m₂ =>
              simp only [List.length_cons] at hlen
              obtain ⟨out, hloop, hres⟩ := ih hreads hm₁ hm₂ (by omega)
              exact ⟨out, by simpa using hloop, hres.trans hout⟩

/-- **One pass intersects.**  `total` counts modulo `2^32`, so the early exit tests emptiness
only below that size. -/
lemma linearIntersect_spec {input1 input2 : DocidContainer DocPtr}
    (h₁ : Ascending docId input1.toList) (h₂ : Ascending docId input2.toList)
    (hsize₁ : input1.toList.length < 2 ^ 32) (hsize₂ : input2.toList.length < 2 ^ 32)
    (out : DocidContainer DocPtr) :
    ∃ out', linearIntersect docId deletion input1 input2 out = some out' ∧
      out'.toList =
        out.toList ++ common docId (undeleted deletion) input1.toList input2.toList := by
  have htotal₁ : input1.total = input1.toList.length := by
    rw [input1.total_eq, Nat.mod_eq_of_lt hsize₁]
  have htotal₂ : input2.total = input2.toList.length := by
    rw [input2.total_eq, Nat.mod_eq_of_lt hsize₂]
  unfold linearIntersect
  split_ifs with hempty
  · refine ⟨out, rfl, ?_⟩
    rw [htotal₁, htotal₂, List.length_eq_zero_iff, List.length_eq_zero_iff] at hempty
    rcases hempty with h | h <;> simp [h]
  · rw [htotal₁, htotal₂, List.length_eq_zero_iff, List.length_eq_zero_iff, not_or] at hempty
    obtain ⟨a, l₁, hl₁⟩ := List.exists_cons_of_ne_nil hempty.1
    obtain ⟨b, l₂, hl₂⟩ := List.exists_cons_of_ne_nil hempty.2
    have hreads := linearStart_reads input1 input2 out
    rw [hl₁] at h₁ hreads ⊢
    rw [hl₂] at h₂ hreads ⊢
    exact linearLoop_spec deletion _ hreads h₁ h₂ (by simp; omega)

end

/-! ## Any number of containers -/

/-- The temporaries `tmp[2]` of `ts_seek_intersect` and its `p`: `none` points at `ids_list[0]`,
`some idx` at `cc[idx]`. -/
structure SeekState where
  tmp0 : DocidContainer DocPtr
  tmp1 : DocidContainer DocPtr
  p : Option Bool

/-- `cc[idx]`. -/
def SeekState.cc (s : SeekState) : Bool → DocidContainer DocPtr
  | false => s.tmp0
  | true => s.tmp1

/-- `*cc[idx] = c`. -/
def SeekState.setCc (s : SeekState) (idx : Bool) (c : DocidContainer DocPtr) : SeekState :=
  match idx with
  | false => { s with tmp0 := c }
  | true => { s with tmp1 := c }

/-- `*p`. -/
def SeekState.read (s : SeekState) (first : DocidContainer DocPtr) : DocidContainer DocPtr :=
  match s.p with
  | none => first
  | some idx => s.cc idx

section

variable (docId : DocPtr → ℕ) (deletion : Bitmap)

/-- The loop of `ts_seek_intersect` from iteration `i`, over the remaining `ids_list`.  The flag
says that it left through `goto end` because an intersection came out empty. -/
def seekLoop (first : DocidContainer DocPtr) :
    List (DocidContainer DocPtr) → ℕ → SeekState → Option (SeekState × Bool)
  | [], _, s => some (s, false)
  | ids :: idsList, i, s =>
      let idx := i % 2 == 1
      let s := s.setCc idx .init
      (linearIntersect docId deletion (s.read first) ids (s.cc idx)).bind fun out =>
        let s := s.setCc idx out
        if out.total = 0 then some (s, true)
        else seekLoop first idsList (i + 1) { s with p := some idx }

/-- `ts_seek_intersect`.  `total` is what `*total` held before the call; it is written only when
no intersection was empty. -/
def seekIntersect (idsList : List (DocidContainer DocPtr)) (out : DocidContainer DocPtr)
    (copiedLen total : ℕ) : Option (DocidContainer DocPtr × ℕ) :=
  match idsList with
  | first :: second :: rest =>
      (seekLoop docId deletion first (second :: rest) 1 ⟨.init, .init, none⟩).map fun r =>
        if r.2 then (out, total)
        else
          let p := r.1.read first
          (copyUpTo copiedLen p.toList 0 out, p.total)
  | _ => none

end

lemma SeekState.cc_setCc (s : SeekState) (idx : Bool) (c : DocidContainer DocPtr) :
    (s.setCc idx c).cc idx = c := by
  cases idx <;> rfl

@[simp] lemma SeekState.p_setCc (s : SeekState) (idx : Bool) (c : DocidContainer DocPtr) :
    (s.setCc idx c).p = s.p := by
  cases idx <;> rfl

/-- Writing the temporary that `p` does not point at leaves `*p` alone. -/
lemma SeekState.read_setCc {s : SeekState} {idx : Bool} (h : s.p ≠ some idx)
    (c first : DocidContainer DocPtr) : (s.setCc idx c).read first = s.read first := by
  unfold SeekState.read
  rw [SeekState.p_setCc]
  cases hp : s.p with
  | none => rfl
  | some idx' =>
      have hne : idx' ≠ idx := fun he => h (he ▸ hp)
      cases idx <;> cases idx' <;> simp_all [SeekState.setCc, SeekState.cc]

variable {docId : DocPtr → ℕ} (deletion : Bitmap)

/-- The lists of the containers an intersection reads must ascend and be countable in 32 bits. -/
def Searchable (docId : DocPtr → ℕ) (c : DocidContainer DocPtr) : Prop :=
  Ascending docId c.toList ∧ c.toList.length < 2 ^ 32

/-- **The fold computes the iterated intersection.**  The invariant carried is that the
temporary about to be reset is not the one `p` points at. -/
lemma seekLoop_spec (first : DocidContainer DocPtr) {idsList : List (DocidContainer DocPtr)}
    {i : ℕ} {s : SeekState} (hp : s.p ≠ some (i % 2 == 1)) (hread : Searchable docId (s.read first))
    (hids : ∀ ids ∈ idsList, Searchable docId ids) :
    ∃ r, seekLoop docId deletion first idsList i s = some r ∧
      (r.2 = true → (idsList.map DocidContainer.toList).foldl
        (common docId (undeleted deletion)) (s.read first).toList = []) ∧
      (r.2 = false → (r.1.read first).toList = (idsList.map DocidContainer.toList).foldl
        (common docId (undeleted deletion)) (s.read first).toList ∧
        (idsList ≠ [] → (r.1.read first).toList ≠ [])) := by
  induction idsList generalizing i s with
  | nil => exact ⟨(s, false), rfl, by simp, by simp⟩
  | cons ids idsList ih =>
      obtain ⟨hasc, hsize⟩ := hids ids (by simp)
      obtain ⟨out, hout, hlist⟩ := linearIntersect_spec deletion hread.1 hasc hread.2 hsize
        .init
      rw [DocidContainer.toList_init, List.nil_append] at hlist
      have hsearch : Searchable docId out := by
        refine ⟨hlist ▸ ascending_common hread.1, ?_⟩
        rw [hlist]
        exact (List.length_filter_le _ _).trans_lt hread.2
      have htotal : out.total = out.toList.length := by
        rw [out.total_eq, Nat.mod_eq_of_lt hsearch.2]
      simp only [seekLoop, SeekState.read_setCc hp, SeekState.cc_setCc, hout, Option.bind_some,
        List.map_cons, List.foldl_cons, ← hlist]
      by_cases hempty : out.total = 0
      · have hnil : out.toList = [] := List.length_eq_zero_iff.mp (htotal ▸ hempty)
        exact ⟨_, if_pos hempty, fun _ => by rw [hnil, foldl_common_nil], by simp⟩
      · rw [if_neg hempty]
        set s' : SeekState :=
          { (s.setCc (i % 2 == 1) .init).setCc (i % 2 == 1) out with p := some (i % 2 == 1) }
          with hs'
        have hread' : s'.read first = out := by
          show SeekState.cc _ _ = out
          exact SeekState.cc_setCc _ _ _
        have hp' : s'.p ≠ some ((i + 1) % 2 == 1) := by
          simp only [hs', ne_eq, Option.some.injEq]
          rcases Nat.mod_two_eq_zero_or_one i with h | h <;> simp [h, Nat.add_mod]
        obtain ⟨r, hr, htrue, hfalse⟩ :=
          ih hp' (hread' ▸ hsearch) fun ids' h => hids ids' (by simp [h])
        rw [hread'] at htrue hfalse
        refine ⟨r, hr, htrue, fun h => ⟨(hfalse h).1, fun _ => ?_⟩⟩
        cases idsList with
        | nil =>
            rw [(hfalse h).1]
            exact fun hnil => hempty (htotal.trans (by simpa using hnil))
        | cons ids' idsList => exact (hfalse h).2 (by simp)

/-- **Multi-way intersection.**  What is appended is a prefix of the iterated intersection, and
`*total` becomes its size, but is left as it was if that is empty. -/
lemma seekIntersect_spec {first second : DocidContainer DocPtr}
    {rest : List (DocidContainer DocPtr)}
    (hids : ∀ ids ∈ first :: second :: rest, Searchable docId ids)
    (out : DocidContainer DocPtr) {copiedLen : ℕ} (hlen : 1 ≤ copiedLen) (total : ℕ) :
    ∃ out' total', seekIntersect docId deletion (first :: second :: rest) out copiedLen total =
        some (out', total') ∧
      out'.toList = out.toList ++ (((second :: rest).map DocidContainer.toList).foldl
        (common docId (undeleted deletion)) first.toList).take copiedLen ∧
      (((second :: rest).map DocidContainer.toList).foldl
        (common docId (undeleted deletion)) first.toList ≠ [] →
        total' = (((second :: rest).map DocidContainer.toList).foldl
          (common docId (undeleted deletion)) first.toList).length % 2 ^ 32) ∧
      (((second :: rest).map DocidContainer.toList).foldl
        (common docId (undeleted deletion)) first.toList = [] → total' = total) := by
  have hp : (⟨.init, .init, none⟩ : SeekState).p ≠ some (1 % 2 == 1) := by simp
  obtain ⟨r, hr, htrue, hfalse⟩ := seekLoop_spec deletion first hp (hids first (by simp))
    fun ids h => hids ids (List.mem_cons_of_mem first h)
  simp only [seekIntersect, hr, Option.map_some]
  cases hflag : r.2 with
  | true =>
      have hnil := htrue hflag
      simp only [SeekState.read] at hnil
      exact ⟨out, total, rfl, by rw [hnil]; simp, fun hne => absurd hnil hne, fun _ => rfl⟩
  | false =>
      obtain ⟨hlist, hne⟩ := hfalse hflag
      have hne := hne (by simp)
      simp only [SeekState.read] at hlist
      refine ⟨_, _, rfl, ?_, fun _ => ?_, fun hnil => absurd (hlist.trans hnil) hne⟩
      · rw [toList_copyUpTo (by omega), Nat.sub_zero]
        exact congrArg (fun l => out.toList ++ l.take copiedLen) hlist
      · rw [DocidContainer.total_eq]
        exact congrArg (fun l => l.length % 2 ^ 32) hlist

end TsEngine
