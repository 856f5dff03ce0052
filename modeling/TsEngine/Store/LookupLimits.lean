import TsEngine.Store.SegmentLookup

/-!
# Lookups with a limit

What `ts_segment_lookup` returns under a limit is a prefix of what it returns without one, on each
of its three paths: the walk stops at the limit, and the other two copy from a list that does not
depend on it.  This holds of any segment, also of one whose posting lists do not ascend, as those
of a source do not while a merge hands its documents new ids.

`Segment.Unbounded` says which documents a lookup without a limit returns, and
`Segment.Unbounded.lookup` what any limit makes of them.
-/

namespace TsEngine

open Framework

section

variable (docId : DocPtr → ℕ) (deletion : Bitmap) {s : LinearState} {l₁ l₂ : List DocPtr}
  {a b : DocPtr}

/-! ## Intersections of lists in any order -/

lemma LinearState.Reads.linearBody (h : s.Reads (a :: l₁) (b :: l₂)) :
    ∃ m₁ m₂, (linearBody docId deletion s a b).Reads m₁ m₂ ∧
      m₁.length + m₂.length < (a :: l₁).length + (b :: l₂).length := by
  unfold TsEngine.linearBody
  split_ifs
  · exact ⟨l₁, b :: l₂, h.next1, by simp⟩
  · exact ⟨a :: l₁, l₂, h.next2, by simp⟩
  · exact ⟨l₁, l₂, (h.keep deletion a).next1.next2, by simp; omega⟩

lemma exists_linearLoop (fuel : ℕ) (h : s.Reads (a :: l₁) (b :: l₂))
    (hfuel : l₁.length + l₂.length < fuel) :
    ∃ out, linearLoop docId deletion fuel s = some out := by
  induction fuel generalizing s a b l₁ l₂ with
  | zero => omega
  | succ fuel ih =>
      obtain ⟨m₁, m₂, hreads, hlen⟩ := h.linearBody docId deletion
      have hid1 : s.id1 = some a := h.id1
      have hid2 : s.id2 = some b := h.id2
      simp only [linearLoop, hid1, hid2, hreads.id1, hreads.id2]
      cases m₁ with
      | nil => exact ⟨_, rfl⟩
      | cons a' m₁ =>
          cases m₂ with
          | nil => exact ⟨_, rfl⟩
          | cons b' m₂ =>
              simp only [List.length_cons] at hlen
              simpa using ih hreads (by omega)

/-- A pass over two containers reads no null, whatever their order. -/
lemma exists_linearIntersect (input1 input2 out : DocidContainer DocPtr) :
    ∃ out', linearIntersect docId deletion input1 input2 out = some out' := by
  unfold linearIntersect
  split_ifs with hempty
  · exact ⟨out, rfl⟩
  · have hne : ∀ {c : DocidContainer DocPtr}, c.total ≠ 0 → c.toList ≠ [] := by
      intro c htotal hnil
      rw [c.total_eq, hnil] at htotal
      exact htotal rfl
    rw [not_or] at hempty
    obtain ⟨a, l₁, h₁⟩ := List.exists_cons_of_ne_nil (hne hempty.1)
    obtain ⟨b, l₂, h₂⟩ := List.exists_cons_of_ne_nil (hne hempty.2)
    have hreads := linearStart_reads input1 input2 out
    rw [h₁, h₂] at hreads ⊢
    exact exists_linearLoop docId deletion _ hreads (by simp; omega)

lemma exists_seekLoop (first : DocidContainer DocPtr) (idsList : List (DocidContainer DocPtr))
    (i : ℕ) (s : SeekState) : ∃ r, seekLoop docId deletion first idsList i s = some r := by
  induction idsList generalizing i s with
  | nil => exact ⟨_, rfl⟩
  | cons ids idsList ih =>
      obtain ⟨out, hout⟩ := exists_linearIntersect docId deletion
        ((s.setCc (i % 2 == 1) .init).read first) ids ((s.setCc (i % 2 == 1) .init).cc (i % 2 == 1))
      simp only [seekLoop, hout, Option.bind_some]
      split_ifs
      · exact ⟨_, rfl⟩
      · exact ih _ _

/-- What is intersected does not depend on how much of it is copied. -/
lemma exists_seekIntersect (first second : DocidContainer DocPtr)
    (rest : List (DocidContainer DocPtr)) : ∃ full : List DocPtr, ∀ out copiedLen, 1 ≤ copiedLen →
      ∀ total, ∃ out' total',
        seekIntersect docId deletion (first :: second :: rest) out copiedLen total =
          some (out', total') ∧ out'.toList = out.toList ++ full.take copiedLen := by
  obtain ⟨⟨s, empty⟩, hloop⟩ := exists_seekLoop docId deletion first (second :: rest) 1
    ⟨.init, .init, none⟩
  simp only [seekIntersect, hloop, Option.map_some]
  cases empty with
  | true => exact ⟨[], fun out _ _ total => ⟨out, total, rfl, by simp⟩⟩
  | false =>
      refine ⟨(s.read first).toList, fun out copiedLen hlen total => ⟨_, _, rfl, ?_⟩⟩
      rw [toList_copyUpTo (by omega), Nat.sub_zero]

end

/-! ## The lookup -/

namespace Segment

variable {docs : DocHeap} {seg : Segment} {terms : List CString} {full : List DocPtr} {limit : ℕ}

lemma length_collectIds {idsList : List Inverted} (h : seg.collectIds terms = some idsList) :
    idsList.length = terms.length := by
  induction terms generalizing idsList with
  | nil =>
      obtain rfl := Option.some.inj h
      rfl
  | cons term terms ih =>
      unfold collectIds at h
      split at h
      · exact absurd h (by simp)
      · split_ifs at h
        obtain ⟨rest, hrest, rfl⟩ := Option.map_eq_some_iff.mp h
        simp [ih hrest]

/-- **A limit takes a prefix**, on every path. -/
lemma exists_lookup (docs : DocHeap) (seg : Segment) (terms : List CString) :
    ∃ full : List DocPtr, ∀ limit, 1 ≤ limit → ∀ ctn total, ∃ ctn' total',
      seg.lookup docs terms limit ctn total = some (0, ctn', total') ∧
        ctn'.toList = ctn.toList ++ full.take limit := by
  by_cases hexit : seg.numTotalDocs = 0 ∨ seg.numTotalDocs = seg.numTotalDeleted
  · refine ⟨[], fun limit hlimit ctn total => ⟨ctn, total, ?_, by simp⟩⟩
    unfold lookup
    rw [if_neg (by omega)]
    rcases hexit with h | h
    · rw [if_pos h]
    · rw [if_pos h, ite_self]
  · rw [not_or] at hexit
    have hlookup : ∀ {limit : ℕ}, 1 ≤ limit → ¬limit < 1 := fun h => by omega
    unfold lookup
    simp only [if_neg hexit.1, if_neg hexit.2]
    cases terms with
    | nil =>
        refine ⟨seg.docPtrs.filter fun x => !seg.deletion.clone.get (docs x).docId,
          fun limit hlimit ctn total => ⟨_, _, if_neg (hlookup hlimit), ?_⟩⟩
        rw [toList_walkUpTo, Nat.sub_zero]
    | cons term terms =>
        cases hids : seg.collectIds (term :: terms) with
        | none =>
            exact ⟨[], fun limit hlimit ctn total => ⟨ctn, 0, if_neg (hlookup hlimit), by simp⟩⟩
        | some idsList =>
            have hlen := length_collectIds hids
            match idsList with
            | [] => simp at hlen
            | [inv] =>
                refine ⟨inv.docIds.toList, fun limit hlimit ctn total =>
                  ⟨_, _, if_neg (hlookup hlimit), ?_⟩⟩
                rw [toList_copyUpTo (by omega), Nat.sub_zero]
            | inv :: inv' :: rest =>
                obtain ⟨full, hfull⟩ := exists_seekIntersect (fun x => (docs x).docId)
                  seg.deletion.clone inv.docIds inv'.docIds (rest.map Inverted.docIds)
                refine ⟨full, fun limit hlimit ctn total => ?_⟩
                obtain ⟨out', total', hok, hout⟩ := hfull ctn limit hlimit total
                refine ⟨out', total', ?_, hout⟩
                rw [if_neg (hlookup hlimit)]
                simp [hok]

/-- `full` is what a lookup returns whose limit leaves room for all of it. -/
def Unbounded (docs : DocHeap) (seg : Segment) (terms : List CString) (full : List DocPtr) : Prop :=
  ∀ limit, 1 ≤ limit → full.length ≤ limit → ∀ ctn total, ∃ ctn' total',
    seg.lookup docs terms limit ctn total = some (0, ctn', total') ∧
      ctn'.toList = ctn.toList ++ full

lemma exists_unbounded (docs : DocHeap) (seg : Segment) (terms : List CString) :
    ∃ full, seg.Unbounded docs terms full := by
  obtain ⟨full, hfull⟩ := exists_lookup docs seg terms
  refine ⟨full, fun limit hlimit hlen ctn total => ?_⟩
  simpa [List.take_of_length_le hlen] using hfull limit hlimit ctn total

/-- **What a lookup returns** under any limit. -/
lemma Unbounded.lookup (h : seg.Unbounded docs terms full) (limit : ℕ)
    (ctn : DocidContainer DocPtr) (total : ℕ) : ∃ code ctn' total',
      seg.lookup docs terms limit ctn total = some (code, ctn', total') ∧
        ctn'.toList = ctn.toList ++ full.take limit := by
  rcases Nat.eq_zero_or_pos limit with rfl | hlimit
  · exact ⟨-1, ctn, total, by simp [Segment.lookup], by simp⟩
  obtain ⟨all, hall⟩ := exists_lookup docs seg terms
  obtain rfl : all = full := by
    obtain ⟨ctn₁, total₁, hok₁, hlist₁⟩ := h (max 1 (max all.length full.length)) (by omega)
      (by omega) ctn total
    obtain ⟨ctn₂, total₂, hok₂, hlist₂⟩ := hall (max 1 (max all.length full.length))
      (by omega) ctn total
    rw [List.take_of_length_le (by omega)] at hlist₂
    rw [hok₁] at hok₂
    simp only [Option.some.injEq, Prod.mk.injEq] at hok₂
    obtain ⟨-, rfl, -⟩ := hok₂
    exact List.append_cancel_left (hlist₂.symm.trans hlist₁)
  obtain ⟨ctn', total', hok, hlist⟩ := hall limit hlimit ctn total
  exact ⟨0, ctn', total', hok, hlist⟩

end Segment

end TsEngine
