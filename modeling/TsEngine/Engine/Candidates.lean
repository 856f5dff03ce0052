import TsEngine.Framework.Contest
import TsEngine.Engine.Reachable

/-!
# Which segments a merge chooses

`ts_merger_get_segments` is meant to choose the inactive segment with the largest share of deleted
documents, if that share reaches `MERGE_DELETED_RATIO`.  This file compares it with the exact
shares, for any list of segments and not just a reachable one.

The loop is a `Framework.contest` under the score `deleted_radio`, an integer quotient, so it
sees only whether a segment is fully deleted.  It chooses exactly when a fully deleted segment
comes after the first inactive one; the two it then returns are right.
`getSegments_selects_iff` says when that agrees with the exact shares.
-/

namespace TsEngine

open Framework

namespace Engine

variable {L : Type} [SegmentList L] {e : Engine L} {segs : SegPtr → Segment} {p : SegPtr}

/-- The inactive members of the list, in its order. -/
def inactive (e : Engine L) : List SegPtr :=
  e.listed.filter fun p => (e.segs p).state ≠ segmentStateActive

/-- The exact share of deleted documents. -/
def deletedShare (seg : Segment) : ℚ := seg.numTotalDeleted / seg.numTotalDocs

/-- `MERGE_DELETED_RATIO`. -/
def mergeDeletedRatio : ℚ := 0.2

/-- A list to choose from: at least three segments, one of them active, and counters of the
others that make sense. -/
structure Mergeable (e : Engine L) : Prop where
  nodup : e.listed.Nodup
  length : 3 ≤ e.listed.length
  active : e.listed.countP (fun p => (e.segs p).state = segmentStateActive) = 1
  pos : ∀ p ∈ e.inactive, 0 < (e.segs p).numTotalDocs
  le : ∀ p ∈ e.inactive, (e.segs p).numTotalDeleted ≤ (e.segs p).numTotalDocs

instance (e : Engine L) : Decidable e.Mergeable :=
  decidable_of_iff (e.listed.Nodup ∧ 3 ≤ e.listed.length ∧
      e.listed.countP (fun p => (e.segs p).state = segmentStateActive) = 1 ∧
      (∀ p ∈ e.inactive, 0 < (e.segs p).numTotalDocs) ∧
      ∀ p ∈ e.inactive, (e.segs p).numTotalDeleted ≤ (e.segs p).numTotalDocs)
    ⟨fun ⟨hnodup, hlength, hactive, hpos, hle⟩ => ⟨hnodup, hlength, hactive, hpos, hle⟩,
      fun h => ⟨h.nodup, h.length, h.active, h.pos, h.le⟩⟩

/-- The outcome `r` is a choice by exact shares. -/
structure Selects (e : Engine L) (r : Option (SegPtr × SegPtr)) : Prop where
  isSome_iff : r.isSome ↔ ∃ p ∈ e.inactive, mergeDeletedRatio ≤ deletedShare (e.segs p)
  best : ∀ m1 m2, r = some (m1, m2) → m1 ≠ m2 ∧ m1 ∈ e.inactive ∧ m2 ∈ e.inactive ∧
    ∀ p ∈ e.inactive, deletedShare (e.segs p) ≤ deletedShare (e.segs m1)

/-! ## The loop as a contest -/

/-- The value of `deleted_radio` where it is defined. -/
def radio (segs : SegPtr → Segment) (p : SegPtr) : ℕ :=
  (segs p).numTotalDeleted / (segs p).numTotalDocs

lemma deletedRadio_eq (hp : 0 < (segs p).numTotalDocs) :
    deletedRadio (segs p) = .ok (radio segs p) := if_neg hp.ne'

/-- The locals of the loop while a contest stands at `r`. -/
def Candidates.ofContest (r : SegPtr × Option SegPtr) : Candidates := ⟨some r.1, r.2, r.2.isSome⟩

/-- One iteration at an inactive segment is one step of the contest. -/
lemma considerSegment_ofContest {r : SegPtr × Option SegPtr}
    (hstate : (segs p).state ≠ segmentStateActive) (hp : 0 < (segs p).numTotalDocs)
    (hr : 0 < (segs r.1).numTotalDocs) :
    considerSegment segs (.ofContest r) p = .ok (.ofContest (contest (radio segs) r p)) := by
  unfold considerSegment contest
  rw [if_neg hstate]
  simp only [Candidates.ofContest, deletedRadio_eq hp, deletedRadio_eq hr, bind, Except.bind]
  by_cases hle : radio segs r.1 ≤ radio segs p
  · rw [if_pos hle, if_pos hle]
    rfl
  · rw [if_neg hle, if_neg hle]

/-- The iterations after the first inactive segment. -/
lemma foldlM_considerSegment {l : List SegPtr}
    (hpos : ∀ p ∈ l, (segs p).state ≠ segmentStateActive → 0 < (segs p).numTotalDocs)
    {r : SegPtr × Option SegPtr} (hr : 0 < (segs r.1).numTotalDocs) :
    l.foldlM (considerSegment segs) (.ofContest r) = .ok (.ofContest
      ((l.filter fun p => (segs p).state ≠ segmentStateActive).foldl
        (contest (radio segs)) r)) := by
  induction l generalizing r with
  | nil => rfl
  | cons p l ih =>
      have hl := fun q hq => hpos q (List.mem_cons_of_mem p hq)
      rw [List.foldlM_cons]
      by_cases hstate : (segs p).state = segmentStateActive
      · have hskip : considerSegment segs (.ofContest r) p = .ok (.ofContest r) := if_pos hstate
        rw [hskip, List.filter_cons_of_neg (by simp [hstate])]
        exact ih hl hr
      · have hp := hpos p List.mem_cons_self hstate
        have hbest : 0 < (segs (contest (radio segs) r p).1).numTotalDocs := by
          unfold contest
          split_ifs <;> assumption
        rw [considerSegment_ofContest hstate hp hr, List.filter_cons_of_pos (by simp [hstate])]
        exact ih hl hbest

/-- **The whole loop**: the first inactive segment enters unopposed, the others compete. -/
lemma foldlM_considerSegment_start {l : List SegPtr}
    (hpos : ∀ p ∈ l, (segs p).state ≠ segmentStateActive → 0 < (segs p).numTotalDocs) :
    l.foldlM (considerSegment segs) ⟨none, none, false⟩ = .ok
      (match l.filter fun p => (segs p).state ≠ segmentStateActive with
      | [] => ⟨none, none, false⟩
      | a :: rest => .ofContest (rest.foldl (contest (radio segs)) (a, none))) := by
  induction l with
  | nil => rfl
  | cons p l ih =>
      have hl := fun q hq => hpos q (List.mem_cons_of_mem p hq)
      rw [List.foldlM_cons]
      by_cases hstate : (segs p).state = segmentStateActive
      · have hskip : considerSegment segs ⟨none, none, false⟩ p = .ok ⟨none, none, false⟩ :=
          if_pos hstate
        rw [hskip, List.filter_cons_of_neg (by simp [hstate])]
        exact ih hl
      · have hfirst : considerSegment segs ⟨none, none, false⟩ p = .ok (.ofContest (p, none)) :=
          if_neg hstate
        rw [hfirst, List.filter_cons_of_pos (by simp [hstate])]
        exact foldlM_considerSegment hl (hpos p List.mem_cons_self hstate)

/-! ## Integer quotients and exact shares -/

section

variable {seg : Segment} (hpos : 0 < seg.numTotalDocs)
  (hle : seg.numTotalDeleted ≤ seg.numTotalDocs)

include hpos hle

lemma deletedShare_le_one : deletedShare seg ≤ 1 := by
  have hpos : (0 : ℚ) < seg.numTotalDocs := by exact_mod_cast hpos
  rw [deletedShare, div_le_one hpos]
  exact_mod_cast hle

/-- The integer quotient is positive for a fully deleted segment only. -/
lemma one_le_quotient_iff :
    1 ≤ seg.numTotalDeleted / seg.numTotalDocs ↔ seg.numTotalDeleted = seg.numTotalDocs := by
  rw [Nat.le_div_iff_mul_le hpos, one_mul]
  exact ⟨fun h => le_antisymm hle h, fun h => h.ge⟩

omit hle in
lemma deletedShare_of_eq (heq : seg.numTotalDeleted = seg.numTotalDocs) :
    deletedShare seg = 1 := by
  rw [deletedShare, heq]
  exact div_self (by exact_mod_cast hpos.ne')

end

lemma reachesMergeRatio_iff (k : ℕ) : reachesMergeRatio k = true ↔ 1 ≤ k := by
  simp only [reachesMergeRatio, decide_eq_true_eq]
  omega

/-! ## The choice -/

lemma mem_inactive : p ∈ e.inactive ↔ p ∈ e.listed ∧ (e.segs p).state ≠ segmentStateActive := by
  simp [inactive]

/-- **What the code returns**: a fully deleted segment and another one, if some segment after the
first inactive one is fully deleted. -/
lemma Mergeable.getSegments_spec (h : e.Mergeable) :
    ∃ r, e.getSegments = .ok r ∧
      (r.isSome ↔ ∃ p ∈ e.inactive.tail,
        (e.segs p).numTotalDeleted = (e.segs p).numTotalDocs) ∧
      ∀ m1 m2, r = some (m1, m2) → m1 ≠ m2 ∧ m1 ∈ e.inactive ∧ m2 ∈ e.inactive ∧
        (e.segs m1).numTotalDeleted = (e.segs m1).numTotalDocs := by
  have hnodup : e.inactive.Nodup := h.nodup.filter _
  have hpos : ∀ p ∈ e.listed, (e.segs p).state ≠ segmentStateActive →
      0 < (e.segs p).numTotalDocs := fun p hp hstate => h.pos p (mem_inactive.mpr ⟨hp, hstate⟩)
  have hfold := foldlM_considerSegment_start hpos
  have hfilter : (e.listed.filter fun p => (e.segs p).state ≠ segmentStateActive) = e.inactive :=
    rfl
  have hlength : ¬e.listed.length < 3 := not_lt.mpr h.length
  rw [hfilter] at hfold
  unfold getSegments
  rw [if_neg hlength, hfold]
  cases hlist : e.inactive with
  | nil => exact ⟨none, rfl, by simp, by simp⟩
  | cons a rest =>
      have hmem : ∀ {q}, q ∈ a :: rest → q ∈ e.inactive := fun hq => hlist ▸ hq
      have hfull : ∀ {q}, q ∈ a :: rest → (1 ≤ radio e.segs q ↔
          (e.segs q).numTotalDeleted = (e.segs q).numTotalDocs) := fun hq =>
        one_le_quotient_iff (h.pos _ (hmem hq)) (h.le _ (hmem hq))
      have hcontest := contested_foldl (radio e.segs) a rest
      simp only [List.tail_cons, Candidates.ofContest, bind, Except.bind]
      generalize rest.foldl (contest (radio e.segs)) (a, none) = r at hcontest ⊢
      have hpos := h.pos r.1 (hmem hcontest.best_mem)
      -- the best is fully deleted, and somebody was displaced
      have hiff : (r.2.isSome ∧ 1 ≤ radio e.segs r.1) ↔
          ∃ q ∈ rest, (e.segs q).numTotalDeleted = (e.segs q).numTotalDocs := by
        constructor
        · rintro ⟨hsome, hbest⟩
          have hrest := hcontest.best_mem_of_isSome hsome
          exact ⟨r.1, hrest, (hfull (List.mem_cons_of_mem a hrest)).mp hbest⟩
        · rintro ⟨q, hq, heq⟩
          have hqmem := List.mem_cons_of_mem a hq
          have hone := (hfull hqmem).mpr heq
          have hfirst : radio e.segs a ≤ 1 := Nat.div_le_of_le_mul (by
            rw [mul_one]
            exact h.le a (hmem List.mem_cons_self))
          exact ⟨hcontest.isSome_iff.mpr ⟨q, hq, hfirst.trans hone⟩,
            hone.trans (hcontest.le_best q hqmem)⟩
      cases hsecond : r.2 with
      | none =>
          refine ⟨none, by simp, ?_, by simp⟩
          rw [← hiff, hsecond]
          simp
      | some m2 =>
          rw [hsecond] at hiff
          simp only [Option.isSome_some, deletedRadio_eq hpos]
          by_cases hreach : 1 ≤ radio e.segs r.1
          · refine ⟨some (r.1, m2), if_pos ((reachesMergeRatio_iff _).mpr hreach), ?_, ?_⟩
            · rw [← hiff]
              simp [hreach]
            · intro m1 m2' heq
              obtain ⟨rfl, rfl⟩ : r.1 = m1 ∧ m2 = m2' := by simpa using heq
              refine ⟨(hcontest.ne (hlist ▸ hnodup) m2 hsecond).symm, hcontest.best_mem,
                hcontest.second_mem m2 hsecond, (hfull hcontest.best_mem).mp hreach⟩
          · refine ⟨none, if_neg fun hr => hreach ((reachesMergeRatio_iff _).mp hr), ?_, by simp⟩
            rw [← hiff]
            simp [hreach]

/-- **When the choice follows the exact shares**: exactly if a segment after the first inactive
one is fully deleted, or no share reaches the threshold. -/
theorem getSegments_selects_iff (h : e.Mergeable) :
    ∃ r, e.getSegments = .ok r ∧ (e.Selects r ↔
      (∃ p ∈ e.inactive.tail, (e.segs p).numTotalDeleted = (e.segs p).numTotalDocs) ∨
        ∀ p ∈ e.inactive, deletedShare (e.segs p) < mergeDeletedRatio) := by
  obtain ⟨r, hget, hsome, hspec⟩ := h.getSegments_spec
  refine ⟨r, hget, fun hsel => ?_, fun hcond => ⟨⟨fun hr => ?_, ?_⟩, fun m1 m2 heq => ?_⟩⟩
  · by_cases hr : r.isSome
    · exact .inl (hsome.mp hr)
    · refine .inr fun p hp => not_le.mp fun hreach => hr (hsel.isSome_iff.mpr ⟨p, hp, hreach⟩)
  · obtain ⟨p, hp, heq⟩ := hsome.mp hr
    have hp := List.mem_of_mem_tail hp
    refine ⟨p, hp, ?_⟩
    rw [deletedShare_of_eq (h.pos p hp) heq]
    norm_num [mergeDeletedRatio]
  · rintro ⟨p, hp, hreach⟩
    exact hsome.mpr (hcond.resolve_right fun hall => not_le.mpr (hall p hp) hreach)
  · obtain ⟨hne, hm1, hm2, hfull⟩ := hspec m1 m2 heq
    refine ⟨hne, hm1, hm2, fun p hp => ?_⟩
    rw [deletedShare_of_eq (h.pos m1 hm1) hfull]
    exact deletedShare_le_one (h.pos p hp) (h.le p hp)

/-- `getSegments_selects_iff` where the older of two segments is fully deleted. -/
theorem getSegments_selects_iff_sample :
    ∃ l e r, (engineSystem (List SegPtr) 1 sampleHeap).Run l e ∧ e.Mergeable ∧
      e.getSegments = .ok r ∧ e.Selects r := by
  obtain ⟨l, e, hrun, htest⟩ := System.exists_run_of_execAll
    (M := engineSystem (List SegPtr) 1 sampleHeap)
    (fun _ e => decide (e.Mergeable ∧ ∃ p ∈ e.inactive.tail,
      (e.segs p).numTotalDeleted = (e.segs p).numTotalDocs))
    [.add 1, .add 2, .add 3, .remove 1] (by decide +kernel)
  obtain ⟨hmerge, hfull⟩ := of_decide_eq_true htest
  obtain ⟨r, hget, hiff⟩ := getSegments_selects_iff hmerge
  exact ⟨l, e, r, hrun, hmerge, hget, hiff.mpr (.inl hfull)⟩

/-- **A share of one half is not enough**: the integer quotient of `1` by `2` is `0`. -/
theorem getSegments_misses_share :
    ∃ l e r, (engineSystem (List SegPtr) 2 sampleHeap).Run l e ∧ e.Mergeable ∧
      e.getSegments = .ok r ∧ ¬e.Selects r := by
  obtain ⟨l, e, hrun, htest⟩ := System.exists_run_of_execAll
    (M := engineSystem (List SegPtr) 2 sampleHeap)
    (fun _ e => decide (e.Mergeable ∧ e.getSegments = .ok none ∧ 1 ∈ e.inactive ∧
      (e.segs 1).numTotalDeleted = 1 ∧ (e.segs 1).numTotalDocs = 2))
    [.add 1, .add 2, .add 3, .add 4, .add 5, .remove 3] (by decide +kernel)
  obtain ⟨hmerge, hget, hmem, hdeleted, hdocs⟩ := of_decide_eq_true htest
  refine ⟨l, e, none, hrun, hmerge, hget, fun hsel => ?_⟩
  have hshare : mergeDeletedRatio ≤ deletedShare (e.segs 1) := by
    rw [deletedShare, hdeleted, hdocs]
    norm_num [mergeDeletedRatio]
  simpa using hsel.isSome_iff.mpr ⟨1, hmem, hshare⟩

end Engine

end TsEngine
