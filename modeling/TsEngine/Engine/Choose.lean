import TsEngine.Engine.Handlers

/-!
# Choosing the segments to merge

`ts_merger_get_segments` walks the list once and keeps the two best candidates.  Under the
invariant it never divides by zero, and what it returns are two distinct inactive members of the
list, the first of them with every document deleted (`Inv.getSegments_spec`).  The last point is
the consequence of an integer division: `num_total_deleted / num_total_docs` is `0` or `1`, so a
ratio of `0.2` is reached exactly at `1`.
-/

namespace TsEngine

open Framework Segment

namespace Engine

variable {cap : ℕ} {heap : DocHeap} {as : List Action} {e : ListEngine}
  {log : SegPtr → List DocPtr} {p : SegPtr}

/-- The candidates after the segments `seen` have been considered. -/
structure CandidatesOk (segs : SegPtr → Segment) (seen : List SegPtr) (c : Candidates) : Prop where
  mem : ∀ m, c.mseg1 = some m ∨ c.mseg2 = some m →
    m ∈ seen ∧ (segs m).state ≠ segmentStateActive
  ne : c.found = true → ∃ m1 m2, c.mseg1 = some m1 ∧ c.mseg2 = some m2 ∧ m1 ≠ m2

/-- One iteration keeps the candidates in order, and does not divide by zero. -/
lemma considerSegment_ok {segs : SegPtr → Segment} {seen : List SegPtr} {c : Candidates}
    (h : CandidatesOk segs seen c) (hp : p ∉ seen)
    (hpos : ∀ m, (m ∈ seen ∨ m = p) → (segs m).state ≠ segmentStateActive →
      (segs m).numTotalDocs ≠ 0) :
    ∃ c', considerSegment segs c p = .ok c' ∧ CandidatesOk segs (seen ++ [p]) c' := by
  have hkeep : CandidatesOk segs (seen ++ [p]) c :=
    ⟨fun m hm => ⟨by simp [(h.mem m hm).1], (h.mem m hm).2⟩, h.ne⟩
  unfold considerSegment
  split_ifs with hstate
  · exact ⟨c, rfl, hkeep⟩
  cases hm1 : c.mseg1 with
  | none =>
      refine ⟨_, rfl, ⟨?_, fun hfound => ?_⟩⟩
      · rintro m (hm | hm)
        · obtain rfl : p = m := by simpa using hm
          exact ⟨by simp, hstate⟩
        · exact hkeep.mem m (.inr hm)
      · obtain ⟨m1, m2, h1, -⟩ := h.ne hfound
        simp [hm1] at h1
  | some m1 =>
      obtain ⟨hseen, hstate1⟩ := h.mem m1 (.inl hm1)
      have hradio := hpos p (.inr rfl) hstate
      have hradio1 := hpos m1 (.inl hseen) hstate1
      simp only [deletedRadio, hradio, hradio1, if_false, bind, Except.bind]
      split_ifs
      · refine ⟨_, rfl, ⟨?_, fun _ => ⟨p, m1, rfl, rfl, fun heq => hp (heq ▸ hseen)⟩⟩⟩
        rintro m (hm | hm)
        · obtain rfl : p = m := by simpa using hm
          exact ⟨by simp, hstate⟩
        · obtain rfl : m1 = m := by simpa using hm
          exact ⟨by simp [hseen], hstate1⟩
      · exact ⟨c, rfl, hkeep⟩

/-- The inactive members of the list are those whose state says so. -/
lemma ListShape.state_ne_iff (h : ListShape cap e) (hp : p ∈ e.segments) :
    (e.segs p).state ≠ segmentStateActive ↔ p ≠ e.segmentActive := by
  constructor
  · rintro hstate rfl
    exact hstate h.activeState
  · intro hne
    rw [h.otherState p hp hne]
    decide

/-- **The choice never faults**, and picks two distinct inactive segments, the first fully
deleted. -/
lemma Inv.getSegments_spec (h : Inv cap heap as e log) :
    ∃ r, e.getSegments = .ok r ∧ ∀ m1 m2, r = some (m1, m2) →
      m1 ≠ m2 ∧ m1 ∈ e.segments ∧ m2 ∈ e.segments ∧ m1 ≠ e.segmentActive ∧
      m2 ≠ e.segmentActive ∧ (e.segs m1).numTotalDocs = (e.segs m1).numTotalDeleted := by
  unfold getSegments
  split_ifs with hcount
  · exact ⟨none, rfl, by simp⟩
  obtain ⟨c, hfold, hc⟩ := foldlM_eq_ok (f := considerSegment e.segs) (l := e.segments)
    (CandidatesOk e.segs) (b := ⟨none, none, false⟩)
    (fun pre p post c heq hc => by
      have hnodup := h.nodup
      rw [heq] at hnodup
      refine considerSegment_ok hc (fun hp => ?_) fun m hm hstate => ?_
      · exact List.disjoint_of_nodup_append hnodup hp List.mem_cons_self
      · have hmem : m ∈ e.segments := by
          rw [heq]
          rcases hm with hm | rfl <;> simp [*]
        exact h.nonempty m hmem ((h.state_ne_iff hmem).mp hstate))
    ⟨by simp, by simp⟩
  rw [listed_list, hfold]
  simp only [bind, Except.bind]
  split
  · rename_i m1 m2 h1 h2 hfound
    obtain ⟨hmem1, hstate1⟩ := hc.mem m1 (.inl h1)
    obtain ⟨hmem2, hstate2⟩ := hc.mem m2 (.inr h2)
    have hne1 := (h.state_ne_iff hmem1).mp hstate1
    have hpos := h.nonempty m1 hmem1 hne1
    have hle := (h.represents m1 hmem1).numTotalDeleted_le
    simp only [deletedRadio, hpos, if_false]
    split_ifs with hratio
    · refine ⟨_, rfl, fun m1' m2' heq => ?_⟩
      obtain ⟨rfl, rfl⟩ : m1 = m1' ∧ m2 = m2' := by simpa using heq
      refine ⟨?_, hmem1, hmem2, hne1, (h.state_ne_iff hmem2).mp hstate2, ?_⟩
      · obtain ⟨a, b, ha, hb, hab⟩ := hc.ne hfound
        rw [h1] at ha
        rw [h2] at hb
        obtain ⟨rfl, rfl⟩ : m1 = a ∧ m2 = b := ⟨by simpa using ha, by simpa using hb⟩
        exact hab
      · -- a positive quotient of `deleted ≤ total` means that they are equal
        have hquot : (e.segs m1).numTotalDeleted / (e.segs m1).numTotalDocs ≠ 0 := by
          intro h0
          simp [h0, reachesMergeRatio] at hratio
        have hge : (e.segs m1).numTotalDocs ≤ (e.segs m1).numTotalDeleted := by
          by_contra hlt
          exact hquot (Nat.div_eq_of_lt (by omega))
        omega
    · exact ⟨none, rfl, by simp⟩
  · exact ⟨none, rfl, by simp⟩

/-- **The check keeps the invariant** and never faults. -/
lemma Inv.mergeProcCheck (h : Inv cap heap as e log) :
    ∃ e', e.mergeProcCheck = .ok e' ∧ Inv cap heap as e' log := by
  unfold Engine.mergeProcCheck
  split_ifs with hstage
  · exact ⟨e, rfl, h⟩
  have hstage : e.merger.mergeStage = 0 := by simpa using hstage
  obtain ⟨r, hget, hspec⟩ := h.getSegments_spec
  rw [hget]
  simp only [bind, Except.bind]
  match r with
  | none => exact ⟨e, rfl, h⟩
  | some (m1, m2) =>
      obtain ⟨hne, hmem1, hmem2, hact1, hact2, hcounters⟩ := hspec m1 m2 rfl
      have hqueue : e.inputQueue = [] := by
        cases h.phase with
        | idle _ hqueue => exact hqueue
        | _ => omega
      refine ⟨_, rfl, { h with sound := fun p hp hm => ?_, phase := ?_ }⟩
      · exact h.sound p hp fun hm' => by simp [Merging, hstage] at hm'
      · exact .checked m1 m2 rfl hqueue ⟨rfl, rfl, hne, hmem1, hmem2, hact1, hact2,
          fun x hx => (h.represents m1 hmem1).isDeleted_of_counters hcounters hx⟩

end Engine

end TsEngine
