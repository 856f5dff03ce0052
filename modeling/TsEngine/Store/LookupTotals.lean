import TsEngine.Store.SegmentIndex

/-!
# The total a lookup reports

`ts_segment_lookup` reports through `*total` how many documents match, whatever the limit.  Its
caller passes an uninitialised variable and uses it again for the next segment, so the total has
to be right whatever `*total` held before.

It is written in four places: before the walk over the primary keys, where a term is missing,
before the copy of a single posting list, and after an intersection that is not empty.  It is not
written at the early exits for a segment without live documents, nor where an intersection comes
out empty, and the single posting list is counted with its deleted documents.
`lookup_total_iff` says that there is no other reason for a wrong total.
-/

namespace TsEngine

open Framework Segment

variable {heap : DocHeap} {ops : List SegmentOp} {s : DocHeap × Segment} {terms : List CString}
  {limit : ℕ}

/-- The live documents that have every term. -/
def matchingDocs (heap : DocHeap) (ops : List SegmentOp) (terms : List CString) : List DocPtr :=
  (liveDocs heap ops).filter fun x => terms.all fun t => (heap x).hasTerm t

/-- Whatever the container and `*total` hold before, a lookup returns `0` and leaves the number of
matching documents in `*total`. -/
def TotalRight (heap : DocHeap) (ops : List SegmentOp) (s : DocHeap × Segment)
    (terms : List CString) (limit : ℕ) : Prop :=
  ∀ ctn total, ∃ ctn' total', s.2.lookup s.1 terms limit ctn total = some (0, ctn', total') ∧
    total' = (matchingDocs heap ops terms).length

/-- The histories and terms for which every path writes the total, and counts no deleted document:
a document is live; none with a single term is deleted; and of several terms some live document
has all, or no document has one of them. -/
structure TotalCounts (heap : DocHeap) (ops : List SegmentOp) (terms : List CString) : Prop where
  live : liveDocs heap ops ≠ []
  single : ∀ term, terms = [term] →
    ∀ x ∈ acceptedDocs heap ops, (heap x).hasTerm term = true → x ∈ liveDocs heap ops
  several : 2 ≤ terms.length →
    (∃ x ∈ liveDocs heap ops, ∀ term ∈ terms, (heap x).hasTerm term = true) ∨
      ∃ term ∈ terms, ∀ x ∈ acceptedDocs heap ops, (heap x).hasTerm term = false

/-! ## Counting the matching documents -/

lemma SegmentInv.matchingDocs_eq (h : SegmentInv heap ops s) (terms : List CString) :
    s.2.matching s.1 (acceptedDocs heap ops) terms = matchingDocs heap ops terms :=
  h.matching_eq terms

lemma mem_matchingDocs {x : DocPtr} : x ∈ matchingDocs heap ops terms ↔
    x ∈ liveDocs heap ops ∧ ∀ term ∈ terms, (heap x).hasTerm term = true := by
  simp [matchingDocs]

/-- The difference of the counters is the number of live documents. -/
lemma SegmentInv.length_liveDocs (h : SegmentInv heap ops s) :
    (liveDocs heap ops).length = s.2.numTotalDocs - s.2.numTotalDeleted := by
  rw [h.represents.numTotalDeleted_eq h.ids, h.represents.numTotalDocs, ← h.live]
  have hsum := List.length_eq_length_filter_add (l := acceptedDocs heap ops)
    fun x => s.2.isDeleted s.1 x
  omega

lemma SegmentInv.length_liveDocs_le (h : SegmentInv heap ops s) :
    (liveDocs heap ops).length ≤ (acceptedDocs heap ops).length := by
  rw [← h.live]
  exact List.length_filter_le _ _

/-- A posting list is as long as its live part if and only if none of its documents is deleted. -/
lemma SegmentInv.length_posting_iff (h : SegmentInv heap ops s) (term : CString) :
    ((acceptedDocs heap ops).filter fun x => (s.1 x).hasTerm term).length =
        (matchingDocs heap ops [term]).length ↔
      ∀ x ∈ acceptedDocs heap ops, (heap x).hasTerm term = true → x ∈ liveDocs heap ops := by
  have hposting : (acceptedDocs heap ops).filter (fun x => (s.1 x).hasTerm term) =
      (acceptedDocs heap ops).filter fun x => (heap x).hasTerm term :=
    List.filter_congr fun x _ => h.sameDocs.hasTerm x term
  have hmatch : matchingDocs heap ops [term] =
      ((acceptedDocs heap ops).filter fun x => (heap x).hasTerm term).filter
        fun x => !s.2.isDeleted s.1 x := by
    rw [matchingDocs, ← h.live, List.filter_filter, List.filter_filter]
    refine List.filter_congr fun x _ => ?_
    simp [Bool.and_comm]
  rw [hposting, hmatch, eq_comm, List.length_filter_eq_length_iff]
  constructor
  · intro hall x hx hterm
    exact h.live_iff.mpr ⟨hx, by simpa using hall x (List.mem_filter.mpr ⟨hx, hterm⟩)⟩
  · intro hall x hx
    obtain ⟨hx, hterm⟩ := List.mem_filter.mp hx
    simpa using (h.live_iff.mp (hall x hx hterm)).2

/-! ## Path by path -/

/-- At the early exits nothing is written. -/
lemma SegmentInv.not_totalRight (h : SegmentInv heap ops s) (hlimit : 1 ≤ limit)
    (hnil : liveDocs heap ops = []) : ¬TotalRight heap ops s terms limit := by
  intro hright
  obtain ⟨ctn', total', hret, htotal⟩ := hright .init 1
  rw [lookup_of_counters_eq hlimit (h.counters_iff.mpr hnil)] at hret
  simp only [Option.some.injEq, Prod.mk.injEq] at hret
  have hzero : (matchingDocs heap ops terms).length = 0 := by simp [matchingDocs, hnil]
  omega

/-- The walk reports the difference of the counters. -/
lemma SegmentInv.totalRight_nil (h : SegmentInv heap ops s) (hlimit : 1 ≤ limit)
    (hsize : (acceptedDocs heap ops).length < 2 ^ 32) (hne : liveDocs heap ops ≠ []) :
    TotalRight heap ops s [] limit := by
  intro ctn total
  have hcounters : s.2.numTotalDocs ≠ s.2.numTotalDeleted := mt h.counters_iff.mp hne
  have hall : matchingDocs heap ops [] = liveDocs heap ops := by simp [matchingDocs]
  rw [lookup_of_counters_ne h.represents hlimit hcounters]
  refine ⟨_, _, rfl, ?_⟩
  rw [hall, ← h.length_liveDocs]
  exact Nat.mod_eq_of_lt (h.length_liveDocs_le.trans_lt hsize)

/-- The copy of a posting list reports its length. -/
lemma SegmentInv.totalRight_singleton_iff (h : SegmentInv heap ops s) (hlimit : 1 ≤ limit)
    (hsize : (acceptedDocs heap ops).length < 2 ^ 32) (hne : liveDocs heap ops ≠ [])
    (term : CString) : TotalRight heap ops s [term] limit ↔
      ∀ x ∈ acceptedDocs heap ops, (heap x).hasTerm term = true → x ∈ liveDocs heap ops := by
  have hcounters : s.2.numTotalDocs ≠ s.2.numTotalDeleted := mt h.counters_iff.mp hne
  rw [← h.length_posting_iff term]
  have hlook := lookup_singleton h.represents hsize term hlimit
  constructor
  · intro hright
    obtain ⟨ctn₁, total₁, hret₁, -, htotal₁⟩ := hlook .init 0
    obtain ⟨ctn₂, total₂, hret₂, htotal₂⟩ := hright .init 0
    rw [hret₁] at hret₂
    simp only [Option.some.injEq, Prod.mk.injEq] at hret₂
    rw [if_neg hcounters] at htotal₁
    omega
  · intro hlen ctn total
    obtain ⟨ctn', total', hret, -, htotal⟩ := hlook ctn total
    rw [if_neg hcounters] at htotal
    exact ⟨ctn', total', hret, htotal.trans hlen⟩

/-- The intersection reports its size, unless it is empty. -/
lemma SegmentInv.totalRight_several_iff (h : SegmentInv heap ops s) (hlimit : 1 ≤ limit)
    (hsize : (acceptedDocs heap ops).length < 2 ^ 32) (hne : liveDocs heap ops ≠ [])
    (hterms : 2 ≤ terms.length) : TotalRight heap ops s terms limit ↔
      (∃ x ∈ liveDocs heap ops, ∀ term ∈ terms, (heap x).hasTerm term = true) ∨
        ∃ term ∈ terms, ∀ x ∈ acceptedDocs heap ops, (heap x).hasTerm term = false := by
  have hcounters : s.2.numTotalDocs ≠ s.2.numTotalDeleted := mt h.counters_iff.mp hne
  have hposting : ∀ term, s.2.posting term = [] ↔
      ∀ x ∈ acceptedDocs heap ops, (heap x).hasTerm term = false := by
    intro term
    rw [h.represents.posting, List.filter_eq_nil_iff]
    refine forall₂_congr fun x _ => ?_
    rw [h.sameDocs.hasTerm, Bool.not_eq_true]
  have hlook := lookup_intersect h.represents h.ids hsize hlimit hcounters hterms
  simp only [h.matchingDocs_eq] at hlook
  constructor
  · intro hright
    by_contra hnot
    rw [not_or] at hnot
    have hnil : matchingDocs heap ops terms = [] :=
      List.eq_nil_iff_forall_not_mem.mpr fun x hx => hnot.1 ⟨x, mem_matchingDocs.mp hx⟩
    -- what `*total` held is what it still holds
    obtain ⟨ctn', total', hret, htotal⟩ := hright .init 1
    rcases hlook .init 1 with ⟨-, term, hterm, hpost⟩ | ⟨out, total₁, inter, hret₁, -, hperm, -,
      -, hempty⟩
    · exact hnot.2 ⟨term, hterm, (hposting term).mp hpost⟩
    · rw [hnil] at hperm htotal
      have hone := hempty (List.perm_nil.mp hperm)
      rw [hret₁] at hret
      simp only [Option.some.injEq, Prod.mk.injEq] at hret
      simp only [List.length_nil] at htotal
      omega
  · intro hcond ctn total
    rcases hlook ctn total with ⟨hret, term, hterm, hpost⟩ | ⟨out, total', inter, hret, hpost,
      hperm, -, hfull, -⟩
    · refine ⟨ctn, 0, hret, ?_⟩
      rw [← h.matchingDocs_eq, matching_of_posting h.represents.toIndexed hterm hpost]
      rfl
    · obtain ⟨x, hx⟩ := hcond.resolve_right fun ⟨term, hterm, hnone⟩ =>
        hpost term hterm ((hposting term).mpr hnone)
      have hinter : inter ≠ [] :=
        List.ne_nil_of_mem (hperm.mem_iff.mpr (mem_matchingDocs.mpr hx))
      have hle : (matchingDocs heap ops terms).length < 2 ^ 32 :=
        ((List.length_filter_le _ _).trans h.length_liveDocs_le).trans_lt hsize
      refine ⟨out, total', hret, ?_⟩
      rw [hfull hinter, hperm.length_eq, Nat.mod_eq_of_lt hle]

/-! ## The result -/

/-- **When the total is right.**  After any history of a segment, for any terms and any limit: a
lookup reports the number of matching documents, whatever `*total` held before, exactly if a path
that writes it is taken and that path counts no deleted document. -/
theorem lookup_total_iff {l : List ((DocHeap × Segment) × SegmentOp)}
    (hrun : (segmentSystem heap).Run l s) (hroom : addCount (l.map Prod.snd) + 1 < 2 ^ 32)
    (terms : List CString) (hlimit : 1 ≤ limit) :
    TotalRight heap (l.map Prod.snd) s terms limit ↔
      TotalCounts heap (l.map Prod.snd) terms := by
  have h := segmentSystem_invariant hrun hroom
  have hsize : (acceptedDocs heap (l.map Prod.snd)).length < 2 ^ 32 :=
    (length_acceptedDocs_le heap _).trans_lt (by omega)
  by_cases hne : liveDocs heap (l.map Prod.snd) = []
  · exact iff_of_false (h.not_totalRight hlimit hne) fun hcond => hcond.live hne
  match terms with
  | [] =>
      refine iff_of_true (h.totalRight_nil hlimit hsize hne) ⟨hne, ?_, ?_⟩
      · simp
      · simp
  | [term] =>
      rw [h.totalRight_singleton_iff hlimit hsize hne term]
      refine ⟨fun hall => ⟨hne, fun term' heq => ?_, by simp⟩, fun hcond => hcond.single term rfl⟩
      obtain rfl : term = term' := by simpa using heq
      exact hall
  | term :: term' :: terms =>
      have htwo : 2 ≤ (term :: term' :: terms).length := by simp
      rw [h.totalRight_several_iff hlimit hsize hne htwo]
      exact ⟨fun hor => ⟨hne, by simp, fun _ => hor⟩, fun hcond => hcond.several htwo⟩

/-- `lookup_total_iff` for the single term of two live documents. -/
theorem lookup_total_iff_sample :
    ∃ l s, (segmentSystem sampleDocument).Run l s ∧
      TotalRight sampleDocument (l.map Prod.snd) s [[97]] 1 ∧
      (matchingDocs sampleDocument (l.map Prod.snd) [[97]]).length = 2 := by
  obtain ⟨l, s, hrun, htest⟩ := System.exists_run_of_execAll (M := segmentSystem sampleDocument)
    (fun l _ => decide (l.map Prod.snd = [.add 2, .add 1])) [.add 1, .add 2] (by decide +kernel)
  have hops : l.map Prod.snd = [.add 2, .add 1] := by simpa using htest
  have hcond : TotalCounts sampleDocument (l.map Prod.snd) [[97]] := by
    rw [hops]
    refine ⟨by decide, fun term heq => ?_, by simp⟩
    obtain rfl : [97] = term := by simpa using heq
    decide
  refine ⟨l, s, hrun, (lookup_total_iff hrun (by rw [hops]; decide) [[97]] le_rfl).mpr hcond, ?_⟩
  rw [hops]
  decide

/-- **A total left over from the call before**: in a segment whose only document is removed, a
lookup leaves the `7` it was given. -/
theorem lookup_total_left_over :
    ∃ l s, (segmentSystem sampleDocument).Run l s ∧ l.map Prod.snd = [.remove 1, .add 1] ∧
      (s.2.lookup s.1 [] 10 .init 7).map (fun r => (r.1, r.2.2)) = some (0, 7) ∧
      ¬TotalRight sampleDocument (l.map Prod.snd) s [] 10 := by
  obtain ⟨l, s, hrun, htest⟩ := System.exists_run_of_execAll (M := segmentSystem sampleDocument)
    (fun l s => decide (l.map Prod.snd = [.remove 1, .add 1] ∧
      (s.2.lookup s.1 [] 10 .init 7).map (fun r => (r.1, r.2.2)) = some (0, 7)))
    [.add 1, .remove 1] (by decide +kernel)
  obtain ⟨hops, hret⟩ := of_decide_eq_true htest
  refine ⟨l, s, hrun, hops, hret, fun hright => ?_⟩
  obtain ⟨ctn', total', hlook, htotal⟩ := hright .init 7
  simp only [hlook, Option.map_some, Option.some.injEq, Prod.mk.injEq, true_and] at hret
  have hzero : matchingDocs sampleDocument (l.map Prod.snd) [] = [] := by
    rw [hops]
    decide
  simp [hzero, hret] at htotal

end TsEngine
