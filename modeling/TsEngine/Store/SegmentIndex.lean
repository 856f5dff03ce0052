import Mathlib.Data.List.Dedup
import TsEngine.Store.SegmentRuns

/-!
# The four structures of a segment agree

A segment keeps the primary key table, the term table, the deletion bitmap and three counters.
`Segment.Consistent` says, in their own terms, that they agree with each other and with a list of
documents and a list of those that are deleted: where each document is listed, under which id,
what each posting list holds, which bits are set, and what every counter counts.

`Segment.Represents.consistent` derives it from the invariant the operations keep.
`segment_consistent` is the result for histories: after any additions and removals the documents
are those that passed their check, and the deleted ones those whose primary key was removed after
they were added.
-/

namespace TsEngine

open Framework

/-- The names of the indexable fields. -/
def Document.terms (d : Document) : List CString :=
  (d.fields.filter Field.isIndexable).map Field.name

lemma Document.mem_terms {d : Document} {term : CString} :
    term ∈ d.terms ↔ d.hasTerm term = true := by
  simp [terms, hasTerm, and_assoc]

namespace Segment

/-- The tables, the bitmap and the counters of a segment that holds the documents `log`, oldest
first, of which `dead` are deleted. -/
structure Consistent (docs : DocHeap) (seg : Segment) (log dead : List DocPtr) : Prop where
  distinct : log.Pairwise fun x y => (docs x).docId ≠ (docs y).docId
  range : ∀ x ∈ log, 0 < (docs x).docId ∧ (docs x).docId < seg.generator.start
  numTotalDocs : seg.numTotalDocs = (seg.pkMapping.map fun mp => mp.docIds.total).sum
  once : ∀ x, seg.docPtrs.count x = if x ∈ log then 1 else 0
  ownKey : ∀ mp ∈ seg.pkMapping, ∀ x ∈ mp.docIds.toList, (docs x).pk = mp.pk
  numTotalInverted : seg.numTotalInverted =
    (log.flatMap fun x => (docs x).terms).dedup.length
  ascending : ∀ term, Ascending (fun x => (docs x).docId) (seg.posting term)
  posting : ∀ term, seg.posting term = log.filter fun x => (docs x).hasTerm term
  numTotal : ∀ inv ∈ seg.docs, inv.numTotal = inv.docIds.total
  bit : ∀ i, seg.deletion.get i = true ↔ ∃ x ∈ dead, (docs x).docId = i
  numTotalDeleted : seg.numTotalDeleted = dead.length

variable {docs : DocHeap} {seg : Segment} {log : List DocPtr} {x : DocPtr} {term : CString}

/-! ## From the invariant -/

/-- The number of documents, counted table entry by table entry. -/
lemma Indexed.numTotalDocs_eq_sum (h : seg.Indexed docs log) (hsize : log.length < 2 ^ 32) :
    seg.numTotalDocs = (seg.pkMapping.map fun mp => mp.docIds.total).sum := by
  have htotal : ∀ mp ∈ seg.pkMapping, mp.docIds.total = mp.docIds.toList.length := by
    intro mp hmp
    have hle : mp.docIds.toList.length ≤ log.length := by
      rw [h.toList_eq hmp]
      exact List.length_filter_le _ _
    rw [mp.docIds.total_eq, Nat.mod_eq_of_lt (hle.trans_lt hsize)]
  rw [List.map_congr_left htotal, h.numTotalDocs, ← h.walk.length_eq, docPtrs, List.length_flatMap]

/-- The term table has a record for each term of a document, and no other. -/
lemma Indexed.mem_terms_iff (h : seg.Indexed docs log) :
    term ∈ seg.docs.map Inverted.term ↔ term ∈ log.flatMap fun x => (docs x).terms := by
  rw [List.mem_flatMap]
  constructor
  · intro hterm
    obtain ⟨inv, hinv, rfl⟩ := List.mem_map.mp hterm
    have hpost : seg.posting inv.term = inv.docIds.toList :=
      posting_of_find (Keyed.find_of_mem h.termWf hinv)
    obtain ⟨x, hx⟩ := List.exists_mem_of_ne_nil _ (h.posting_ne_nil inv hinv)
    obtain ⟨hlog, hhas⟩ := h.mem_posting.mp (hpost ▸ hx)
    exact ⟨x, hlog, Document.mem_terms.mpr hhas⟩
  · rintro ⟨x, hx, hterm⟩
    have hmem := h.mem_posting.mpr ⟨hx, Document.mem_terms.mp hterm⟩
    unfold Segment.posting at hmem
    cases hfind : Keyed.find Inverted.term seg.docs term with
    | none => simp [hfind] at hmem
    | some inv => exact Keyed.key_of_find hfind ▸ List.mem_map_of_mem (Keyed.mem_of_find hfind)

lemma Indexed.numTotalInverted_eq (h : seg.Indexed docs log) :
    seg.numTotalInverted = (log.flatMap fun x => (docs x).terms).dedup.length := by
  have hperm : (seg.docs.map Inverted.term).Perm (log.flatMap fun x => (docs x).terms).dedup :=
    (List.perm_ext_iff_of_nodup h.termWf (List.nodup_dedup _)).mpr fun term => by
      rw [List.mem_dedup, h.mem_terms_iff]
  rw [h.numTotalInverted, ← hperm.length_eq, List.length_map]

/-- **The invariant says that everything agrees.** -/
lemma Represents.consistent (h : seg.Represents docs log) (hids : seg.Ids docs log)
    (hsize : log.length < 2 ^ 32) :
    seg.Consistent docs log (log.filter fun x => seg.isDeleted docs x) where
  distinct := hids.ascending.imp fun hlt => hlt.ne
  range x hx := ⟨hids.pos x hx, hids.lt_start x hx⟩
  numTotalDocs := h.numTotalDocs_eq_sum hsize
  once x := by
    rw [h.walk.count_eq]
    split_ifs with hx
    · exact List.count_eq_one_of_mem h.nodup hx
    · exact List.count_eq_zero_of_not_mem hx
  ownKey mp hmp x hx := by
    rw [h.toList_eq hmp] at hx
    simpa using (List.mem_filter.mp hx).2
  numTotalInverted := h.numTotalInverted_eq
  ascending term := by
    rw [h.posting]
    exact hids.ascending.sublist List.filter_sublist
  posting := h.posting
  numTotal inv hinv := by
    have hle : inv.docIds.toList.length ≤ log.length := by
      rw [← posting_of_find (Keyed.find_of_mem h.termWf hinv), h.posting]
      exact List.length_filter_le _ _
    rw [h.numTotal inv hinv, inv.docIds.total_eq, Nat.mod_eq_of_lt (hle.trans_lt hsize)]
  bit i := by
    constructor
    · intro hi
      obtain ⟨x, hx, rfl⟩ := h.bit i hi
      exact ⟨x, List.mem_filter.mpr ⟨hx, hi⟩, rfl⟩
    · rintro ⟨x, hx, rfl⟩
      exact (List.mem_filter.mp hx).2
  numTotalDeleted := h.numTotalDeleted_eq hids

end Segment

/-! ## After any history -/

variable {heap : DocHeap} {ops : List SegmentOp} {s : DocHeap × Segment} {x : DocPtr}

/-- A removal of the document's primary key came after its addition, by the operations `ops`,
newest first. -/
def RemovedAfter (heap : DocHeap) (ops : List SegmentOp) (x : DocPtr) : Prop :=
  ∃ newer older, ops = newer ++ .remove (heap x).pk :: older ∧ x ∈ acceptedDocs heap older

lemma removedAfter_add {d : DocPtr} :
    RemovedAfter heap (.add d :: ops) x ↔ RemovedAfter heap ops x := by
  constructor
  · rintro ⟨_ | ⟨op, newer⟩, older, heq, hx⟩
    · simp at heq
    · simp only [List.cons_append, List.cons.injEq] at heq
      exact ⟨newer, older, heq.2, hx⟩
  · rintro ⟨newer, older, rfl, hx⟩
    exact ⟨.add d :: newer, older, rfl, hx⟩

lemma removedAfter_remove {pk : ℕ} : RemovedAfter heap (.remove pk :: ops) x ↔
    RemovedAfter heap ops x ∨ (heap x).pk = pk ∧ x ∈ acceptedDocs heap ops := by
  constructor
  · rintro ⟨_ | ⟨op, newer⟩, older, heq, hx⟩
    · simp only [List.nil_append, List.cons.injEq, SegmentOp.remove.injEq] at heq
      exact .inr ⟨heq.1.symm, heq.2 ▸ hx⟩
    · simp only [List.cons_append, List.cons.injEq] at heq
      exact .inl ⟨newer, older, heq.2, hx⟩
  · rintro (⟨newer, older, rfl, hx⟩ | ⟨rfl, hx⟩)
    · exact ⟨.remove pk :: newer, older, rfl, hx⟩
    · exact ⟨[], ops, rfl, hx⟩

lemma RemovedAfter.mem (h : RemovedAfter heap ops x) : x ∈ acceptedDocs heap ops := by
  obtain ⟨newer, older, rfl, hx⟩ := h
  induction newer with
  | nil => exact hx
  | cons op newer ih =>
      cases op with
      | add d => exact List.mem_append_left _ ih
      | remove pk => exact ih

/-- Of documents added once, the live ones are those not removed since. -/
lemma mem_liveDocs_iff (hnodup : (acceptedDocs heap ops).Nodup) :
    x ∈ liveDocs heap ops ↔ x ∈ acceptedDocs heap ops ∧ ¬RemovedAfter heap ops x := by
  induction ops with
  | nil => simp [liveDocs, acceptedDocs]
  | cons op ops ih =>
      cases op with
      | add d =>
          rw [acceptedDocs, List.nodup_append] at hnodup
          obtain ⟨hnodup, -, hdisj⟩ := hnodup
          rw [liveDocs, acceptedDocs, List.mem_append, List.mem_append, ih hnodup,
            removedAfter_add]
          have hnew : x ∈ (if (heap d).check then [d] else []) → ¬RemovedAfter heap ops x :=
            fun hx hrem => hdisj x hrem.mem x hx rfl
          tauto
      | remove pk =>
          rw [liveDocs, acceptedDocs, List.mem_filter, ih hnodup, removedAfter_remove]
          simp only [ne_eq, decide_eq_true_eq]
          tauto

/-- **A segment after any history.**  However additions, repeated keys and removals follow each
other, the tables, the bitmap and the counters agree with the documents that passed their check
and with those of them whose key was removed after they were added. -/
theorem segment_consistent {l : List ((DocHeap × Segment) × SegmentOp)}
    (hrun : (segmentSystem heap).Run l s) (hroom : addCount (l.map Prod.snd) < 2 ^ 32 - 1) :
    heap.SameDocs s.1 ∧ ∃ dead, s.2.Consistent s.1 (acceptedDocs heap (l.map Prod.snd)) dead ∧
      dead.Nodup ∧ ∀ x, x ∈ dead ↔ RemovedAfter heap (l.map Prod.snd) x := by
  have h := segmentSystem_invariant hrun (by omega)
  have hsize : (acceptedDocs heap (l.map Prod.snd)).length < 2 ^ 32 :=
    (length_acceptedDocs_le heap _).trans_lt (by omega)
  refine ⟨h.sameDocs, _, h.represents.consistent h.ids hsize, h.represents.nodup.filter _,
    fun x => ?_⟩
  have hlive := h.live_iff (x := x)
  rw [mem_liveDocs_iff h.represents.nodup] at hlive
  rw [List.mem_filter]
  constructor
  · rintro ⟨hx, hdel⟩
    by_contra hrem
    rw [(hlive.mp ⟨hx, hrem⟩).2] at hdel
    exact absurd hdel (by simp)
  · intro hrem
    refine ⟨hrem.mem, ?_⟩
    by_contra hdel
    exact (hlive.mpr ⟨hrem.mem, by simpa using hdel⟩).2 hrem

/-- `segment_consistent` where a document is added, its key removed, and a document with another key
added. -/
theorem segment_consistent_sample :
    ∃ l s, (segmentSystem sampleDocument).Run l s ∧ acceptedDocs sampleDocument (l.map Prod.snd) =
      [1, 2] ∧ ∃ dead, s.2.Consistent s.1 [1, 2] dead ∧ dead.Nodup ∧
        ∀ x, x ∈ dead ↔ RemovedAfter sampleDocument (l.map Prod.snd) x := by
  obtain ⟨l, s, hrun, htest⟩ := System.exists_run_of_execAll (M := segmentSystem sampleDocument)
    (fun l _ => decide (addCount (l.map Prod.snd) < 2 ^ 32 - 1 ∧
      acceptedDocs sampleDocument (l.map Prod.snd) = [1, 2]))
    [.add 1, .remove 1, .add 2] (by decide +kernel)
  obtain ⟨hroom, hacc⟩ := of_decide_eq_true htest
  obtain ⟨-, dead, hdead⟩ := segment_consistent hrun hroom
  exact ⟨l, s, hrun, hacc, dead, hacc ▸ hdead⟩

end TsEngine
