import TsEngine.Framework.Runs
import TsEngine.Store.SegmentLookup

/-!
# Histories of one segment, and exactness of lookups

`segmentSystem` takes `ts_segment_add_document` and `ts_segment_remove_document` as the steps of
a system, each document object being added at most once.  Next to it stand two lists that only
look at the operations executed: `acceptedDocs`, the documents that passed their check, and
`liveDocs`, those of them whose primary key has not been removed since.

`segmentSystem_invariant` ties the two together: after any history the segment represents the
accepted documents, and its deletion bits single out the live ones.  From it follows
`lookup_exact_iff`, which says exactly when a lookup returns what it should.
-/

namespace TsEngine

open Framework Segment

/-- The operations on a segment. -/
inductive SegmentOp
  | add (d : DocPtr)
  | remove (pk : ℕ)
  deriving DecidableEq

/-- The operations as a system; a step carries the document heap along. -/
def segmentSystem (heap : DocHeap) : System (DocHeap × Segment) SegmentOp Empty where
  init := (heap, .new)
  enabled hist _ op :=
    match op with
    | .add d => .add d ∉ hist.map Prod.snd
    | .remove pk => pk ≠ 0
  exec op s :=
    match op with
    | .add d => .ok (s.2.addDocument s.1 d).2
    | .remove pk => .ok (s.1, (s.2.removeDocument s.1 pk).2)

instance (heap : DocHeap) (l : List ((DocHeap × Segment) × SegmentOp)) (s : DocHeap × Segment)
    (op : SegmentOp) : Decidable ((segmentSystem heap).enabled l s op) :=
  match op with
  | .add d => inferInstanceAs (Decidable (SegmentOp.add d ∉ l.map Prod.snd))
  | .remove pk => inferInstanceAs (Decidable (pk ≠ 0))

/-! ## What the operations mean -/

/-- The number of documents handed to the segment by the operations `ops`. -/
def addCount (ops : List SegmentOp) : ℕ :=
  ops.countP fun op => match op with
    | .add _ => true
    | .remove _ => false

/-- The documents that passed their check, oldest first, by the operations `ops`, newest first. -/
def acceptedDocs (heap : DocHeap) : List SegmentOp → List DocPtr
  | [] => []
  | .add d :: ops => acceptedDocs heap ops ++ if (heap d).check then [d] else []
  | .remove _ :: ops => acceptedDocs heap ops

/-- The accepted documents whose primary key has not been removed since. -/
def liveDocs (heap : DocHeap) : List SegmentOp → List DocPtr
  | [] => []
  | .add d :: ops => liveDocs heap ops ++ if (heap d).check then [d] else []
  | .remove pk :: ops => (liveDocs heap ops).filter fun x => (heap x).pk ≠ pk

/-- What the operations determine about the state they lead to. -/
structure SegmentInv (heap : DocHeap) (ops : List SegmentOp) (s : DocHeap × Segment) : Prop where
  sameDocs : heap.SameDocs s.1
  added : ∀ x ∈ acceptedDocs heap ops, .add x ∈ ops
  represents : s.2.Represents s.1 (acceptedDocs heap ops)
  ids : s.2.Ids s.1 (acceptedDocs heap ops)
  start : s.2.generator.start = addCount ops + 1
  live : (acceptedDocs heap ops).filter (fun x => !s.2.isDeleted s.1 x) = liveDocs heap ops

variable {heap : DocHeap} {ops : List SegmentOp} {s : DocHeap × Segment} {d : DocPtr} {pk : ℕ}

lemma segmentInv_init (heap : DocHeap) : SegmentInv heap [] (heap, .new) where
  sameDocs := DocHeap.SameDocs.refl heap
  added := by simp [acceptedDocs]
  represents := new_represents heap
  ids := new_ids heap
  start := rfl
  live := rfl

lemma SegmentInv.add (h : SegmentInv heap ops s) (hfresh : .add d ∉ ops)
    (hroom : addCount (.add d :: ops) + 1 < 2 ^ 32) :
    SegmentInv heap (.add d :: ops) (s.2.addDocument s.1 d).2 := by
  have hcount : addCount (.add d :: ops) = addCount ops + 1 := by simp [addCount]
  have hroom' : s.2.generator.start + 1 < 2 ^ 32 := by rw [h.start]; omega
  have hd : d ∉ acceptedDocs heap ops := fun hmem => hfresh (h.added d hmem)
  have hids : ∀ x ∈ acceptedDocs heap ops,
      (s.1.setDocId d s.2.generator.start x).docId = (s.1 x).docId := fun x hx => by
    have hne : x ≠ d := fun he => hd (he ▸ hx)
    rw [DocHeap.setDocId_of_ne s.1 _ hne]
  have hstart : s.2.generator.incr.2.start = addCount (.add d :: ops) + 1 := by
    rw [DocidGenerator.incr, Nat.mod_eq_of_lt hroom', h.start, hcount]
  have hsame : heap.SameDocs (s.1.setDocId d s.2.generator.start) :=
    h.sameDocs.trans (.setDocId d _)
  cases hcheck : (s.1 d).check with
  | true =>
      have hadd := addDocument_added s.1 s.2 hcheck
      have hacc : acceptedDocs heap (.add d :: ops) = acceptedDocs heap ops ++ [d] := by
        rw [acceptedDocs, if_pos (h.sameDocs.check d ▸ hcheck)]
      have hlive : liveDocs heap (.add d :: ops) = liveDocs heap ops ++ [d] := by
        rw [liveDocs, if_pos (h.sameDocs.check d ▸ hcheck)]
      refine ⟨?_, ?_, ?_, ?_, ?_, ?_⟩
      · rw [hadd.heap]
        exact hsame
      · rw [hacc]
        intro x hx
        rcases List.mem_append.mp hx with hx | hx
        · exact List.mem_cons_of_mem _ (h.added x hx)
        · simp [List.mem_singleton.mp hx]
      · rw [hacc, hadd.heap]
        exact h.represents.addDocument hd hcheck
      · rw [hacc, hadd.heap]
        exact h.ids.addDocument hd hroom' hadd.generator
      · rw [hadd.generator, hstart]
      · have hnew : (s.2.addDocument s.1 d).2.2.isDeleted
            (s.1.setDocId d s.2.generator.start) d = false :=
          h.ids.not_isDeleted_addDocument h.represents.toDeletions hadd.deletion
        rw [hacc, hlive, hadd.heap, List.filter_append, ← h.live]
        congr 1
        · refine List.filter_congr fun x hx => ?_
          rw [isDeleted, isDeleted, hids x hx, hadd.deletion]
        · simp [hnew]
  | false =>
      have hcheck' : (heap d).check = false := h.sameDocs.check d ▸ hcheck
      have hacc : acceptedDocs heap (.add d :: ops) = acceptedDocs heap ops := by
        simp [acceptedDocs, hcheck']
      have hlive : liveDocs heap (.add d :: ops) = liveDocs heap ops := by
        simp [liveDocs, hcheck']
      rw [addDocument_of_not_check s.1 s.2 hcheck]
      refine ⟨hsame, ?_, ?_, ?_, hstart, ?_⟩
      · rw [hacc]
        exact fun x hx => List.mem_cons_of_mem _ (h.added x hx)
      · rw [hacc]
        exact h.represents.addDocument_refused hd
      · rw [hacc]
        exact h.ids.addDocument_refused hd hroom'
      · rw [hacc, hlive, ← h.live]
        refine List.filter_congr fun x hx => ?_
        rw [isDeleted, isDeleted, hids x hx]

lemma SegmentInv.remove (h : SegmentInv heap ops s) (pk : ℕ) :
    SegmentInv heap (.remove pk :: ops) (s.1, (s.2.removeDocument s.1 pk).2) where
  sameDocs := h.sameDocs
  added x hx := List.mem_cons_of_mem _ (h.added x hx)
  represents := h.represents.removeDocument pk
  ids := (bitsAdded_removeDocument s.1 s.2 pk).ids h.ids
  start := by
    rw [(bitsAdded_removeDocument s.1 s.2 pk).generator_eq, h.start]
    simp [addCount]
  live := by
    rw [liveDocs, ← h.live, List.filter_filter]
    refine List.filter_congr fun x hx => ?_
    have hiff : (s.2.removeDocument s.1 pk).2.isDeleted s.1 x = true ↔
        s.2.isDeleted s.1 x = true ∨ (s.1 x).pk = pk :=
      isDeleted_removeDocument_iff h.represents.toIndexed h.ids hx
    rw [← (h.sameDocs x).1]
    by_cases hpk : (s.1 x).pk = pk
    · simp [hpk, hiff.mpr (.inr hpk)]
    · have hbit : (s.2.removeDocument s.1 pk).2.isDeleted s.1 x = s.2.isDeleted s.1 x := by
        rw [Bool.eq_iff_iff, hiff]
        simp [hpk]
      simp [hpk, hbit]

/-- **Every history of a segment keeps it in step with the operations**, as long as its 32-bit
ids do not run out. -/
lemma segmentSystem_invariant {l : List ((DocHeap × Segment) × SegmentOp)}
    (hrun : (segmentSystem heap).Run l s) (hroom : addCount (l.map Prod.snd) + 1 < 2 ^ 32) :
    SegmentInv heap (l.map Prod.snd) s := by
  revert hroom
  refine System.Run.invariant (M := segmentSystem heap)
    (fun l s => addCount (l.map Prod.snd) + 1 < 2 ^ 32 → SegmentInv heap (l.map Prod.snd) s)
    (fun _ => segmentInv_init heap) ?_ hrun
  intro l s op s' _ ih hen hexec hroom
  have hprev : addCount (l.map Prod.snd) + 1 < 2 ^ 32 := by
    refine lt_of_le_of_lt ?_ hroom
    rw [List.map_cons, addCount, addCount, List.countP_cons]
    omega
  cases op with
  | add d =>
      obtain rfl : (s.2.addDocument s.1 d).2 = s' := by simpa [segmentSystem] using hexec
      exact (ih hprev).add hen hroom
  | remove pk =>
      obtain rfl : (s.1, (s.2.removeDocument s.1 pk).2) = s' := by
        simpa [segmentSystem] using hexec
      exact (ih hprev).remove pk

/-! ## Exactness of lookups -/

/-- A lookup into an empty container returns `0` and `limit` of the live documents that have
every term, or all of them if they are fewer. -/
def LookupExact (heap : DocHeap) (ops : List SegmentOp) (s : DocHeap × Segment)
    (terms : List CString) (limit : ℕ) : Prop :=
  ∀ total, ∃ ctn total', s.2.lookup s.1 terms limit .init total = some (0, ctn, total') ∧
    Exact limit ((liveDocs heap ops).filter fun x => terms.all fun t => (heap x).hasTerm t)
      ctn.toList

lemma SegmentInv.matching_eq (h : SegmentInv heap ops s) (terms : List CString) :
    s.2.matching s.1 (acceptedDocs heap ops) terms =
      (liveDocs heap ops).filter fun x => terms.all fun t => (heap x).hasTerm t := by
  rw [← h.live, List.filter_filter, matching]
  refine List.filter_congr fun x _ => ?_
  simp [h.sameDocs.hasTerm, Bool.and_comm]

lemma SegmentInv.live_iff (h : SegmentInv heap ops s) {x : DocPtr} :
    x ∈ liveDocs heap ops ↔ x ∈ acceptedDocs heap ops ∧ s.2.isDeleted s.1 x = false := by
  rw [← h.live]
  simp

lemma SegmentInv.counters_iff (h : SegmentInv heap ops s) :
    s.2.numTotalDocs = s.2.numTotalDeleted ↔ liveDocs heap ops = [] := by
  constructor
  · intro heq
    refine List.eq_nil_iff_forall_not_mem.mpr fun x hx => ?_
    obtain ⟨hacc, hdel⟩ := h.live_iff.mp hx
    rw [h.represents.isDeleted_of_counters heq hacc] at hdel
    exact absurd hdel (by simp)
  · intro hnil
    refine h.represents.counters_of_isDeleted h.ids fun x hx => ?_
    by_contra hdel
    have hlive : x ∈ liveDocs heap ops := h.live_iff.mpr ⟨hx, by simpa using hdel⟩
    simp [hnil] at hlive

lemma length_acceptedDocs_le (heap : DocHeap) (ops : List SegmentOp) :
    (acceptedDocs heap ops).length ≤ addCount ops := by
  induction ops with
  | nil => exact Nat.zero_le _
  | cons op ops ih =>
      cases op with
      | add d =>
          have hcount : addCount (.add d :: ops) = addCount ops + 1 := by simp [addCount]
          rw [acceptedDocs, List.length_append, hcount]
          split_ifs <;> simp only [List.length_cons, List.length_nil] <;> omega
      | remove pk =>
          have hcount : addCount (.remove pk :: ops) = addCount ops := by simp [addCount]
          rwa [acceptedDocs, hcount]

/-- Filtering does not change a prefix that passes the filter. -/
lemma take_filter_of_forall {α : Type*} {p : α → Bool} :
    ∀ {n : ℕ} {l : List α}, (∀ x ∈ l.take n, p x = true) → (l.filter p).take n = l.take n
  | 0, _, _ => by simp
  | _ + 1, [], _ => rfl
  | n + 1, a :: l, h => by
      have ha : p a = true := h a (by simp)
      rw [List.filter_cons_of_pos ha, List.take_succ_cons, List.take_succ_cons,
        take_filter_of_forall fun x hx => h x (by simp [hx])]

/-- The single-term path, on its own. -/
lemma SegmentInv.lookupExact_singleton_iff (h : SegmentInv heap ops s)
    (hsize : (acceptedDocs heap ops).length < 2 ^ 32) (term : CString) {limit : ℕ}
    (hlimit : 1 ≤ limit) :
    LookupExact heap ops s [term] limit ↔ liveDocs heap ops = [] ∨
      ∀ x ∈ ((acceptedDocs heap ops).filter fun x => (heap x).hasTerm term).take limit,
        x ∈ liveDocs heap ops := by
  have hposting : (acceptedDocs heap ops).filter (fun x => (s.1 x).hasTerm term) =
      (acceptedDocs heap ops).filter fun x => (heap x).hasTerm term :=
    List.filter_congr fun x _ => h.sameDocs.hasTerm x term
  have hlook := fun total => lookup_singleton h.represents hsize term hlimit .init total
  simp only [hposting, h.counters_iff, DocidContainer.toList_init, List.nil_append] at hlook
  set live := liveDocs heap ops with hlive
  set posting := (acceptedDocs heap ops).filter fun x => (heap x).hasTerm term with hpost
  have hmatch : (live.filter fun x => [term].all fun t => (heap x).hasTerm t) =
      posting.filter fun x => x ∈ live := by
    rw [hlive, ← h.live, List.filter_filter, hpost, List.filter_filter]
    refine List.filter_congr fun x hx => ?_
    simp [hx, Bool.and_comm]
  constructor
  · intro hexact
    by_cases hnil : live = []
    · exact .inl hnil
    -- what is copied is a prefix of the posting list, and all of it must be live
    obtain ⟨ctn, total', hret, hlist, -⟩ := hlook 0
    obtain ⟨ctn', total'', hret', hex⟩ := hexact 0
    obtain rfl : ctn = ctn' := by
      rw [hret] at hret'
      simp only [Option.some.injEq, Prod.mk.injEq] at hret'
      exact hret'.2.1
    refine .inr fun x hx => ?_
    rw [if_neg hnil] at hlist
    have hmem := hex.subset (hlist ▸ hx)
    exact (List.mem_filter.mp hmem).1
  · intro hcond total
    obtain ⟨ctn, total', hret, hlist, -⟩ := hlook total
    refine ⟨ctn, total', hret, ?_⟩
    rw [hmatch, hlist]
    split_ifs with hnil
    · rw [hnil]
      simpa using exact_nil limit
    · have hcond := hcond.resolve_left hnil
      rw [← take_filter_of_forall fun x hx => decide_eq_true (hcond x hx)]
      exact exact_take (List.Perm.refl _) ((h.represents.nodup.filter _).filter _)

/-- **When a lookup is exact.**  The walk and the intersection always are; the copy of a single
posting list is exactly if none of the documents it copies has been removed, or everything has. -/
theorem lookup_exact_iff {l : List ((DocHeap × Segment) × SegmentOp)}
    (hrun : (segmentSystem heap).Run l s) (hroom : addCount (l.map Prod.snd) + 1 < 2 ^ 32)
    (terms : List CString) {limit : ℕ} (hlimit : 1 ≤ limit) :
    LookupExact heap (l.map Prod.snd) s terms limit ↔
      ∀ term, terms = [term] → liveDocs heap (l.map Prod.snd) = [] ∨
        ∀ x ∈ ((acceptedDocs heap (l.map Prod.snd)).filter fun x => (heap x).hasTerm term).take
          limit, x ∈ liveDocs heap (l.map Prod.snd) := by
  have hinv := segmentSystem_invariant hrun hroom
  have hsize : (acceptedDocs heap (l.map Prod.snd)).length < 2 ^ 32 :=
    (length_acceptedDocs_le heap _).trans_lt (by omega)
  by_cases hone : ∃ term, terms = [term]
  · obtain ⟨term, rfl⟩ := hone
    rw [hinv.lookupExact_singleton_iff hsize term hlimit]
    simp
  · have hne : terms.length ≠ 1 := fun h => hone (List.length_eq_one_iff.mp h)
    refine ⟨fun _ term hterm => absurd ⟨term, hterm⟩ hone, fun _ total => ?_⟩
    rw [← hinv.matching_eq terms]
    exact lookup_exact hinv.represents hinv.ids hsize hne hlimit total

/-- Two documents added and the first one's key removed: the single-term lookup returns both. -/
theorem lookup_singleton_not_exact :
    ¬ ∀ (heap : DocHeap) (l : List ((DocHeap × Segment) × SegmentOp)) (s : DocHeap × Segment),
      (segmentSystem heap).Run l s → addCount (l.map Prod.snd) + 1 < 2 ^ 32 →
      ∀ (terms : List CString) (limit : ℕ), terms.Nodup → 1 ≤ limit →
        LookupExact heap (l.map Prod.snd) s terms limit := by
  intro hclaim
  obtain ⟨l, s, hrun, hcheck⟩ := System.exists_run_of_execAll (M := segmentSystem sampleDocument)
    (fun l s => decide (l.map Prod.snd = [.remove 1, .add 2, .add 1]) &&
      ((s.2.lookup s.1 [[97]] 10 .init 0).map fun r => r.2.1.toList) == some [1, 2])
    [.add 1, .add 2, .remove 1] (by decide +kernel)
  simp only [Bool.and_eq_true, decide_eq_true_eq, beq_iff_eq] at hcheck
  obtain ⟨hops, hret⟩ := hcheck
  obtain ⟨ctn, total', hlook, hexact⟩ := hclaim sampleDocument l s hrun
    (by rw [hops]; decide) [[97]] 10 (List.nodup_singleton _) (by decide) 0
  simp only [hlook, Option.map_some, Option.some.injEq] at hret
  have hlen := hexact.length
  rw [hret, hops] at hlen
  exact absurd hlen (by decide)

/-- `lookup_exact_iff` on the history of `lookup_singleton_not_exact`. -/
theorem lookup_exact_iff_sample :
    ∃ l s, (segmentSystem sampleDocument).Run l s ∧
      (LookupExact sampleDocument (l.map Prod.snd) s [[97]] 10 ↔
        ∀ term, [[97]] = [term] → liveDocs sampleDocument (l.map Prod.snd) = [] ∨
          ∀ x ∈ ((acceptedDocs sampleDocument (l.map Prod.snd)).filter fun x =>
            (sampleDocument x).hasTerm term).take 10,
            x ∈ liveDocs sampleDocument (l.map Prod.snd)) := by
  obtain ⟨l, s, hrun, hops⟩ := System.exists_run_of_execAll (M := segmentSystem sampleDocument)
    (fun l _ => decide (addCount (l.map Prod.snd) + 1 < 2 ^ 32))
    [.add 1, .add 2, .remove 1] (by decide +kernel)
  exact ⟨l, s, hrun, lookup_exact_iff hrun (by simpa using hops) [[97]] (by decide)⟩

end TsEngine
