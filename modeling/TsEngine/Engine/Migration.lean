import TsEngine.Engine.Reachable
import TsEngine.Store.SegmentLookup

/-!
# What a migration does to the segments it reads

A migration gives the live documents of its sources new ids, while the sources still point at
them and are still searched.  The new ids are `1, 2, …` in the order of the primary key table.
They are the old ones exactly when the live documents came first among the old ids
(`Segment.LiveFirst`): otherwise some live document is given the id of a deleted one, and the
old bitmap hides it (`migrate_undisturbed_iff`).
-/

namespace TsEngine

open Framework

namespace Segment

variable {docs : DocHeap} {seg : Segment} {log : List DocPtr} {x y : DocPtr}

/-- No live document has a larger id than a deleted one. -/
def LiveFirst (docs : DocHeap) (seg : Segment) : Prop :=
  ∀ x ∈ seg.docPtrs, ∀ y ∈ seg.docPtrs, seg.isDeleted docs x = false →
    seg.isDeleted docs y = true → (docs x).docId < (docs y).docId

instance (docs : DocHeap) (seg : Segment) : Decidable (seg.LiveFirst docs) :=
  inferInstanceAs (Decidable (∀ x ∈ seg.docPtrs, ∀ y ∈ seg.docPtrs, _))

/-- The ids of a sound segment are `1, 2, …` along its log. -/
lemma Sound.lt_length (h : seg.Sound docs log) (hx : x ∈ log) :
    1 ≤ (docs x).docId ∧ (docs x).docId < 1 + log.length := by
  have hlt := h.lt_start x hx
  rw [h.start, h.numTotalDocs] at hlt
  have hpos := h.pos x hx
  omega

/-- The live documents, in the order of the log. -/
lemma Sound.livePtrs_perm (h : seg.Sound docs log) :
    (seg.livePtrs docs).Perm (log.filter fun x => !seg.isDeleted docs x) :=
  h.walk.filter _

lemma Sound.length_livePtrs (h : seg.Sound docs log) :
    (seg.livePtrs docs).length + (log.filter fun x => seg.isDeleted docs x).length =
      log.length := by
  rw [h.livePtrs_perm.length_eq, add_comm]
  exact (List.length_eq_length_filter_add _).symm

lemma Sound.ascending_filter (h : seg.Sound docs log) (p : DocPtr → Bool) :
    Ascending (fun x => (docs x).docId) (log.filter p) :=
  h.ascending.sublist List.filter_sublist

/-- **With the live documents first, they are the heads of their keys**, and the primary key table
lists them in the order of their ids. -/
lemma Sound.livePtrs_eq (h : seg.Sound docs log) (hfirst : seg.LiveFirst docs) :
    seg.livePtrs docs = log.filter fun x => !seg.isDeleted docs x := by
  have hhead : ∀ mp ∈ seg.pkMapping, (mp.docIds.toList.filter fun x => !seg.isDeleted docs x) =
      (mp.docIds.toList.take 1).filter fun x => !seg.isDeleted docs x := by
    intro mp hmp
    have hentries := h.toList_eq hmp
    have hasc := h.ascending_filter fun x => (docs x).pk = mp.pk
    rw [← hentries] at hasc
    have hmem : ∀ x ∈ mp.docIds.toList, x ∈ log ∧ (docs x).pk = mp.pk := fun x hx => by
      rw [hentries] at hx
      simpa using hx
    cases hlist : mp.docIds.toList with
    | nil => rfl
    | cons x xs =>
        rw [hlist] at hasc hmem
        obtain ⟨hxlog, hxpk⟩ := hmem x List.mem_cons_self
        -- a second live document of the key would come after a deleted one
        have hxs : (xs.filter fun x => !seg.isDeleted docs x) = [] := by
          refine List.filter_eq_nil_iff.mpr fun y hy hlive => ?_
          have hlive : seg.isDeleted docs y = false := by simpa using hlive
          obtain ⟨hylog, hypk⟩ := hmem y (List.mem_cons_of_mem _ hy)
          have hlt := hasc.head_lt hy
          cases hdel : seg.isDeleted docs x with
          | true =>
              have hgt := hfirst y (h.mem_docPtrs.mpr hylog) x (h.mem_docPtrs.mpr hxlog) hlive hdel
              omega
          | false =>
              have heq := h.livePk x hxlog y hylog (hxpk.trans hypk.symm) hdel hlive
              exact absurd (heq ▸ hlt) (lt_irrefl _)
        rw [← List.singleton_append, List.filter_append, hxs, List.append_nil]
        rfl
  have hheads : seg.livePtrs docs = (seg.pkMapping.flatMap fun mp =>
      mp.docIds.toList.take 1).filter fun x => !seg.isDeleted docs x := by
    rw [livePtrs, docPtrs, List.filter_flatMap, List.filter_flatMap]
    exact List.flatMap_congr hhead
  refine List.Sublist.eq_of_length ?_ h.livePtrs_perm.length_eq
  rw [hheads]
  exact h.heads.filter _

/-- The ids of the live documents, if these come first. -/
lemma Sound.livePtrs_ids (h : seg.Sound docs log) (hfirst : seg.LiveFirst docs) :
    ((seg.livePtrs docs).map fun x => (docs x).docId) =
      List.range' 1 (seg.livePtrs docs).length := by
  rw [h.livePtrs_eq hfirst]
  refine (h.ascending_filter _).map_eq_range' fun x hx => ?_
  obtain ⟨hxlog, hlive⟩ := List.mem_filter.mp hx
  have hlive : seg.isDeleted docs x = false := by simpa using hlive
  obtain ⟨hpos, hlt⟩ := h.lt_length hxlog
  -- the deleted documents all have larger ids, so there are at most as many as fit above
  have hdead := (h.ascending_filter fun x => seg.isDeleted docs x).length_le
    (m := (docs x).docId + 1) (n := 1 + log.length) fun y hy => by
      obtain ⟨hylog, hdel⟩ := List.mem_filter.mp hy
      exact ⟨hfirst x (h.mem_docPtrs.mpr hxlog) y (h.mem_docPtrs.mpr hylog) hlive hdel,
        (h.lt_length hylog).2⟩
  have hlen := h.length_livePtrs
  rw [h.livePtrs_eq hfirst] at hlen
  omega

/-- If they do not come first, some deleted document has an id that the live ones will use. -/
lemma Sound.exists_deleted_le (h : seg.Sound docs log) (hnot : ¬seg.LiveFirst docs) :
    ∃ y ∈ log, seg.isDeleted docs y = true ∧ (docs y).docId ≤ (seg.livePtrs docs).length := by
  by_contra hnone
  refine hnot fun x hx y hy hlive hdel => ?_
  have hx := h.mem_docPtrs.mp hx
  have hy := h.mem_docPtrs.mp hy
  by_contra hle
  have hlen := h.length_livePtrs
  -- the deleted documents fill all ids from the number of live ones upwards
  have hmap := (h.ascending_filter fun x => seg.isDeleted docs x).map_eq_range'
    (s := (seg.livePtrs docs).length + 1) fun z hz => by
      obtain ⟨hzlog, hzdel⟩ := List.mem_filter.mp hz
      have hzlt := (h.lt_length hzlog).2
      have hzle : ¬(docs z).docId ≤ (seg.livePtrs docs).length := fun hzle =>
        hnone ⟨z, hzlog, hzdel, hzle⟩
      omega
  have hyle : ¬(docs y).docId ≤ (seg.livePtrs docs).length := fun hyle =>
    hnone ⟨y, hy, hdel, hyle⟩
  have hmem : (docs x).docId ∈ (log.filter fun x => seg.isDeleted docs x).map
      fun x => (docs x).docId := by
    rw [hmap, List.mem_range'_1]
    have hxlt := (h.lt_length hx).2
    omega
  obtain ⟨z, hz, heq⟩ := List.mem_map.mp hmem
  obtain ⟨hzlog, hzdel⟩ := List.mem_filter.mp hz
  rw [h.injOn hzlog hx heq, hlive] at hzdel
  exact absurd hzdel (by simp)

/-- The walk with a limit that leaves nothing out. -/
lemma Represents.lookup_nil (h : seg.Represents docs log) {limit : ℕ} (hpos : 1 ≤ limit)
    (hlimit : log.length ≤ limit) :
    ∃ ctn total, seg.lookup docs [] limit .init 0 = some (0, ctn, total) ∧
      ∀ x, x ∈ ctn.toList ↔ x ∈ seg.docPtrs ∧ seg.isDeleted docs x = false := by
  by_cases heq : seg.numTotalDocs = seg.numTotalDeleted
  · refine ⟨.init, 0, lookup_of_counters_eq hpos heq _ _, fun x => ?_⟩
    refine iff_of_false (by simp) fun ⟨hx, hlive⟩ => ?_
    rw [h.isDeleted_of_counters heq (h.mem_docPtrs.mp hx)] at hlive
    exact absurd hlive (by simp)
  · refine ⟨_, _, lookup_of_counters_ne h hpos heq _ _, fun x => ?_⟩
    have hlen : (seg.docPtrs.filter fun x => !seg.deletion.get (docs x).docId).length ≤ limit :=
      (List.length_filter_le _ _).trans (h.walk.length_eq.trans_le hlimit)
    rw [toList_walkUpTo, DocidContainer.toList_init, List.nil_append, Nat.sub_zero,
      List.take_of_length_le hlen]
    exact mem_livePtrs

end Segment

namespace Engine

variable {cap : ℕ} {heap : DocHeap} {l : List (ListEngine × Action)} {e e' : ListEngine}

/-- The documents that a lookup in a segment returns. -/
def returned (e : ListEngine) (p : SegPtr) (terms : List CString) (limit : ℕ) : Set DocPtr :=
  {x | ∃ r, (e.segs p).lookup e.docs terms limit .init 0 = some r ∧ x ∈ r.2.1.toList}

/-- The segment is one of the two being merged. -/
def IsSource (e : ListEngine) (p : SegPtr) : Prop :=
  e.merger.mseg1 = some p ∨ e.merger.mseg2 = some p

/-- A segment that is searched as before: its lookups return the same documents, its containers
point to the same ids, its posting lists ascend, and the ids agree with its bitmap as before. -/
structure Undisturbed (e e' : ListEngine) (p : SegPtr) : Prop where
  lookups : ∀ terms limit, e'.returned p terms limit = e.returned p terms limit
  ids : ∀ x ∈ (e.segs p).docPtrs, (e'.docs x).docId = (e.docs x).docId
  order : ∀ term, Ascending (fun x => (e'.docs x).docId) ((e'.segs p).posting term)
  bits : ∀ x ∈ (e.segs p).docPtrs,
    (e'.segs p).isDeleted e'.docs x = (e.segs p).isDeleted e.docs x

/-- With the live documents first, the copies get the ids they had. -/
lemma docs_eq_of_copied {docs : DocHeap} {seg : Segment} {log : List DocPtr}
    {s : DocHeap × Segment × List DocPtr} (h : seg.Sound docs log)
    (hcopied : Copied docs .new [] (seg.livePtrs docs) s) (hfirst : seg.LiveFirst docs) :
    s.1 = docs := by
  have hids := hcopied.ids.trans (h.livePtrs_ids hfirst).symm
  funext x
  by_cases hx : x ∈ seg.livePtrs docs
  · exact Document.ext (List.map_inj_left.mp hids x hx) (hcopied.sameDocs x).1
      (hcopied.sameDocs x).2
  · exact hcopied.frame x hx

/-- If they do not come first, a live document gets the id of a deleted one. -/
lemma exists_hidden_of_copied {docs : DocHeap} {seg : Segment} {log : List DocPtr}
    {s : DocHeap × Segment × List DocPtr} (h : seg.Sound docs log)
    (hcopied : Copied docs .new [] (seg.livePtrs docs) s) (hnot : ¬seg.LiveFirst docs) :
    ∃ x ∈ seg.livePtrs docs, seg.isDeleted s.1 x = true := by
  obtain ⟨y, hy, hdel, hle⟩ := h.exists_deleted_le hnot
  have hpos := (h.lt_length hy).1
  have hlt : (docs y).docId - 1 < (seg.livePtrs docs).length := by omega
  refine ⟨(seg.livePtrs docs)[(docs y).docId - 1], List.getElem_mem _, ?_⟩
  have hids : ((seg.livePtrs docs).map fun x => (s.1 x).docId)[(docs y).docId - 1]? =
      (List.range' 1 (seg.livePtrs docs).length)[(docs y).docId - 1]? := by
    rw [hcopied.ids]
    rfl
  have hid : (s.1 (seg.livePtrs docs)[(docs y).docId - 1]).docId = (docs y).docId := by
    rw [List.getElem?_map, List.getElem?_eq_getElem hlt, List.getElem?_range' hlt] at hids
    simp at hids
    omega
  rw [Segment.isDeleted, hid]
  exact hdel

/-- What lookups return depends on the documents and the segment only. -/
lemma returned_congr {p : SegPtr} (hsegs : e'.segs p = e.segs p) (hdocs : e'.docs = e.docs)
    (terms : List CString) (limit : ℕ) : e'.returned p terms limit = e.returned p terms limit := by
  simp [returned, hsegs, hdocs]

/-- A lookup without terms, and with a limit that leaves nothing out, returns the live documents. -/
lemma mem_returned_nil {p : SegPtr} {log : List DocPtr} {limit : ℕ}
    (h : (e.segs p).Represents e.docs log) (hpos : 1 ≤ limit) (hlimit : log.length ≤ limit) :
    x ∈ e.returned p [] limit ↔
      x ∈ (e.segs p).docPtrs ∧ (e.segs p).isDeleted e.docs x = false := by
  obtain ⟨ctn, total, hlookup, hmem⟩ := h.lookup_nil hpos hlimit
  rw [← hmem]
  refine ⟨fun ⟨r, hr, hx⟩ => ?_, fun hx => ⟨_, hlookup, hx⟩⟩
  rw [hlookup] at hr
  cases hr
  exact hx

/-- The migration of a reachable state: the sources are the listed segments they were, and the
documents are those of the copying loop. -/
lemma Inv.mergeProcMigrate_spec {as : List Action} {log : SegPtr → List DocPtr}
    (h : Inv cap heap as e log) (hstage : e.merger.mergeStage = 1)
    (hexec : e.mergeProcMigrate = .ok e') :
    ∃ m1 m2 s, Sources e log m1 m2 ∧ Copied e.docs .new [] ((e.segs m2).livePtrs e.docs) s ∧
      e'.docs = s.1 ∧ e'.segments = e.segments ∧ ∀ p ∈ e.segments, e'.segs p = e.segs p := by
  obtain ⟨m1, m2, s, hsrc, hcopied, -, heq⟩ := h.mergeProcMigrate_eq hstage
  obtain rfl := Except.ok.inj (heq.symm.trans hexec)
  exact ⟨m1, m2, s, hsrc, hcopied, rfl, rfl, fun p hp => h.migrated_segs hp⟩

/-- **When a migration goes unnoticed by lookups.**  Of the state right before a migration and
the state after it: both sources are searched as before if and only if in neither of them a live
document has a larger id than a deleted one; and already the lookups alone differ otherwise. -/
theorem migrate_undisturbed_iff (hcap : 1 ≤ cap)
    (hrun : (engineSystem (List SegPtr) cap heap).Run ((e, .procMigrate) :: l) e')
    (hstage : e.merger.mergeStage = 1) :
    ((∀ p, e.IsSource p → e.Undisturbed e' p) ↔
      ∀ p, e.IsSource p → (e.segs p).LiveFirst e.docs) ∧
    ((∀ p, e.IsSource p → ∀ terms limit, e'.returned p terms limit = e.returned p terms limit) ↔
      ∀ p, e.IsSource p → (e.segs p).LiveFirst e.docs) := by
  obtain ⟨hrun₀, hen, hexec⟩ := hrun.of_cons
  obtain ⟨log, hinv⟩ := inv_of_run hcap hrun₀
  obtain ⟨log', hinv'⟩ := inv_of_run hcap hrun
  obtain ⟨m1, m2, s, hsrc, hcopied, hdocs, hlist, hsegs⟩ :=
    hinv.mergeProcMigrate_spec hstage hexec
  have hsound : ∀ p ∈ e.segments, (e.segs p).Sound e.docs (log p) := fun p hp =>
    hinv.sound p hp fun hm => by simp [Merging, hstage] at hm
  have hmem : ∀ p, e.IsSource p → p ∈ e.segments := fun p hp => hsrc.mem hp
  -- enough: the live documents first leave the state as it was, and lookups tell the rest
  have hsame : (∀ p, e.IsSource p → (e.segs p).LiveFirst e.docs) →
      ∀ p, e.IsSource p → e.Undisturbed e' p := by
    intro hfirst p hp
    have hdocs : e'.docs = e.docs :=
      hdocs.trans (docs_eq_of_copied (hsound m2 hsrc.mem2) hcopied (hfirst m2 (.inr hsrc.mseg2)))
    have hseg := hsegs p (hmem p hp)
    refine ⟨returned_congr hseg hdocs, fun x _ => by rw [hdocs], fun term => ?_, fun x _ => by
      rw [hseg, hdocs]⟩
    rw [hseg, hdocs, (hsound p (hmem p hp)).posting]
    exact (hsound p (hmem p hp)).ascending_filter _
  have hhidden : (∀ p, e.IsSource p → ∀ terms limit,
      e'.returned p terms limit = e.returned p terms limit) →
      ∀ p, e.IsSource p → (e.segs p).LiveFirst e.docs := by
    rintro hret p hp
    have hsoundp := hsound p (hmem p hp)
    rcases hp with hp | hp
    · -- all documents of the first source are deleted
      obtain rfl := Option.some.inj (hsrc.mseg1.symm.trans hp)
      intro x hx y _ hlive _
      rw [hsrc.dead x (hsoundp.mem_docPtrs.mp hx)] at hlive
      exact absurd hlive (by simp)
    · obtain rfl := Option.some.inj (hsrc.mseg2.symm.trans hp)
      by_contra hnot
      obtain ⟨x, hx, hdel⟩ := exists_hidden_of_copied hsoundp hcopied hnot
      have hrep' := hinv'.represents m2 (hlist ▸ hsrc.mem2)
      -- a lookup without terms that is large enough for the log of either state
      have hx : x ∈ e.returned m2 [] (1 + (log m2).length + (log' m2).length) :=
        (mem_returned_nil hsoundp.toRepresents (by omega) (by omega)).mpr
          (Segment.mem_livePtrs.mp hx)
      rw [← hret m2 (.inr hp), mem_returned_nil hrep' (by omega) (by omega),
        hsegs m2 hsrc.mem2, hdocs, hdel] at hx
      exact absurd hx.2 (by simp)
  exact ⟨⟨fun hall => hhidden fun p hp => (hall p hp).lookups, hsame⟩,
    ⟨hhidden, fun hfirst p hp => (hsame hfirst p hp).lookups⟩⟩

/-- The documents a lookup returns, as a list. -/
def lookupResult (e : ListEngine) (p : SegPtr) (terms : List CString) (limit : ℕ) :
    Option (List DocPtr) :=
  ((e.segs p).lookup e.docs terms limit .init 0).map fun r => r.2.1.toList

lemma returned_of_lookupResult {p : SegPtr} {terms : List CString} {limit : ℕ} {xs : List DocPtr}
    (h : e.lookupResult p terms limit = some xs) : e.returned p terms limit = {x | x ∈ xs} := by
  obtain ⟨r, hr, rfl⟩ := Option.map_eq_some_iff.mp h
  ext x
  refine ⟨fun ⟨r', hr', hx⟩ => ?_, fun hx => ⟨r, hr, hx⟩⟩
  rw [hr] at hr'
  cases hr'
  exact hx

/-- `migrate_undisturbed_iff` where the second of two documents of the copied segment is the
deleted one. -/
theorem migrate_undisturbed_iff_sample :
    ∃ l e e', (engineSystem (List SegPtr) 2 sampleHeap).Run ((e, .procMigrate) :: l) e' ∧
      e.merger.mergeStage = 1 ∧ e.IsSource 1 ∧ e.lookupResult 1 [] 10 = some [3] ∧
      ∀ p, e.IsSource p → e.Undisturbed e' p := by
  obtain ⟨l, e, e', _, _, hrun, -, -, -, htest⟩ := System.exists_path_of_execAll
    (M := engineSystem (List SegPtr) 2 sampleHeap)
    (fun _ e _ _ => decide (e.merger.mergeStage = 1 ∧ e.merger.mseg1 = some 0 ∧
      e.merger.mseg2 = some 1 ∧ e.lookupResult 1 [] 10 = some [3] ∧
      (e.segs 0).LiveFirst e.docs ∧ (e.segs 1).LiveFirst e.docs))
    [.add 1, .add 2, .add 3, .add 4, .add 5, .remove 1, .remove 2, .remove 4, .procCheck]
    .procMigrate [] (by decide +kernel)
  obtain ⟨hstage, hm1, hm2, hlookup, hfirst1, hfirst2⟩ := of_decide_eq_true htest
  refine ⟨l, e, e', hrun, hstage, .inr hm2, hlookup, ?_⟩
  apply (migrate_undisturbed_iff (by norm_num) hrun hstage).1.mpr
  rintro p (hp | hp)
  · exact Option.some.inj (hm1.symm.trans hp) ▸ hfirst1
  · exact Option.some.inj (hm2.symm.trans hp) ▸ hfirst2

/-- **A live document that lookups lose**: with document 3 deleted before document 4 of the same
segment, the migration gives document 4 the id of document 3. -/
theorem migrate_hides_document :
    ∃ l e e', (engineSystem (List SegPtr) 2 sampleHeap).Run ((e, .procMigrate) :: l) e' ∧
      e.merger.mergeStage = 1 ∧ e'.merger.mergeStage = 2 ∧ e.IsSource 1 ∧
      e.returned 1 [] 10 = {4} ∧ e'.returned 1 [] 10 = ∅ := by
  obtain ⟨l, e, e', m, t, hrun, hpath, -, hm, htest⟩ := System.exists_path_of_execAll
    (M := engineSystem (List SegPtr) 2 sampleHeap)
    (fun _ e _ t => decide (e.merger.mergeStage = 1 ∧ t.merger.mergeStage = 2 ∧
      e.merger.mseg2 = some 1 ∧ e.lookupResult 1 [] 10 = some [4] ∧
      t.lookupResult 1 [] 10 = some []))
    [.add 1, .add 2, .add 3, .add 4, .add 5, .remove 1, .remove 2, .remove 3, .procCheck]
    .procMigrate [] (by decide +kernel)
  obtain ⟨hstage, hstage', hm2, hbefore, hafter⟩ := of_decide_eq_true htest
  obtain rfl : m = [] := by simpa using hm
  cases hpath
  refine ⟨l, e, e', hrun, hstage, hstage', .inr hm2, ?_, ?_⟩
  · rw [returned_of_lookupResult hbefore]
    simp
  · rw [returned_of_lookupResult hafter]
    simp

end Engine

end TsEngine
