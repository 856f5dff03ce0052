import TsEngine.Store.SegmentModel

/-!
# What a lookup returns

`ts_segment_lookup` answers in three ways: an empty term list walks the primary keys, a single
term copies its posting list, two or more terms intersect posting lists.  This file says what
each of them puts into an empty container, for a segment that represents a log.

The walk and the intersection are exact: they return as many of the matching documents as the
limit allows, and nothing else (`Segment.lookup_exact`).  The copy of a single posting list
returns a prefix of that list whether or not its documents are deleted, because the bitmap is
not consulted there (`Segment.lookup_singleton`).  What they write to `*total` goes with it:
nothing at an early exit or when an intersection is empty (`Segment.lookup_intersect`).
-/

namespace TsEngine

open Framework

/-- `result` is a choice of `limit` of the `matching` documents, or all of them if fewer. -/
structure Exact (limit : ℕ) (matching result : List DocPtr) : Prop where
  nodup : result.Nodup
  subset : result ⊆ matching
  length : result.length = min limit matching.length

/-- A prefix of any enumeration of the matching documents is exact. -/
lemma exact_take {limit : ℕ} {matching l : List DocPtr} (hperm : l.Perm matching)
    (hnodup : matching.Nodup) : Exact limit matching (l.take limit) where
  nodup := (hperm.nodup_iff.mpr hnodup).sublist (List.take_sublist _ _)
  subset := fun _ hx => hperm.mem_iff.mp (List.mem_of_mem_take hx)
  length := by rw [List.length_take, hperm.length_eq]

lemma exact_nil (limit : ℕ) : Exact limit [] [] := ⟨List.nodup_nil, fun _ h => h, by simp⟩

namespace Segment

variable {docs : DocHeap} {seg : Segment} {log : List DocPtr} {terms : List CString} {limit : ℕ}

/-- The documents of the log that are not deleted and have every term. -/
def matching (docs : DocHeap) (seg : Segment) (log : List DocPtr) (terms : List CString) :
    List DocPtr :=
  log.filter fun x => !seg.isDeleted docs x && terms.all fun term => (docs x).hasTerm term

lemma mem_matching {x : DocPtr} : x ∈ seg.matching docs log terms ↔
    x ∈ log ∧ seg.isDeleted docs x = false ∧ ∀ term ∈ terms, (docs x).hasTerm term = true := by
  simp [matching]

/-! ## The walk over the primary keys -/

lemma toList_walkUpTo (docs : DocHeap) (deletion : Bitmap) (xs : List DocPtr) (count : ℕ)
    (ctn : DocidContainer DocPtr) :
    (walkUpTo docs deletion limit xs count ctn).toList =
      ctn.toList ++ (xs.filter fun x => !deletion.get (docs x).docId).take (limit - count) := by
  induction xs generalizing count ctn with
  | nil => simp [walkUpTo]
  | cons x xs ih =>
      unfold walkUpTo
      split_ifs with hfull hdel
      · simp [Nat.sub_eq_zero_of_le hfull]
      · rw [ih, List.filter_cons_of_neg (by simp [hdel])]
      · have hsub : limit - count = limit - (count + 1) + 1 := by omega
        rw [ih, List.filter_cons_of_pos (by simp [hdel]), hsub]
        simp

/-! ## The posting lists -/

lemma posting_of_find {term : CString} {inv : Inverted}
    (hfind : Keyed.find Inverted.term seg.docs term = some inv) :
    seg.posting term = inv.docIds.toList := by
  simp [posting, hfind]

/-- Collecting the posting lists fails only where one of them is empty. -/
lemma collectIds_spec (h : seg.Indexed docs log) (hsize : log.length < 2 ^ 32)
    (terms : List CString) :
    (seg.collectIds terms = none ∧ ∃ term ∈ terms, seg.posting term = []) ∨
      ∃ idsList, seg.collectIds terms = some idsList ∧
        idsList.map (fun inv => inv.docIds.toList) = terms.map seg.posting := by
  induction terms with
  | nil => exact .inr ⟨[], rfl, rfl⟩
  | cons term terms ih =>
      cases hfind : Keyed.find Inverted.term seg.docs term with
      | none => exact .inl ⟨by simp [collectIds, hfind], term, by simp, by simp [posting, hfind]⟩
      | some inv =>
          have hpost := posting_of_find hfind
          have htotal : inv.docIds.total ≠ 0 := by
            have hlen : inv.docIds.toList.length < 2 ^ 32 := by
              rw [← hpost, h.posting]
              exact (List.length_filter_le _ _).trans_lt hsize
            rw [inv.docIds.total_eq, Nat.mod_eq_of_lt hlen]
            exact fun h0 => h.posting_ne_nil inv (Keyed.mem_of_find hfind)
              (List.length_eq_zero_iff.mp h0)
          rcases ih with ⟨hnone, term', hmem, hnil⟩ | ⟨idsList, hsome, hmap⟩
          · exact .inl ⟨by simp [collectIds, hfind, htotal, hnone], term', by simp [hmem], hnil⟩
          · exact .inr ⟨inv :: idsList, by simp [collectIds, hfind, htotal, hsome],
              by simp [hmap, hpost]⟩

/-- What is collected are records of the term table. -/
lemma mem_collectIds {idsList : List Inverted} (hsome : seg.collectIds terms = some idsList)
    {term : CString} (hterm : term ∈ terms) :
    ∃ inv, Keyed.find Inverted.term seg.docs term = some inv := by
  induction terms generalizing idsList with
  | nil => simp at hterm
  | cons t terms ih =>
      unfold collectIds at hsome
      cases hfind : Keyed.find Inverted.term seg.docs t with
      | none => simp [hfind] at hsome
      | some inv =>
          rcases List.mem_cons.mp hterm with rfl | hterm
          · exact ⟨inv, hfind⟩
          · simp only [hfind] at hsome
            split_ifs at hsome
            obtain ⟨rest, hrest, -⟩ := Option.map_eq_some_iff.mp hsome
            exact ih hrest hterm

/-- A term without documents leaves nothing to match. -/
lemma matching_of_posting (h : seg.Indexed docs log) {term : CString} (hterm : term ∈ terms)
    (hnil : seg.posting term = []) : seg.matching docs log terms = [] := by
  refine List.eq_nil_iff_forall_not_mem.mpr fun x hx => ?_
  obtain ⟨hlog, -, hall⟩ := mem_matching.mp hx
  exact absurd (h.mem_posting.mpr ⟨hlog, hall term hterm⟩) (by simp [hnil])

/-- Intersecting the posting lists of two or more terms yields the matching documents. -/
lemma foldl_common_posting (h : seg.Represents docs log) (hids : seg.Ids docs log)
    (term : CString) (hterms : terms ≠ []) :
    ((terms.map seg.posting).foldl
        (common (fun x => (docs x).docId) (undeleted seg.deletion)) (seg.posting term)).Perm
      (seg.matching docs log (term :: terms)) := by
  have hpost : seg.posting term = log.filter fun x => (docs x).hasTerm term := h.posting term
  have hnodup : (seg.posting term).Nodup := hpost ▸ h.nodup.filter _
  refine (List.perm_ext_iff_of_nodup (hnodup.sublist (foldl_common_sublist _ _))
    (h.nodup.filter _)).mpr fun x => ?_
  change _ ↔ x ∈ seg.matching docs log (term :: terms)
  rw [mem_foldl_common, mem_matching, h.mem_posting, List.forall_mem_cons]
  simp only [List.forall_mem_map, ne_eq, List.map_eq_nil_iff, hterms, not_false_eq_true,
    forall_const, undeleted, Bool.not_eq_eq_eq_not, Bool.not_true]
  constructor
  · rintro ⟨⟨hx, hterm⟩, hrest, hdel⟩
    refine ⟨hx, hdel, hterm, fun term' hterm' => ?_⟩
    obtain ⟨y, hy, heq⟩ := List.mem_map.mp (hrest term' hterm')
    obtain ⟨hylog, hyterm⟩ := h.mem_posting.mp hy
    rwa [← hids.injOn hylog hx heq]
  · rintro ⟨hx, hdel, hterm, hrest⟩
    exact ⟨⟨hx, hterm⟩, fun term' hterm' =>
      List.mem_map.mpr ⟨x, h.mem_posting.mpr ⟨hx, hrest term' hterm'⟩, rfl⟩, hdel⟩

/-! ## The lookup -/

/-- When the counters meet nothing matches. -/
lemma matching_of_counters (h : seg.Represents docs log)
    (heq : seg.numTotalDocs = seg.numTotalDeleted) : seg.matching docs log terms = [] := by
  refine List.eq_nil_iff_forall_not_mem.mpr fun x hx => ?_
  obtain ⟨hlog, hdel, -⟩ := mem_matching.mp hx
  rw [h.isDeleted_of_counters heq hlog] at hdel
  exact absurd hdel (by simp)

/-- Past the early exits, which need an empty segment or one whose counters meet. -/
lemma lookup_of_counters_ne (h : seg.Represents docs log) (hlimit : 1 ≤ limit)
    (hne : seg.numTotalDocs ≠ seg.numTotalDeleted) (ctn : DocidContainer DocPtr) (total : ℕ) :
    seg.lookup docs terms limit ctn total =
      match terms with
      | [] =>
          some (0, walkUpTo docs seg.deletion limit seg.docPtrs 0 ctn,
            (seg.numTotalDocs - seg.numTotalDeleted) % 2 ^ 32)
      | _ :: _ =>
          match seg.collectIds terms with
          | none => some (0, ctn, 0)
          | some [inv] =>
              some (0, copyUpTo limit inv.docIds.toList 0 ctn, inv.numTotal % 2 ^ 32)
          | some idsList =>
              (seekIntersect (fun x => (docs x).docId) seg.deletion (idsList.map Inverted.docIds)
                ctn limit total).map fun r => (0, r.1, r.2) := by
  have hpos : seg.numTotalDocs ≠ 0 := by
    have hle := h.numTotalDeleted_le
    omega
  have hlt : ¬limit < 1 := by omega
  unfold lookup
  rw [if_neg hlt, if_neg hpos, if_neg hne]
  rfl

/-- At an early exit the container stays empty. -/
lemma lookup_of_counters_eq (hlimit : 1 ≤ limit)
    (heq : seg.numTotalDocs = seg.numTotalDeleted) (ctn : DocidContainer DocPtr) (total : ℕ) :
    seg.lookup docs terms limit ctn total = some (0, ctn, total) := by
  have hlt : ¬limit < 1 := by omega
  unfold lookup
  rw [if_neg hlt, if_pos heq]
  split_ifs <;> rfl

/-- The path of two or more terms: some posting list is missing, or all are there and their
intersection, which is the matching documents, is copied.  The total is that of the intersection
unless this is empty, in which case it is not written. -/
lemma lookup_intersect (h : seg.Represents docs log) (hids : seg.Ids docs log)
    (hsize : log.length < 2 ^ 32) (hlimit : 1 ≤ limit)
    (hne : seg.numTotalDocs ≠ seg.numTotalDeleted) (hterms : 2 ≤ terms.length)
    (ctn : DocidContainer DocPtr) (total : ℕ) :
    (seg.lookup docs terms limit ctn total = some (0, ctn, 0) ∧
      ∃ term ∈ terms, seg.posting term = []) ∨
    ∃ out total' inter, seg.lookup docs terms limit ctn total = some (0, out, total') ∧
      (∀ term ∈ terms, seg.posting term ≠ []) ∧ inter.Perm (seg.matching docs log terms) ∧
      out.toList = ctn.toList ++ inter.take limit ∧
      (inter ≠ [] → total' = inter.length % 2 ^ 32) ∧ (inter = [] → total' = total) := by
  rw [lookup_of_counters_ne h hlimit hne]
  match terms, hterms with
  | term :: term' :: terms, _ =>
      rcases collectIds_spec h.toIndexed hsize (term :: term' :: terms) with
        ⟨hnone, hnil⟩ | ⟨idsList, hsome, hmap⟩
      · exact .inl ⟨by simp only [hnone], hnil⟩
      rcases idsList with _ | ⟨inv, _ | ⟨inv', idsList⟩⟩
      · simp at hmap
      · simp at hmap
      -- every list collected is the posting list of a term of the request, and conversely
      have hof : ∀ i ∈ inv :: inv' :: idsList, ∃ t, i.docIds.toList = seg.posting t := by
        intro i hi
        obtain ⟨t, -, ht⟩ := List.mem_map.mp (hmap ▸ List.mem_map_of_mem
          (f := fun inv : Inverted => inv.docIds.toList) hi)
        exact ⟨t, ht.symm⟩
      have hsearch : ∀ ids ∈ (inv :: inv' :: idsList).map Inverted.docIds,
          Searchable (fun x => (docs x).docId) ids := by
        intro ids hmem
        obtain ⟨i, hi, rfl⟩ := List.mem_map.mp hmem
        obtain ⟨t, ht⟩ := hof i hi
        refine ⟨?_, ?_⟩ <;> rw [ht, h.posting]
        · exact hids.ascending.sublist List.filter_sublist
        · exact (List.length_filter_le _ _).trans_lt hsize
      have hposting : ∀ t ∈ term :: term' :: terms, seg.posting t ≠ [] := by
        intro t ht
        obtain ⟨inv₀, hinv₀⟩ := mem_collectIds hsome ht
        rw [posting_of_find hinv₀]
        exact h.posting_ne_nil inv₀ (Keyed.mem_of_find hinv₀)
      obtain ⟨out, total', hseek, hout, hfull, hempty⟩ :=
        seekIntersect_spec seg.deletion hsearch ctn hlimit total
      simp only [List.map_cons, List.cons.injEq] at hmap
      obtain ⟨hinv, hinv', hrest⟩ := hmap
      have hlists : ((inv' :: idsList).map Inverted.docIds).map DocidContainer.toList =
          (term' :: terms).map seg.posting := by
        simp only [List.map_cons, List.map_map, hinv', ← hrest]
        rfl
      rw [← List.map_cons, hlists, hinv] at hout hfull hempty
      refine .inr ⟨out, total', _, ?_, hposting, foldl_common_posting h hids term (by simp), hout,
        hfull, hempty⟩
      simp only [hsome]
      rw [List.map_cons, List.map_cons, hseek]
      rfl

/-- **The walk and the intersection are exact.** -/
lemma lookup_exact (h : seg.Represents docs log) (hids : seg.Ids docs log)
    (hsize : log.length < 2 ^ 32) (hterms : terms.length ≠ 1) (hlimit : 1 ≤ limit) (total : ℕ) :
    ∃ ctn total', seg.lookup docs terms limit .init total = some (0, ctn, total') ∧
      Exact limit (seg.matching docs log terms) ctn.toList := by
  by_cases heq : seg.numTotalDocs = seg.numTotalDeleted
  · rw [lookup_of_counters_eq hlimit heq, matching_of_counters h heq]
    exact ⟨.init, total, rfl, exact_nil limit⟩
  by_cases hnil : terms = []
  · subst hnil
    rw [lookup_of_counters_ne h hlimit heq]
    refine ⟨_, _, rfl, ?_⟩
    rw [toList_walkUpTo, DocidContainer.toList_init, List.nil_append, Nat.sub_zero]
    refine exact_take ?_ (h.nodup.filter _)
    simpa [matching, isDeleted] using h.walk.filter fun x => !seg.deletion.get (docs x).docId
  · have htwo : 2 ≤ terms.length := by
      have hpos := List.length_pos_iff.mpr hnil
      omega
    rcases lookup_intersect h hids hsize hlimit heq htwo .init total with
      ⟨hret, t, ht, hpost⟩ | ⟨out, total', inter, hret, -, hperm, hout, -⟩
    · rw [matching_of_posting h.toIndexed ht hpost]
      exact ⟨.init, 0, hret, exact_nil limit⟩
    · refine ⟨out, total', hret, ?_⟩
      rw [hout, DocidContainer.toList_init, List.nil_append]
      exact exact_take hperm (h.nodup.filter _)

/-- **A single term's posting list is copied as it is**, and its length is the total. -/
lemma lookup_singleton (h : seg.Represents docs log) (hsize : log.length < 2 ^ 32)
    (term : CString) (hlimit : 1 ≤ limit) (ctn : DocidContainer DocPtr) (total : ℕ) :
    ∃ ctn' total', seg.lookup docs [term] limit ctn total = some (0, ctn', total') ∧
      ctn'.toList = ctn.toList ++ (if seg.numTotalDocs = seg.numTotalDeleted then []
        else (log.filter fun x => (docs x).hasTerm term).take limit) ∧
      total' = if seg.numTotalDocs = seg.numTotalDeleted then total
        else (log.filter fun x => (docs x).hasTerm term).length := by
  split_ifs with heq
  · exact ⟨ctn, total, lookup_of_counters_eq hlimit heq _ _, by simp, rfl⟩
  have hlen : (seg.posting term).length < 2 ^ 32 := by
    rw [h.posting]
    exact (List.length_filter_le _ _).trans_lt hsize
  rw [lookup_of_counters_ne h hlimit heq, ← h.posting]
  rcases collectIds_spec h.toIndexed hsize [term] with ⟨hnone, t, ht, hnil⟩ | ⟨idsList, hsome, hmap⟩
  · rw [List.mem_singleton.mp ht] at hnil
    exact ⟨ctn, 0, by simp only [hnone], by simp [hnil], by simp [hnil]⟩
  · rcases idsList with _ | ⟨inv, _ | ⟨inv', idsList⟩⟩
    · simp at hmap
    · have hinv : inv.docIds.toList = seg.posting term := by simpa using hmap
      obtain ⟨inv₀, hfind⟩ := mem_collectIds hsome (List.mem_singleton_self term)
      have hsame : ¬inv₀.docIds.total = 0 ∧ inv₀ = inv := by simpa [collectIds, hfind] using hsome
      obtain ⟨-, rfl⟩ := hsame
      refine ⟨copyUpTo limit inv₀.docIds.toList 0 ctn, inv₀.numTotal % 2 ^ 32,
        by simp only [hsome], ?_, ?_⟩
      · rw [toList_copyUpTo (by omega), hinv]
        simp
      · rw [h.numTotal inv₀ (Keyed.mem_of_find hfind), hinv, Nat.mod_eq_of_lt hlen]
    · simp at hmap

end Segment

end TsEngine
