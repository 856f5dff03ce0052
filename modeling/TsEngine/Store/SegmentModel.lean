import TsEngine.Store.Segment

/-!
# What a segment stands for

The abstract content of a segment is the list of the documents added to it, in the order they
were added (its *log*), and the set of its deletion bits.  `Segment.Represents` says that the
hash tables, the bitmap and the counters all agree with a log: the documents listed under a
primary key are those of the log with that key, the posting list of a term is the log filtered
by the term, the walk over the primary keys is a permutation of the log.  Nothing in it depends
on what the `doc_id`s are, except that a set bit is the id of some document; it therefore
survives the renumbering a migration inflicts on the documents of an old segment.

`Segment.Ids` is the part that does depend on the ids: they ascend along the log, and stay
below the generator.

The two operations are described once each: `Segment.Represents.addDocument` (the log grows by
the document), `Segment.bitsAdded_removeDocument` (the bits of the key's documents are set and
nothing else changes).
-/

namespace TsEngine

open Framework

namespace Segment

/-- The hash tables and their counters agree with the log. -/
structure Indexed (docs : DocHeap) (seg : Segment) (log : List DocPtr) : Prop where
  nodup : log.Nodup
  numTotalDocs : seg.numTotalDocs = log.length
  pkWf : Keyed.Wf PkMapping.pk seg.pkMapping
  entries : ∀ pk, seg.entries pk = log.filter fun x => (docs x).pk = pk
  entries_ne_nil : ∀ mp ∈ seg.pkMapping, mp.docIds.toList ≠ []
  heads : (seg.pkMapping.flatMap fun mp => mp.docIds.toList.take 1).Sublist log
  walk : seg.docPtrs.Perm log
  termWf : Keyed.Wf Inverted.term seg.docs
  posting : ∀ term, seg.posting term = log.filter fun x => (docs x).hasTerm term
  posting_ne_nil : ∀ inv ∈ seg.docs, inv.docIds.toList ≠ []
  numTotal : ∀ inv ∈ seg.docs, inv.numTotal = inv.docIds.toList.length
  numTotalInverted : seg.numTotalInverted = seg.docs.length

/-- The bitmap and its counter agree with the log. -/
structure Deletions (docs : DocHeap) (seg : Segment) (log : List DocPtr) : Prop where
  bit : ∀ i, seg.deletion.get i = true → ∃ x ∈ log, (docs x).docId = i
  numTotalDeleted : seg.numTotalDeleted = seg.deletion.support.card

/-- The segment is in the state its log and its deletion bits determine. -/
structure Represents (docs : DocHeap) (seg : Segment) (log : List DocPtr) : Prop
    extends seg.Indexed docs log, seg.Deletions docs log

/-- The ids ascend along the log and stay below the generator, which has not wrapped. -/
structure Ids (docs : DocHeap) (seg : Segment) (log : List DocPtr) : Prop where
  ascending : Ascending (fun x => (docs x).docId) log
  pos : ∀ x ∈ log, 0 < (docs x).docId
  lt_start : ∀ x ∈ log, (docs x).docId < seg.generator.start
  start_pos : 0 < seg.generator.start
  start_lt : seg.generator.start < 2 ^ 32

variable {docs docs' : DocHeap} {seg : Segment} {log : List DocPtr} {d x : DocPtr} {pk : ℕ}
  {term : CString}

lemma new_represents (docs : DocHeap) : new.Represents docs [] where
  nodup := List.nodup_nil
  numTotalDocs := rfl
  pkWf := List.nodup_nil
  entries _ := rfl
  entries_ne_nil := by simp [new]
  heads := List.Sublist.refl []
  walk := List.Perm.nil
  termWf := List.nodup_nil
  posting _ := rfl
  posting_ne_nil := by simp [new]
  numTotal := by simp [new]
  numTotalInverted := rfl
  bit := by simp [new]
  numTotalDeleted := rfl

lemma new_ids (docs : DocHeap) : new.Ids docs [] where
  ascending := List.Pairwise.nil
  pos := by simp
  lt_start := by simp
  start_pos := by simp [new, DocidGenerator.init]
  start_lt := by simp [new, DocidGenerator.init]

/-! ## Frames -/

/-- The tables only see primary keys and fields. -/
lemma Indexed.congr (h : seg.Indexed docs log) (hsame : docs.SameDocs docs') :
    seg.Indexed docs' log :=
  { h with
    entries := fun pk => by
      rw [h.entries]
      exact List.filter_congr fun x _ => by rw [(hsame x).1]
    posting := fun term => by
      rw [h.posting]
      exact List.filter_congr fun x _ => by rw [hsame.hasTerm] }

lemma Deletions.congr (h : seg.Deletions docs log)
    (hids : ∀ x ∈ log, (docs' x).docId = (docs x).docId) : seg.Deletions docs' log :=
  { h with
    bit := fun i hi => by
      obtain ⟨x, hx, rfl⟩ := h.bit i hi
      exact ⟨x, hx, hids x hx⟩ }

lemma Ids.congr (h : seg.Ids docs log) (hids : ∀ x ∈ log, (docs' x).docId = (docs x).docId) :
    seg.Ids docs' log where
  ascending := h.ascending.imp_of_mem fun hx hy hlt => by
    simp only [hids _ hx, hids _ hy]
    exact hlt
  pos x hx := by rw [hids x hx]; exact h.pos x hx
  lt_start x hx := by rw [hids x hx]; exact h.lt_start x hx
  start_pos := h.start_pos
  start_lt := h.start_lt

/-- A heap that differs in the ids of other documents only does not matter to a segment. -/
lemma Represents.congr (h : seg.Represents docs log) (hsame : docs.SameDocs docs')
    (hids : ∀ x ∈ log, (docs' x).docId = (docs x).docId) : seg.Represents docs' log :=
  ⟨h.toIndexed.congr hsame, h.toDeletions.congr hids⟩

lemma mem_docPtrs_of_mem_entries (hx : x ∈ seg.entries pk) : x ∈ seg.docPtrs := by
  unfold entries at hx
  cases hfind : Keyed.find PkMapping.pk seg.pkMapping pk with
  | none => simp [hfind] at hx
  | some mp =>
      rw [hfind] at hx
      exact List.mem_flatMap.mpr ⟨mp, Keyed.mem_of_find hfind, hx⟩

/-- The state of a segment does not matter. -/
lemma Represents.setState (h : seg.Represents docs log) (k : ℕ) :
    ({ seg with state := k } : Segment).Represents docs log where
  toIndexed := { h.toIndexed with }
  toDeletions := { h.toDeletions with }

lemma Indexed.mem_docPtrs (h : seg.Indexed docs log) : x ∈ seg.docPtrs ↔ x ∈ log :=
  h.walk.mem_iff

/-- The live documents of a segment, in the order of its primary key table. -/
def livePtrs (docs : DocHeap) (seg : Segment) : List DocPtr :=
  seg.docPtrs.filter fun x => !seg.isDeleted docs x

lemma mem_livePtrs : x ∈ seg.livePtrs docs ↔ x ∈ seg.docPtrs ∧ seg.isDeleted docs x = false := by
  simp [livePtrs]

lemma Indexed.mem_entries (h : seg.Indexed docs log) :
    x ∈ seg.entries pk ↔ x ∈ log ∧ (docs x).pk = pk := by
  simp [h.entries]

lemma Indexed.mem_posting (h : seg.Indexed docs log) :
    x ∈ seg.posting term ↔ x ∈ log ∧ (docs x).hasTerm term = true := by
  simp [h.posting]

/-- A container of the primary key table holds the documents of its key. -/
lemma Indexed.toList_eq (h : seg.Indexed docs log) {mp : PkMapping} (hmp : mp ∈ seg.pkMapping) :
    mp.docIds.toList = log.filter fun x => (docs x).pk = mp.pk := by
  have hentries := h.entries mp.pk
  rwa [Segment.entries, Keyed.find_of_mem h.pkWf hmp] at hentries

/-- Distinct documents of a segment have distinct ids. -/
lemma Ids.injOn (h : seg.Ids docs log) {x y : DocPtr} (hx : x ∈ log) (hy : y ∈ log)
    (heq : (docs x).docId = (docs y).docId) : x = y :=
  h.ascending.eq_of_key_eq hx hy heq

/-! ## Adding a document -/

/-- Indexing the fields touches the term table and its counter only. -/
lemma indexField_frame (d : DocPtr) (seg : Segment) (field : Field) :
    ∃ docs n, indexField d seg field = { seg with docs := docs, numTotalInverted := n } := by
  unfold indexField invertedGetOrNew
  split_ifs
  · exact ⟨_, _, rfl⟩
  · exact ⟨_, _, rfl⟩

lemma foldl_indexField_frame (d : DocPtr) (fields : List Field) (seg : Segment) :
    ∃ docs n, fields.foldl (indexField d) seg =
      { seg with docs := docs, numTotalInverted := n } := by
  induction fields generalizing seg with
  | nil => exact ⟨_, _, rfl⟩
  | cons field fields ih =>
      obtain ⟨docs, n, hfield⟩ := indexField_frame d seg field
      obtain ⟨docs', n', hfields⟩ := ih { seg with docs := docs, numTotalInverted := n }
      exact ⟨docs', n', by rw [List.foldl_cons, hfield, hfields]⟩

/-- The part of `Indexed` about the term table. -/
structure Terms (seg : Segment) : Prop where
  wf : Keyed.Wf Inverted.term seg.docs
  ne_nil : ∀ inv ∈ seg.docs, inv.docIds.toList ≠ []
  numTotal : ∀ inv ∈ seg.docs, inv.numTotal = inv.docIds.toList.length
  numTotalInverted : seg.numTotalInverted = seg.docs.length

lemma Indexed.terms (h : seg.Indexed docs log) : seg.Terms :=
  ⟨h.termWf, h.posting_ne_nil, h.numTotal, h.numTotalInverted⟩

lemma indexField_terms (h : seg.Terms) (d : DocPtr) (field : Field) :
    (indexField d seg field).Terms := by
  unfold indexField
  split_ifs with hidx
  · refine ⟨Keyed.wf_update_findOrAdd h.wf (Inverted.term_new _) (Inverted.term_addDocument d),
      ?_, ?_, ?_⟩
    · intro inv hinv
      obtain ⟨inv', hinv', rfl⟩ := Keyed.mem_update hinv
      by_cases hk : inv'.term = field.name
      · simp [hk]
      · rcases Keyed.mem_findOrAdd hinv' with hmem | rfl
        · simpa [hk] using h.ne_nil inv' hmem
        · exact absurd rfl hk
    · intro inv hinv
      obtain ⟨inv', hinv', rfl⟩ := Keyed.mem_update hinv
      have hnum : inv'.numTotal = inv'.docIds.toList.length := by
        rcases Keyed.mem_findOrAdd hinv' with hmem | rfl
        · exact h.numTotal inv' hmem
        · rfl
      by_cases hk : inv'.term = field.name
      · simp [hk, hnum]
      · simp [hk, hnum]
    · simp only [invertedGetOrNew, Keyed.update, Keyed.findOrAdd, List.length_map]
      cases Keyed.find Inverted.term seg.docs field.name <;> simp [h.numTotalInverted]
  · exact h

lemma posting_indexField (seg : Segment) (d : DocPtr) (field : Field) (term : CString) :
    (indexField d seg field).posting term =
      seg.posting term ++ if field.isIndexable && field.name == term then [d] else [] := by
  unfold indexField
  split_ifs with hidx hname hname
  · obtain rfl : field.name = term := by simpa [hidx] using hname
    simp only [posting, invertedGetOrNew]
    rw [Keyed.find_update_findOrAdd (Inverted.term_new _) (Inverted.term_addDocument d), if_pos rfl]
    cases Keyed.find Inverted.term seg.docs field.name <;> simp
  · have hne : term ≠ field.name := fun he => hname (by simp [hidx, he])
    simp only [posting, invertedGetOrNew]
    rw [Keyed.find_update_findOrAdd (Inverted.term_new _) (Inverted.term_addDocument d),
      if_neg hne, List.append_nil]
  · simp [hidx] at hname
  · simp

/-- **Indexing all fields of a document appends it to the posting lists of its terms**, once
each because no two fields share a name. -/
lemma posting_foldl_indexField (seg : Segment) (d : DocPtr) (term : CString) :
    ∀ {fields : List Field}, (fields.map Field.name).Nodup →
      (fields.foldl (indexField d) seg).posting term = seg.posting term ++
        if fields.any fun f => f.isIndexable && f.name == term then [d] else []
  | [], _ => by simp
  | field :: fields, hnodup => by
      obtain ⟨hfield, hfields⟩ := List.nodup_cons.mp hnodup
      rw [List.foldl_cons, posting_foldl_indexField _ d term hfields, posting_indexField,
        List.append_assoc, List.any_cons]
      congr 1
      by_cases hhere : (field.isIndexable && field.name == term) = true
      · have hrest : (fields.any fun f => f.isIndexable && f.name == term) = false := by
          rw [List.any_eq_false]
          intro f hf hboth
          simp only [Bool.and_eq_true, beq_iff_eq] at hhere hboth
          exact hfield (hhere.2.trans hboth.2.symm ▸ List.mem_map_of_mem hf)
        simp [hhere, hrest]
      · simp [hhere]

lemma foldl_indexField_terms (h : seg.Terms) (d : DocPtr) (fields : List Field) :
    (fields.foldl (indexField d) seg).Terms := by
  induction fields generalizing seg with
  | nil => exact h
  | cons field fields ih => exact ih (indexField_terms h d field)

/-- What adding a document that passes its check does to the parts the indexes do not touch. -/
structure Added (docs : DocHeap) (seg : Segment) (d : DocPtr) (r : ℤ × DocHeap × Segment) :
    Prop where
  ret : r.1 = 0
  heap : r.2.1 = docs.setDocId d seg.generator.start
  deletion : r.2.2.deletion = seg.deletion
  numTotalDeleted : r.2.2.numTotalDeleted = seg.numTotalDeleted
  generator : r.2.2.generator = seg.generator.incr.2
  processes : r.2.2.processes = seg.processes
  state : r.2.2.state = seg.state
  numTotalDocs : r.2.2.numTotalDocs = seg.numTotalDocs + 1
  pkMapping : r.2.2.pkMapping = Keyed.update PkMapping.pk
    (Keyed.findOrAdd PkMapping.pk seg.pkMapping (docs d).pk (.new (docs d).pk)) (docs d).pk
    (·.append d)
  terms : seg.Terms → r.2.2.Terms
  posting : ∀ term, r.2.2.posting term =
    seg.posting term ++ if (docs d).hasTerm term = true then [d] else []

lemma addDocument_added (docs : DocHeap) (seg : Segment) (hcheck : (docs d).check = true) :
    Added docs seg d (seg.addDocument docs d) := by
  set seg₀ : Segment := { seg with generator := seg.generator.incr.2 } with hseg₀
  obtain ⟨terms, n, hfields⟩ := foldl_indexField_frame d (docs d).fields seg₀
  have hterms : seg.Terms → ({ seg₀ with docs := terms, numTotalInverted := n } : Segment).Terms :=
    fun h => by
      have hterms₀ : seg₀.Terms := ⟨h.1, h.2, h.3, h.4⟩
      exact hfields ▸ foldl_indexField_terms hterms₀ d _
  have hposting : ∀ term, ({ seg₀ with docs := terms, numTotalInverted := n } : Segment).posting
      term = seg.posting term ++ if (docs d).hasTerm term = true then [d] else [] := fun term => by
    rw [← hfields, posting_foldl_indexField seg₀ d term (docs d).fields_nodup]
    rfl
  have heq : seg.addDocument docs d = (0, docs.setDocId d seg.generator.start,
      { seg₀ with
        docs := terms
        numTotalInverted := n
        pkMapping := Keyed.update PkMapping.pk (Keyed.findOrAdd PkMapping.pk seg.pkMapping
          (docs d).pk (.new (docs d).pk)) (docs d).pk (·.append d)
        numTotalDocs := seg.numTotalDocs + 1 }) := by
    simp only [addDocument, DocidGenerator.incr, DocHeap.setDocId_check, hcheck, Bool.not_true,
      Bool.false_eq_true, if_false, DocHeap.setDocId_fields, DocHeap.setDocId_pk]
    simp only [hseg₀, DocidGenerator.incr] at hfields
    rw [hfields]
    rfl
  rw [heq]
  exact ⟨rfl, rfl, rfl, rfl, rfl, rfl, rfl, rfl, rfl,
    fun h => ⟨(hterms h).1, (hterms h).2, (hterms h).3, (hterms h).4⟩, hposting⟩

/-- The document is listed, on top of those that were. -/
lemma mem_docPtrs_addDocument (hwf : Keyed.Wf PkMapping.pk seg.pkMapping)
    (hcheck : (docs d).check = true) :
    x ∈ (seg.addDocument docs d).2.2.docPtrs ↔ x ∈ seg.docPtrs ∨ x = d := by
  have hperm := Keyed.flatMap_update_findOrAdd hwf (PkMapping.pk_new (docs d).pk)
    (fun mp => mp.docIds.toList) (PkMapping.toList_append d) rfl
  rw [docPtrs, (addDocument_added docs seg hcheck).pkMapping]
  rw [hperm.mem_iff]
  simp [docPtrs]

/-- A document that fails its check only uses up an id. -/
lemma addDocument_of_not_check (docs : DocHeap) (seg : Segment) (hcheck : (docs d).check = false) :
    seg.addDocument docs d = (-1, docs.setDocId d seg.generator.start,
      { seg with generator := seg.generator.incr.2 }) := by
  simp [addDocument, DocidGenerator.incr, hcheck]

/-- The first documents of the primary keys: a new key adds one, an old key none. -/
lemma heads_append {t : List PkMapping} (d : DocPtr) (pk : ℕ)
    (hne : ∀ mp ∈ t, mp.docIds.toList ≠ []) :
    ((Keyed.update PkMapping.pk (Keyed.findOrAdd PkMapping.pk t pk (.new pk)) pk
      (·.append d)).flatMap fun mp => mp.docIds.toList.take 1) =
        (t.flatMap fun mp => mp.docIds.toList.take 1) ∨
    ((Keyed.update PkMapping.pk (Keyed.findOrAdd PkMapping.pk t pk (.new pk)) pk
      (·.append d)).flatMap fun mp => mp.docIds.toList.take 1) =
        (t.flatMap fun mp => mp.docIds.toList.take 1) ++ [d] := by
  unfold Keyed.findOrAdd
  cases hfind : Keyed.find PkMapping.pk t pk with
  | some mp =>
      left
      rw [Keyed.update, List.flatMap_map]
      refine List.flatMap_congr fun mp' hmp' => ?_
      split_ifs
      · rw [PkMapping.toList_append, List.take_append_of_le_length]
        exact List.length_pos_iff.mpr (hne mp' hmp')
      · rfl
  | none =>
      right
      have hupd := Keyed.update_of_find_none (f := fun mp => PkMapping.append mp d) hfind
      rw [Keyed.update] at hupd
      rw [Keyed.update, List.map_append, hupd, List.flatMap_append]
      simp

/-- **Adding a document appends it to the log.** -/
lemma Represents.addDocument (h : seg.Represents docs log) (hd : d ∉ log)
    (hcheck : (docs d).check = true) :
    (seg.addDocument docs d).2.2.Represents (docs.setDocId d seg.generator.start)
      (log ++ [d]) := by
  have hadd := addDocument_added docs seg hcheck
  have hsame : docs.SameDocs (docs.setDocId d seg.generator.start) := .setDocId d _
  have hids : ∀ x ∈ log, (docs.setDocId d seg.generator.start x).docId = (docs x).docId :=
    fun x hx => by
      have hne : x ≠ d := fun he => hd (he ▸ hx)
      rw [DocHeap.setDocId_of_ne docs _ hne]
  generalize hr : seg.addDocument docs d = r at hadd
  generalize hdocs : docs.setDocId d seg.generator.start = docs' at hsame hids
  have happend := PkMapping.pk_append d
  have hfind : ∀ pk, r.2.2.entries pk = seg.entries pk ++ if (docs d).pk = pk then [d] else [] := by
    intro pk
    simp only [entries, hadd.pkMapping]
    rw [Keyed.find_update_findOrAdd (PkMapping.pk_new _) happend]
    by_cases hpk : (docs d).pk = pk
    · subst hpk
      cases Keyed.find PkMapping.pk seg.pkMapping (docs d).pk <;> simp
    · simp [hpk, Ne.symm hpk]
  have hcongr := h.toIndexed.congr hsame
  refine ⟨⟨?nodup, ?numTotalDocs, ?pkWf, ?entries, ?entries_ne_nil, ?heads, ?walk, ?termWf,
    ?posting, ?posting_ne_nil, ?numTotal, ?numTotalInverted⟩, ⟨?bit, ?numTotalDeleted⟩⟩
  case nodup =>
    refine List.nodup_append.mpr ⟨h.nodup, List.nodup_singleton d, ?_⟩
    rintro a ha b hb rfl
    exact hd (List.mem_singleton.mp hb ▸ ha)
  case numTotalDocs => simp [hadd.numTotalDocs, h.numTotalDocs]
  case pkWf =>
    rw [hadd.pkMapping]
    exact Keyed.wf_update_findOrAdd h.pkWf (PkMapping.pk_new _) happend
  case entries =>
    intro pk
    rw [hfind, hcongr.entries, List.filter_append]
    congr 1
    by_cases hpk : (docs d).pk = pk <;> simp [(hsame d).1, hpk]
  case entries_ne_nil =>
    intro mp hmp
    rw [hadd.pkMapping] at hmp
    obtain ⟨mp', hmp', rfl⟩ := Keyed.mem_update hmp
    by_cases hk : mp'.pk = (docs d).pk
    · simp [hk]
    · rcases Keyed.mem_findOrAdd hmp' with hmem | rfl
      · simpa [hk] using h.entries_ne_nil mp' hmem
      · exact absurd rfl hk
  case heads =>
    rw [hadd.pkMapping]
    rcases heads_append d (docs d).pk h.entries_ne_nil with heq | heq
    · rw [heq]
      exact h.heads.trans (List.sublist_append_left log [d])
    · rw [heq]
      exact h.heads.append_right [d]
  case walk =>
    unfold docPtrs
    rw [hadd.pkMapping]
    refine (Keyed.flatMap_update_findOrAdd h.pkWf (PkMapping.pk_new _) _
      (PkMapping.toList_append d) rfl).trans ?_
    exact h.walk.append_right [d]
  case termWf => exact (hadd.terms h.terms).wf
  case posting =>
    intro term
    rw [hadd.posting, hcongr.posting, List.filter_append]
    congr 1
    by_cases hterm : (docs d).hasTerm term = true <;> simp [hsame.hasTerm, hterm]
  case posting_ne_nil => exact (hadd.terms h.terms).ne_nil
  case numTotal => exact (hadd.terms h.terms).numTotal
  case numTotalInverted => exact (hadd.terms h.terms).numTotalInverted
  case bit =>
    intro i hi
    rw [hadd.deletion] at hi
    obtain ⟨x, hx, rfl⟩ := h.bit i hi
    exact ⟨x, by simp [hx], hids x hx⟩
  case numTotalDeleted => rw [hadd.numTotalDeleted, hadd.deletion, h.numTotalDeleted]

/-- A refused document leaves what the segment stands for alone. -/
lemma Represents.addDocument_refused (h : seg.Represents docs log) (hd : d ∉ log) :
    ({ seg with generator := seg.generator.incr.2 } : Segment).Represents
      (docs.setDocId d seg.generator.start) log := by
  have hcongr := h.congr (.setDocId d seg.generator.start) fun x hx => by
    have hne : x ≠ d := fun he => hd (he ▸ hx)
    rw [DocHeap.setDocId_of_ne docs _ hne]
  exact { hcongr with }

/-- The ids stay ascending, because the generator is above all of them. -/
lemma Ids.addDocument {seg' : Segment} (h : seg.Ids docs log) (hd : d ∉ log)
    (hroom : seg.generator.start + 1 < 2 ^ 32) (hgen : seg'.generator = seg.generator.incr.2) :
    seg'.Ids (docs.setDocId d seg.generator.start) (log ++ [d]) := by
  have hids : ∀ x ∈ log, (docs.setDocId d seg.generator.start x).docId = (docs x).docId :=
    fun x hx => by
      have hne : x ≠ d := fun he => hd (he ▸ hx)
      rw [DocHeap.setDocId_of_ne docs _ hne]
  have hstart : seg'.generator.start = seg.generator.start + 1 := by
    rw [hgen, DocidGenerator.incr, Nat.mod_eq_of_lt hroom]
  have hold := h.congr hids
  refine ⟨?_, ?_, ?_, by omega, by omega⟩
  · refine hold.ascending.append_singleton fun x hx => ?_
    rw [DocHeap.setDocId_self]
    exact hold.lt_start x hx
  · intro x hx
    rcases List.mem_append.mp hx with hx | hx
    · exact hold.pos x hx
    · rw [List.mem_singleton.mp hx, DocHeap.setDocId_self]
      exact h.start_pos
  · intro x hx
    rw [hstart]
    rcases List.mem_append.mp hx with hx | hx
    · exact (hold.lt_start x hx).trans (Nat.lt_succ_self _)
    · rw [List.mem_singleton.mp hx, DocHeap.setDocId_self]
      exact Nat.lt_succ_self _

/-- A refused document uses up its id. -/
lemma Ids.addDocument_refused (h : seg.Ids docs log) (hd : d ∉ log)
    (hroom : seg.generator.start + 1 < 2 ^ 32) :
    ({ seg with generator := seg.generator.incr.2 } : Segment).Ids
      (docs.setDocId d seg.generator.start) log := by
  have hadd : ({ seg with generator := seg.generator.incr.2 } : Segment).Ids
      (docs.setDocId d seg.generator.start) (log ++ [d]) := h.addDocument hd hroom rfl
  exact ⟨hadd.ascending.sublist (List.sublist_append_left _ _),
    fun x hx => hadd.pos x (by simp [hx]), fun x hx => hadd.lt_start x (by simp [hx]),
    hadd.start_pos, hadd.start_lt⟩

/-- A new document is not deleted: its id is above every id that has a bit. -/
lemma Ids.not_isDeleted_addDocument (h : seg.Ids docs log) (hdel : seg.Deletions docs log)
    {seg' : Segment} (hseg' : seg'.deletion = seg.deletion) :
    seg'.isDeleted (docs.setDocId d seg.generator.start) d = false := by
  rw [isDeleted, DocHeap.setDocId_self, hseg', Bool.eq_false_iff]
  intro hbit
  obtain ⟨x, hx, heq⟩ := hdel.bit _ hbit
  exact (h.lt_start x hx).ne heq

/-! ## Removing a primary key -/

/-- Only the bitmap, its counter and the lookup count differ; `added` are the ids whose bits were
set on top of those that were, and the counter counts them. -/
def BitsAdded (added : ℕ → Prop) (seg seg' : Segment) : Prop :=
  (∃ deletion n k, seg' = { seg with
      deletion := deletion, numTotalDeleted := n, processes := k }) ∧
    (∀ i, seg'.deletion.get i = true ↔ seg.deletion.get i = true ∨ added i) ∧
    seg'.numTotalDeleted + seg.deletion.support.card =
      seg.numTotalDeleted + seg'.deletion.support.card

lemma bitsAdded_refl (seg : Segment) : BitsAdded (fun _ => False) seg seg :=
  ⟨⟨_, _, _, rfl⟩, by simp, rfl⟩

lemma BitsAdded.trans {p q r : ℕ → Prop} {seg seg' seg'' : Segment} (h : BitsAdded p seg seg')
    (h' : BitsAdded q seg' seg'') (hr : ∀ i, r i ↔ p i ∨ q i) : BitsAdded r seg seg'' := by
  obtain ⟨⟨del, n, k, rfl⟩, hbit, hcount⟩ := h
  obtain ⟨⟨del', n', k', rfl⟩, hbit', hcount'⟩ := h'
  refine ⟨⟨del', n', k', rfl⟩, fun i => ?_, by simp only at *; omega⟩
  rw [hbit', hbit, hr, or_assoc]

lemma bitsAdded_deleteId (seg : Segment) (id : ℕ) :
    BitsAdded (fun i => i = id) seg (seg.deleteId id) := by
  unfold deleteId
  split_ifs with hid
  · refine ⟨⟨_, _, _, rfl⟩, fun i => ?_, rfl⟩
    constructor
    · exact fun h => .inl h
    · rintro (h | rfl)
      · exact h
      · exact hid
  · refine ⟨⟨_, _, _, rfl⟩, fun i => by simp, ?_⟩
    have hcard := Bitmap.card_support_set (by simpa using hid)
    simp only [hcard]
    omega

/-- The deletion loop sets the bits of the documents it visits. -/
lemma bitsAdded_foldl_deleteId (docs : DocHeap) (xs : List DocPtr) (seg : Segment) :
    BitsAdded (fun i => ∃ x ∈ xs, (docs x).docId = i) seg
      (xs.foldl (fun seg x => seg.deleteId (docs x).docId) seg) := by
  induction xs generalizing seg with
  | nil => simpa using bitsAdded_refl seg
  | cons x xs ih =>
      refine (bitsAdded_deleteId seg (docs x).docId).trans (ih _) fun i => ?_
      rw [List.exists_mem_cons_iff]
      simp [eq_comm]

/-- **Removing a key sets the bits of the documents listed under it.** -/
lemma bitsAdded_removeDocument (docs : DocHeap) (seg : Segment) (pk : ℕ) :
    BitsAdded (fun i => ∃ x ∈ seg.entries pk, (docs x).docId = i) seg
      (seg.removeDocument docs pk).2 := by
  unfold removeDocument entries
  cases hfind : Keyed.find PkMapping.pk seg.pkMapping pk with
  | none => simpa [hfind] using bitsAdded_refl seg
  | some mp => simpa [hfind] using bitsAdded_foldl_deleteId docs mp.docIds.toList seg

namespace BitsAdded

variable {added : ℕ → Prop} {seg' : Segment}

lemma pkMapping_eq (h : BitsAdded added seg seg') : seg'.pkMapping = seg.pkMapping := by
  obtain ⟨⟨_, _, _, rfl⟩, -⟩ := h
  rfl

lemma generator_eq (h : BitsAdded added seg seg') : seg'.generator = seg.generator := by
  obtain ⟨⟨_, _, _, rfl⟩, -⟩ := h
  rfl

lemma state_eq (h : BitsAdded added seg seg') : seg'.state = seg.state := by
  obtain ⟨⟨_, _, _, rfl⟩, -⟩ := h
  rfl

lemma numTotalDocs_eq (h : BitsAdded added seg seg') : seg'.numTotalDocs = seg.numTotalDocs := by
  obtain ⟨⟨_, _, _, rfl⟩, -⟩ := h
  rfl

lemma docPtrs_eq (h : BitsAdded added seg seg') : seg'.docPtrs = seg.docPtrs := by
  rw [docPtrs, h.pkMapping_eq, docPtrs]

lemma entries_eq (h : BitsAdded added seg seg') (pk : ℕ) : seg'.entries pk = seg.entries pk := by
  rw [entries, h.pkMapping_eq, entries]

lemma isDeleted_iff (h : BitsAdded added seg seg') :
    seg'.isDeleted docs x = true ↔ seg.isDeleted docs x = true ∨ added (docs x).docId :=
  h.2.1 _

lemma represents (h : BitsAdded added seg seg') (hseg : seg.Represents docs log)
    (hadded : ∀ i, added i → ∃ x ∈ log, (docs x).docId = i) : seg'.Represents docs log := by
  obtain ⟨⟨deletion, n, k, rfl⟩, hbit, hcount⟩ := h
  have hdel := hseg.numTotalDeleted
  refine ⟨{ hseg.toIndexed with }, ⟨fun i hi => ?_, by simp only at *; omega⟩⟩
  rcases (hbit i).mp hi with hi | hi
  · exact hseg.bit i hi
  · exact hadded i hi

lemma ids (h : BitsAdded added seg seg') (hseg : seg.Ids docs log) : seg'.Ids docs log := by
  obtain ⟨⟨deletion, n, k, rfl⟩, -⟩ := h
  exact { hseg with }

end BitsAdded

/-- Removing several keys, one after another. -/
lemma bitsAdded_foldl_removeDocument (docs : DocHeap) (seg : Segment) (pks : List ℕ) :
    BitsAdded (fun i => ∃ pk ∈ pks, ∃ x ∈ seg.entries pk, (docs x).docId = i) seg
      (pks.foldl (fun seg pk => (seg.removeDocument docs pk).2) seg) := by
  induction pks generalizing seg with
  | nil => simpa using bitsAdded_refl seg
  | cons pk pks ih =>
      have hstep := bitsAdded_removeDocument docs seg pk
      refine hstep.trans (ih _) fun i => ?_
      simp only [hstep.entries_eq, List.exists_mem_cons_iff]

lemma Represents.removeDocument (h : seg.Represents docs log) (pk : ℕ) :
    (seg.removeDocument docs pk).2.Represents docs log :=
  (bitsAdded_removeDocument docs seg pk).represents h fun i hi => by
    obtain ⟨x, hx, rfl⟩ := hi
    exact ⟨x, (h.mem_entries.mp hx).1, rfl⟩

/-- A document of the removed key is deleted afterwards, whatever the ids. -/
lemma Indexed.isDeleted_removeDocument (h : seg.Indexed docs log) (hx : x ∈ log) :
    (seg.removeDocument docs (docs x).pk).2.isDeleted docs x = true :=
  (bitsAdded_removeDocument docs seg _).isDeleted_iff.mpr
    (.inr ⟨x, h.mem_entries.mpr ⟨hx, rfl⟩, rfl⟩)

/-- Where ids are distinct, only the documents of the removed key are. -/
lemma isDeleted_removeDocument_iff (h : seg.Indexed docs log) (hids : seg.Ids docs log)
    (hx : x ∈ log) : (seg.removeDocument docs pk).2.isDeleted docs x = true ↔
      seg.isDeleted docs x = true ∨ (docs x).pk = pk := by
  rw [(bitsAdded_removeDocument docs seg pk).isDeleted_iff]
  refine or_congr_right ⟨?_, ?_⟩
  · rintro ⟨y, hy, heq⟩
    obtain ⟨hlog, rfl⟩ := h.mem_entries.mp hy
    rw [hids.injOn hlog hx heq]
  · rintro rfl
    exact ⟨x, h.mem_entries.mpr ⟨hx, rfl⟩, rfl⟩

/-! ## Counting -/

lemma Represents.support_subset (h : seg.Represents docs log) :
    seg.deletion.support ⊆ log.toFinset.image fun x => (docs x).docId := by
  intro i hi
  obtain ⟨x, hx, rfl⟩ := h.bit i (Bitmap.mem_support.mp hi)
  exact Finset.mem_image.mpr ⟨x, List.mem_toFinset.mpr hx, rfl⟩

lemma card_image_docId_le (docs : DocHeap) (log : List DocPtr) :
    (log.toFinset.image fun x => (docs x).docId).card ≤ log.length :=
  Finset.card_image_le.trans (List.toFinset_card_le log)

/-- **The deletion counter never exceeds the document counter.** -/
lemma Represents.numTotalDeleted_le (h : seg.Represents docs log) :
    seg.numTotalDeleted ≤ seg.numTotalDocs := by
  rw [h.numTotalDeleted, h.numTotalDocs]
  exact (Finset.card_le_card h.support_subset).trans (card_image_docId_le docs log)

/-- When the counters meet, every document is deleted. -/
lemma Represents.isDeleted_of_counters (h : seg.Represents docs log)
    (heq : seg.numTotalDocs = seg.numTotalDeleted) (hx : x ∈ log) :
    seg.isDeleted docs x = true := by
  rw [h.numTotalDeleted, h.numTotalDocs] at heq
  have himage := Finset.eq_of_subset_of_card_le h.support_subset
    ((card_image_docId_le docs log).trans heq.le)
  rw [isDeleted, ← Bitmap.mem_support, himage]
  exact Finset.mem_image.mpr ⟨x, List.mem_toFinset.mpr hx, rfl⟩

/-- Where ids are distinct, the deletion counter counts the deleted documents. -/
lemma Represents.numTotalDeleted_eq (h : seg.Represents docs log) (hids : seg.Ids docs log) :
    seg.numTotalDeleted = (log.filter fun x => seg.isDeleted docs x).length := by
  have hnodup := h.nodup.filter fun x => seg.isDeleted docs x
  have hinj : Set.InjOn (fun x => (docs x).docId)
      ((log.filter fun x => seg.isDeleted docs x).toFinset : Set DocPtr) := by
    intro x hx y hy heq
    have hx := List.mem_of_mem_filter (List.mem_toFinset.mp (Finset.mem_coe.mp hx))
    have hy := List.mem_of_mem_filter (List.mem_toFinset.mp (Finset.mem_coe.mp hy))
    exact hids.injOn hx hy heq
  rw [h.numTotalDeleted, ← List.toFinset_card_of_nodup hnodup, ← Finset.card_image_of_injOn hinj]
  congr 1
  ext i
  rw [Bitmap.mem_support, Finset.mem_image]
  constructor
  · intro hi
    obtain ⟨x, hx, rfl⟩ := h.bit i hi
    exact ⟨x, List.mem_toFinset.mpr (List.mem_filter.mpr ⟨hx, hi⟩), rfl⟩
  · rintro ⟨x, hx, rfl⟩
    exact (List.mem_filter.mp (List.mem_toFinset.mp hx)).2

/-- Where ids are distinct, the counters meet once every document is deleted. -/
lemma Represents.counters_of_isDeleted (h : seg.Represents docs log) (hids : seg.Ids docs log)
    (hall : ∀ x ∈ log, seg.isDeleted docs x = true) :
    seg.numTotalDocs = seg.numTotalDeleted := by
  rw [h.numTotalDeleted_eq hids, h.numTotalDocs, List.filter_eq_self.mpr hall]

/-! ## Sound segments -/

/-- A segment whose ids are in order and count its documents, and where no primary key has two
live documents. -/
structure Sound (docs : DocHeap) (seg : Segment) (log : List DocPtr) : Prop
    extends seg.Represents docs log, seg.Ids docs log where
  start : seg.generator.start = seg.numTotalDocs + 1
  livePk : ∀ x ∈ log, ∀ y ∈ log, (docs x).pk = (docs y).pk → seg.isDeleted docs x = false →
    seg.isDeleted docs y = false → x = y

lemma sound_new (docs : DocHeap) : new.Sound docs [] where
  toRepresents := new_represents docs
  toIds := new_ids docs
  start := rfl
  livePk := by simp

lemma Sound.setState (h : seg.Sound docs log) (k : ℕ) :
    ({ seg with state := k } : Segment).Sound docs log where
  toRepresents := h.toRepresents.setState k
  toIds := { h.toIds with }
  start := h.start
  livePk := h.livePk

lemma Sound.congr (h : seg.Sound docs log) (hsame : docs.SameDocs docs')
    (hids : ∀ x ∈ log, (docs' x).docId = (docs x).docId) : seg.Sound docs' log where
  toRepresents := h.toRepresents.congr hsame hids
  toIds := h.toIds.congr hids
  start := h.start
  livePk x hx y hy hpk hxlive hylive := by
    rw [(hsame x).1, (hsame y).1] at hpk
    rw [isDeleted, hids x hx] at hxlive
    rw [isDeleted, hids y hy] at hylive
    exact h.livePk x hx y hy hpk hxlive hylive

lemma Sound.bitsAdded {seg' : Segment} {added : ℕ → Prop} (h : seg.Sound docs log)
    (hbits : BitsAdded added seg seg') (hadded : ∀ i, added i → ∃ x ∈ log, (docs x).docId = i) :
    seg'.Sound docs log where
  toRepresents := hbits.represents h.toRepresents hadded
  toIds := hbits.ids h.toIds
  start := by rw [hbits.generator_eq, hbits.numTotalDocs_eq, h.start]
  livePk x hx y hy hpk hxlive hylive := by
    refine h.livePk x hx y hy hpk ?_ ?_
    · exact Bool.eq_false_iff.mpr fun hdel =>
        Bool.eq_false_iff.mp hxlive (hbits.isDeleted_iff.mpr (.inl hdel))
    · exact Bool.eq_false_iff.mpr fun hdel =>
        Bool.eq_false_iff.mp hylive (hbits.isDeleted_iff.mpr (.inl hdel))

/-- The deletion bits of the documents a segment already has are not affected by an addition. -/
lemma isDeleted_addDocument (hcheck : (docs d).check = true) (hx : x ≠ d) :
    (seg.addDocument docs d).2.2.isDeleted (docs.setDocId d seg.generator.start) x =
      seg.isDeleted docs x := by
  rw [isDeleted, isDeleted, (addDocument_added docs seg hcheck).deletion,
    DocHeap.setDocId_of_ne docs _ hx]

/-- **Adding a document keeps a segment sound**, if what it held under the key is deleted. -/
lemma Sound.addDocument (h : seg.Sound docs log) (hd : d ∉ log)
    (hcheck : (docs d).check = true) (hroom : seg.generator.start + 1 < 2 ^ 32)
    (hdead : ∀ x ∈ log, (docs x).pk = (docs d).pk → seg.isDeleted docs x = true) :
    (seg.addDocument docs d).2.2.Sound (docs.setDocId d seg.generator.start) (log ++ [d]) := by
  have hadd := addDocument_added docs seg hcheck
  have hdel : ∀ x ∈ log, (seg.addDocument docs d).2.2.isDeleted
      (docs.setDocId d seg.generator.start) x = seg.isDeleted docs x := fun x hx =>
    isDeleted_addDocument hcheck fun he => hd (he ▸ hx)
  refine ⟨h.toRepresents.addDocument hd hcheck, h.toIds.addDocument hd hroom hadd.generator, ?_, ?_⟩
  · rw [hadd.generator, hadd.numTotalDocs, DocidGenerator.incr, Nat.mod_eq_of_lt hroom, h.start]
  · intro x hx y hy hpk hxlive hylive
    simp only [DocHeap.setDocId_pk] at hpk
    rcases List.mem_append.mp hx with hx | hx <;> rcases List.mem_append.mp hy with hy | hy
    · rw [hdel x hx] at hxlive
      rw [hdel y hy] at hylive
      exact h.livePk x hx y hy hpk hxlive hylive
    · rw [List.mem_singleton.mp hy] at hpk
      rw [hdel x hx, hdead x hx hpk] at hxlive
      exact absurd hxlive (by simp)
    · rw [List.mem_singleton.mp hx] at hpk
      rw [hdel y hy, hdead y hy hpk.symm] at hylive
      exact absurd hylive (by simp)
    · rw [List.mem_singleton.mp hx, List.mem_singleton.mp hy]

end Segment

end TsEngine
