import TsEngine.Store.RecordTables
import TsEngine.Store.SegmentRuns

/-!
# Segments on hash tables

`Segment` has lists for its two hash tables.  Here is a segment with the tables themselves: buckets,
chains and records at addresses, as `ts_segment_add_document`, `ts_segment_remove_document` and
`ts_segment_lookup` use them by the uthash macros.  The main result
`HashedSegment.segment_refines_lists` is that such a segment and the one with lists return the same,
and go through corresponding states, in every run.
-/

namespace TsEngine

open Framework

/-- What the tables depend on: how many elements a walk may meet, how large a block `malloc` gives
out, and the hash function, on the bytes of a term and of a primary key. -/
structure TableEnv where
  n : ℕ
  mem : ℕ
  hashTerm : CString → UInt32
  hashPk : ℕ → UInt32

/-- `struct _ts_segment`, with its tables. -/
structure HashedSegment where
  docs : RecordTable Inverted CString
  pkMapping : RecordTable PkMapping ℕ
  deletion : Bitmap
  generator : DocidGenerator
  processes : ℕ
  numTotalDocs : ℕ
  numTotalDeleted : ℕ
  numTotalInverted : ℕ
  state : ℕ

namespace HashedSegment

/-- `ts_segment_new`, with what is in the handles of records before they are used. -/
def new (termHandles : UtHashHandles ℕ CString) (pkHandles : UtHashHandles ℕ ℕ) :
    HashedSegment where
  docs := .empty termHandles
  pkMapping := .empty pkHandles
  deletion := .init
  generator := .init
  processes := 0
  numTotalDocs := 0
  numTotalDeleted := 0
  numTotalInverted := 0
  state := segmentStateActive

variable (env : TableEnv)

/-- `ts_inverted_get_or_new`. -/
def invertedGetOrNew (s : HashedSegment) (term : CString) :
    Except UthashError (ℕ × HashedSegment) := do
  let (p, isNew, docs) ← s.docs.getOrNew env.n env.mem env.hashTerm term (.new term)
  return (p, { s with
    docs := docs
    numTotalInverted := if isNew then s.numTotalInverted + 1 else s.numTotalInverted })

/-- `ts_pk_mapping_get_or_new`. -/
def pkMappingGetOrNew (s : HashedSegment) (pk : ℕ) : Except UthashError (ℕ × HashedSegment) := do
  let (p, _, pkMapping) ← s.pkMapping.getOrNew env.n env.mem env.hashPk pk (.new pk)
  return (p, { s with pkMapping := pkMapping })

/-- The body of the `HASH_ITER` over the fields in `ts_segment_add_document`. -/
def indexField (d : DocPtr) (s : HashedSegment) (field : Field) :
    Except UthashError HashedSegment := do
  if field.isIndexable then
    let (p, s) ← s.invertedGetOrNew env field.name
    let docs ← s.docs.modify p (·.addDocument d)
    return { s with docs := docs }
  else return s

/-- `ts_segment_add_document`. -/
def addDocument (docs : DocHeap) (s : HashedSegment) (d : DocPtr) :
    Except UthashError (ℤ × DocHeap × HashedSegment) := do
  let docs := docs.setDocId d s.generator.incr.1
  let s := { s with generator := s.generator.incr.2 }
  if !(docs d).check then return (-1, docs, s)
  else
    let s ← (docs d).fields.foldlM (indexField env d) s
    let (p, s) ← s.pkMappingGetOrNew env (docs d).pk
    let pkMapping ← s.pkMapping.modify p (·.append d)
    return (0, docs, { s with pkMapping := pkMapping, numTotalDocs := s.numTotalDocs + 1 })

/-- The body of the loop of `ts_segment_remove_document`. -/
def deleteId (s : HashedSegment) (id : ℕ) : HashedSegment :=
  if s.deletion.get id then s
  else { s with deletion := s.deletion.set id, numTotalDeleted := s.numTotalDeleted + 1 }

/-- `ts_segment_remove_document`; its callers guarantee `assert(pk != 0)`. -/
def removeDocument (docs : DocHeap) (s : HashedSegment) (pk : ℕ) :
    Except UthashError (ℤ × HashedSegment) := do
  match ← s.pkMapping.find env.n env.hashPk pk with
  | none => return (-1, s)
  | some p =>
      let mp ← s.pkMapping.load p
      return (0, mp.docIds.toList.foldl (fun s x => s.deleteId (docs x).docId) s)

/-- The loop that collects `ids_list`; `none` when it stops with `end = 1`. -/
def collectIds (s : HashedSegment) : List CString → Except UthashError (Option (List Inverted))
  | [] => return some []
  | term :: terms => do
      match ← s.docs.find env.n env.hashTerm term with
      | none => return none
      | some p =>
          let inv ← s.docs.load p
          if inv.docIds.total = 0 then return none
          else return (← s.collectIds terms).map fun idsList => inv :: idsList

/-- `ts_segment_lookup`. -/
def lookup (docs : DocHeap) (s : HashedSegment) (terms : List CString) (limit : ℕ)
    (ctn : DocidContainer DocPtr) (total : ℕ) :
    Except UthashError (Option (ℤ × DocidContainer DocPtr × ℕ)) := do
  if limit < 1 then return some (-1, ctn, total)
  else if s.numTotalDocs = 0 then return some (0, ctn, total)
  else if s.numTotalDocs = s.numTotalDeleted then return some (0, ctn, total)
  else
    let deletion := s.deletion.clone
    match terms with
    | [] =>
        let mps ← s.pkMapping.walk env.n
        return some (0, Segment.walkUpTo docs deletion limit
          (mps.flatMap fun mp => mp.docIds.toList) 0 ctn,
          (s.numTotalDocs - s.numTotalDeleted) % 2 ^ 32)
    | _ :: _ =>
        match ← s.collectIds env terms with
        | none => return some (0, ctn, 0)
        | some [inv] => return some (0, copyUpTo limit inv.docIds.toList 0 ctn,
            inv.numTotal % 2 ^ 32)
        | some idsList =>
            return (seekIntersect (fun x => (docs x).docId) deletion
              (idsList.map Inverted.docIds) ctn limit total).map fun r => (0, r.1, r.2)

/-! ## The refinement -/

/-- The tables hold the records of the lists, and the other fields are equal. -/
structure Refines (s : HashedSegment) (seg : Segment) : Prop where
  docs : ∃ ps, RecordTable.Holds env.hashTerm Inverted.term s.docs ps ∧
    ps.map Prod.snd = seg.docs
  pkMapping : ∃ ps, RecordTable.Holds env.hashPk PkMapping.pk s.pkMapping ps ∧
    ps.map Prod.snd = seg.pkMapping
  deletion : s.deletion = seg.deletion
  generator : s.generator = seg.generator
  processes : s.processes = seg.processes
  numTotalDocs : s.numTotalDocs = seg.numTotalDocs
  numTotalDeleted : s.numTotalDeleted = seg.numTotalDeleted
  numTotalInverted : s.numTotalInverted = seg.numTotalInverted
  state : s.state = seg.state

variable {env} {s : HashedSegment} {seg : Segment} {docs : DocHeap} {d : DocPtr}

lemma refines_new (termHandles : UtHashHandles ℕ CString) (pkHandles : UtHashHandles ℕ ℕ) :
    (new termHandles pkHandles).Refines env .new :=
  ⟨⟨[], RecordTable.holds_empty termHandles, rfl⟩, ⟨[], RecordTable.holds_empty pkHandles, rfl⟩,
    rfl, rfl, rfl, rfl, rfl, rfl, rfl⟩

/-! ### Adding a document -/

lemma Refines.indexField (h : s.Refines env seg) (hmem : env.mem < 2 ^ 36)
    (hn : seg.docs.length + 1 ≤ env.n) (field : Field) :
    s.indexField env d field = .error .outOfMemory ∨
      ∃ s', s.indexField env d field = .ok s' ∧ s'.Refines env (seg.indexField d field) ∧
        (seg.indexField d field).docs.length ≤ seg.docs.length + 1 ∧
        (seg.indexField d field).pkMapping = seg.pkMapping := by
  rw [HashedSegment.indexField, Segment.indexField]
  split_ifs with hindexable
  · obtain ⟨ps, hps, hdocs⟩ := h.docs
    have hlen : ps.length = seg.docs.length := by rw [← hdocs, List.length_map]
    rcases hps.getOrNew (k := field.name) hmem (hlen ▸ hn) (Inverted.term_new _) with
      herr | ⟨p, docs', ps', hget, hps', hrecords, ⟨x, hx, hkey⟩, hlen'⟩
    · exact .inl (by simp only [invertedGetOrNew, bind, Except.bind, herr])
    · obtain ⟨docs'', ps'', hmodify, hps'', hrecords', hlen''⟩ :=
        hps'.modify (Inverted.term_addDocument d) hx hkey
      refine .inr ⟨{ s with
          docs := docs''
          numTotalInverted :=
            if (Keyed.find Inverted.term (ps.map Prod.snd) field.name).isNone then
              s.numTotalInverted + 1
            else s.numTotalInverted },
        by simp only [invertedGetOrNew, bind, Except.bind, hget, pure, Except.pure, hmodify],
        ⟨⟨ps'', hps'', ?_⟩, h.pkMapping, h.deletion, h.generator, h.processes,
          h.numTotalDocs, h.numTotalDeleted, ?_, h.state⟩, ?_, rfl⟩
      · rw [hrecords', hrecords, hdocs]
        rfl
      · show (if (Keyed.find Inverted.term (ps.map Prod.snd) field.name).isNone then _ else _) = _
        rw [hdocs, h.numTotalInverted, Segment.invertedGetOrNew]
        cases Keyed.find Inverted.term seg.docs field.name <;> rfl
      · show (Keyed.update Inverted.term (Keyed.findOrAdd _ seg.docs _ _) _ _).length ≤ _
        rw [← hdocs, ← hrecords, ← hrecords', List.length_map, List.length_map]
        omega
  · exact .inr ⟨s, rfl, h, by omega, rfl⟩

lemma Refines.indexFields (h : s.Refines env seg) (hmem : env.mem < 2 ^ 36) (fields : List Field)
    (hn : seg.docs.length + fields.length ≤ env.n) :
    fields.foldlM (HashedSegment.indexField env d) s = .error .outOfMemory ∨
      ∃ s', fields.foldlM (HashedSegment.indexField env d) s = .ok s' ∧
        s'.Refines env (fields.foldl (Segment.indexField d) seg) ∧
        (fields.foldl (Segment.indexField d) seg).docs.length ≤
          seg.docs.length + fields.length ∧
        (fields.foldl (Segment.indexField d) seg).pkMapping = seg.pkMapping := by
  induction fields generalizing s seg with
  | nil => exact .inr ⟨s, rfl, h, by simp, rfl⟩
  | cons field fields ih =>
      rw [List.length_cons] at hn
      rw [List.foldlM_cons, List.foldl_cons, List.length_cons]
      rcases h.indexField (d := d) hmem (by omega) field with
        herr | ⟨s₁, hs₁, h₁, hlen₁, hpk₁⟩
      · exact .inl (by rw [herr]; rfl)
      · rcases ih h₁ (by omega) with herr | ⟨s₂, hs₂, h₂, hlen₂, hpk₂⟩
        · exact .inl (by rw [hs₁]; exact herr)
        · exact .inr ⟨s₂, by rw [hs₁]; exact hs₂, h₂, by omega, hpk₂.trans hpk₁⟩

/-- **`ts_segment_add_document`** on tables does what it does on lists. -/
lemma Refines.addDocument (h : s.Refines env seg) (hmem : env.mem < 2 ^ 36) (docs : DocHeap)
    (hdocs : seg.docs.length + (docs d).fields.length ≤ env.n)
    (hpk : seg.pkMapping.length + 1 ≤ env.n) :
    s.addDocument env docs d = .error .outOfMemory ∨
      ∃ s', s.addDocument env docs d =
          .ok ((seg.addDocument docs d).1, (seg.addDocument docs d).2.1, s') ∧
        s'.Refines env (seg.addDocument docs d).2.2 ∧
        (seg.addDocument docs d).2.2.docs.length ≤
          seg.docs.length + (docs d).fields.length ∧
        (seg.addDocument docs d).2.2.pkMapping.length ≤ seg.pkMapping.length + 1 := by
  rw [HashedSegment.addDocument, Segment.addDocument, h.generator]
  set docs' := docs.setDocId d seg.generator.incr.1 with hdocs'
  have hfields : (docs' d).fields = (docs d).fields := DocHeap.setDocId_fields docs d d _
  have h₀ : Refines env { s with generator := seg.generator.incr.2 }
      { seg with generator := seg.generator.incr.2 } :=
    ⟨h.docs, h.pkMapping, h.deletion, rfl, h.processes, h.numTotalDocs, h.numTotalDeleted,
      h.numTotalInverted, h.state⟩
  by_cases hcheck : (docs' d).check
  · simp only [hcheck, Bool.not_true, Bool.false_eq_true, if_false]
    rcases h₀.indexFields (d := d) hmem (docs' d).fields (by rw [hfields]; exact hdocs)
      with herr | ⟨s₁, hs₁, h₁, hlen₁, hpk₁⟩
    · exact .inl (by rw [herr]; rfl)
    · obtain ⟨ps, hps, hrecords⟩ := h₁.pkMapping
      have hlen : ps.length = seg.pkMapping.length := by
        rw [← List.length_map (f := Prod.snd), hrecords, hpk₁]
      rcases hps.getOrNew (k := (docs' d).pk) hmem (hlen ▸ hpk) (PkMapping.pk_new _) with
        herr | ⟨p, maps, ps', hget, hps', hrecords', ⟨x, hx, hkey⟩, hlen'⟩
      · exact .inl (by
          rw [hs₁]
          simp only [pkMappingGetOrNew, bind, Except.bind, herr])
      · obtain ⟨maps', ps'', hmodify, hps'', hrecords'', hlen''⟩ :=
          hps'.modify (PkMapping.pk_append d) hx hkey
        refine .inr ⟨{ s₁ with pkMapping := maps', numTotalDocs := s₁.numTotalDocs + 1 }, ?_,
          ⟨h₁.docs, ⟨ps'', hps'', ?_⟩, h₁.deletion, h₁.generator, h₁.processes, ?_,
            h₁.numTotalDeleted, h₁.numTotalInverted, h₁.state⟩, ?_, ?_⟩
        · rw [hs₁]
          simp only [pkMappingGetOrNew, bind, Except.bind, hget, hmodify, pure, Except.pure]
        · rw [hrecords'', hrecords', hrecords]
          rfl
        · exact congrArg (· + 1) h₁.numTotalDocs
        · rw [← hfields]
          exact hlen₁
        · show (Keyed.update PkMapping.pk (Keyed.findOrAdd _ _ _ _) _ _).length ≤ _
          rw [← hrecords, ← hrecords', ← hrecords'', List.length_map]
          omega
  · simp only [hcheck, Bool.not_false, if_true]
    exact .inr ⟨_, rfl, h₀, by simp, by simp⟩

/-! ### Removing a primary key -/

lemma Refines.deleteIds (h : s.Refines env seg) (docs : DocHeap) (xs : List DocPtr) :
    (xs.foldl (fun s x => s.deleteId (docs x).docId) s).Refines env
      (xs.foldl (fun seg x => seg.deleteId (docs x).docId) seg) ∧
      (xs.foldl (fun seg x => seg.deleteId (docs x).docId) seg).docs = seg.docs ∧
      (xs.foldl (fun seg x => seg.deleteId (docs x).docId) seg).pkMapping = seg.pkMapping := by
  induction xs generalizing s seg with
  | nil => exact ⟨h, rfl, rfl⟩
  | cons x xs ih =>
      have hstep : (s.deleteId (docs x).docId).Refines env (seg.deleteId (docs x).docId) ∧
          (seg.deleteId (docs x).docId).docs = seg.docs ∧
          (seg.deleteId (docs x).docId).pkMapping = seg.pkMapping := by
        rw [deleteId, Segment.deleteId, h.deletion]
        split_ifs
        · exact ⟨h, rfl, rfl⟩
        · exact ⟨⟨h.docs, h.pkMapping, rfl, h.generator, h.processes, h.numTotalDocs,
            congrArg (· + 1) h.numTotalDeleted, h.numTotalInverted, h.state⟩, rfl, rfl⟩
      obtain ⟨hrest, hdocs, hpk⟩ := ih hstep.1
      exact ⟨hrest, hdocs.trans hstep.2.1, hpk.trans hstep.2.2⟩

/-- **`ts_segment_remove_document`** on tables does what it does on lists. -/
lemma Refines.removeDocument (h : s.Refines env seg) (hn : seg.pkMapping.length ≤ env.n)
    (docs : DocHeap) (pk : ℕ) :
    ∃ s', s.removeDocument env docs pk = .ok ((seg.removeDocument docs pk).1, s') ∧
      s'.Refines env (seg.removeDocument docs pk).2 ∧
      (seg.removeDocument docs pk).2.docs = seg.docs ∧
      (seg.removeDocument docs pk).2.pkMapping = seg.pkMapping := by
  obtain ⟨ps, hps, hrecords⟩ := h.pkMapping
  have hlen : ps.length = seg.pkMapping.length := by rw [← hrecords, List.length_map]
  rw [HashedSegment.removeDocument, Segment.removeDocument, hps.find_eq (hlen ▸ hn), ← hrecords,
    RecordTable.keyed_find]
  cases hfind : ps.find? fun p => p.2.pk = pk with
  | none => exact ⟨s, rfl, h, rfl, hrecords.symm⟩
  | some q =>
      obtain ⟨hrest, hdocs, hpk⟩ := h.deleteIds docs q.2.docIds.toList
      refine ⟨_, ?_, hrest, hdocs, hpk.trans hrecords.symm⟩
      simp only [Option.map_some, bind, Except.bind, hps.load_eq (List.mem_of_find?_eq_some hfind)]
      rfl

/-! ### Lookup -/

lemma Refines.collectIds (h : s.Refines env seg) (hn : seg.docs.length ≤ env.n)
    (terms : List CString) : s.collectIds env terms = .ok (seg.collectIds terms) := by
  obtain ⟨ps, hps, hrecords⟩ := h.docs
  have hlen : ps.length = seg.docs.length := by rw [← hrecords, List.length_map]
  induction terms with
  | nil => rfl
  | cons term terms ih =>
      rw [HashedSegment.collectIds, Segment.collectIds, hps.find_eq (hlen ▸ hn), ← hrecords,
        RecordTable.keyed_find]
      cases hfind : ps.find? fun p => p.2.term = term with
      | none => rfl
      | some q =>
          simp only [Option.map_some, bind, Except.bind,
            hps.load_eq (List.mem_of_find?_eq_some hfind), ih]
          split_ifs <;> rfl

/-- **`ts_segment_lookup`** on tables does what it does on lists. -/
lemma Refines.lookup (h : s.Refines env seg) (hdocs : seg.docs.length ≤ env.n)
    (hpk : seg.pkMapping.length ≤ env.n) (terms : List CString) (limit : ℕ)
    (ctn : DocidContainer DocPtr) (total : ℕ) :
    s.lookup env docs terms limit ctn total = .ok (seg.lookup docs terms limit ctn total) := by
  rw [HashedSegment.lookup, Segment.lookup, h.numTotalDocs, h.numTotalDeleted, h.deletion]
  split_ifs
  · rfl
  · rfl
  · rfl
  · cases terms with
    | nil =>
        obtain ⟨ps, hps, hrecords⟩ := h.pkMapping
        have hlen : ps.length = seg.pkMapping.length := by rw [← hrecords, List.length_map]
        simp only [hps.walk_eq (hlen ▸ hpk), bind, Except.bind, hrecords]
        rfl
    | cons term terms =>
        simp only [h.collectIds hdocs, bind, Except.bind]
        cases seg.collectIds (term :: terms) with
        | none => rfl
        | some idsList =>
            obtain _ | ⟨inv, _ | ⟨inv', idsList⟩⟩ := idsList
            · rfl
            · rfl
            · rfl

end HashedSegment

/-! ## Runs -/

/-- The operations on a segment with tables, as a system. -/
def hashedSegmentSystem (env : TableEnv) (heap : DocHeap)
    (termHandles : UtHashHandles ℕ CString) (pkHandles : UtHashHandles ℕ ℕ) :
    System (DocHeap × HashedSegment) SegmentOp UthashError where
  init := (heap, .new termHandles pkHandles)
  enabled hist _ op :=
    match op with
    | .add d => .add d ∉ hist.map Prod.snd
    | .remove pk => pk ≠ 0
  exec op s :=
    match op with
    | .add d => (s.2.addDocument env s.1 d).map Prod.snd
    | .remove pk => (s.2.removeDocument env s.1 pk).map fun r => (s.1, r.2)

instance (env : TableEnv) (heap : DocHeap) (termHandles : UtHashHandles ℕ CString)
    (pkHandles : UtHashHandles ℕ ℕ) (l : List ((DocHeap × HashedSegment) × SegmentOp))
    (s : DocHeap × HashedSegment) (op : SegmentOp) :
    Decidable ((hashedSegmentSystem env heap termHandles pkHandles).enabled l s op) :=
  match op with
  | .add d => inferInstanceAs (Decidable (SegmentOp.add d ∉ l.map Prod.snd))
  | .remove pk => inferInstanceAs (Decidable (pk ≠ 0))

/-- How many records an operation may add to a table. -/
def SegmentOp.room (heap : DocHeap) : SegmentOp → ℕ
  | .add d => (heap d).fields.length + 1
  | .remove _ => 0

namespace HashedSegment

variable {env : TableEnv} {heap : DocHeap} {termHandles : UtHashHandles ℕ CString}
  {pkHandles : UtHashHandles ℕ ℕ}

/-- What a run on tables has to do with one on lists: the same operations lead there, and the
documents have the same fields as at first. -/
structure Matches (env : TableEnv) (heap : DocHeap)
    (l : List ((DocHeap × HashedSegment) × SegmentOp)) (s : DocHeap × HashedSegment)
    (l' : List ((DocHeap × Segment) × SegmentOp)) (seg : Segment) : Prop where
  run : (segmentSystem heap).Run l' (s.1, seg)
  ops : l'.map Prod.snd = l.map Prod.snd
  refines : s.2.Refines env seg
  sameDocs : heap.SameDocs s.1
  docs : seg.docs.length ≤ (l.map fun q => q.2.room heap).sum
  pkMapping : seg.pkMapping.length ≤ (l.map fun q => q.2.room heap).sum

/-- **One more operation** on both sides. -/
lemma Matches.step (termHandles : UtHashHandles ℕ CString) (pkHandles : UtHashHandles ℕ ℕ)
    {l : List ((DocHeap × HashedSegment) × SegmentOp)} {s : DocHeap × HashedSegment}
    {l' : List ((DocHeap × Segment) × SegmentOp)} {seg : Segment} {op : SegmentOp}
    (h : Matches env heap l s l' seg) (hmem : env.mem < 2 ^ 36)
    (hn : ((op :: l.map Prod.snd).map (SegmentOp.room heap)).sum ≤ env.n)
    (hen : (hashedSegmentSystem env heap termHandles pkHandles).enabled l s op) :
    (∃ d, op = .add d) ∧
        (hashedSegmentSystem env heap termHandles pkHandles).exec op s = .error .outOfMemory ∨
      ∃ s' l'' seg', (hashedSegmentSystem env heap termHandles pkHandles).exec op s = .ok s' ∧
        Matches env heap ((s, op) :: l) s' l'' seg' := by
  obtain ⟨hrun, hops, hrefines, hsame, hdocs, hpk⟩ := h
  have hsum : ((l.map Prod.snd).map (SegmentOp.room heap)).sum =
      (l.map fun q => q.2.room heap).sum := by
    rw [List.map_map]
    rfl
  rw [List.map_cons, List.sum_cons, hsum] at hn
  cases op with
  | add d =>
      have hfields : (s.1 d).fields = (heap d).fields := (hsame d).2
      have hen' : (segmentSystem heap).enabled l' (s.1, seg) (.add d) := by
        show SegmentOp.add d ∉ l'.map Prod.snd
        rw [hops]
        exact hen
      rw [SegmentOp.room] at hn
      rcases hrefines.addDocument (d := d) hmem s.1 (by rw [hfields]; omega) (by omega)
        with herr | ⟨s', hs', hrefines', hdocs', hpk'⟩
      · refine .inl ⟨⟨d, rfl⟩, ?_⟩
        show (s.2.addDocument env s.1 d).map Prod.snd = _
        rw [herr]
        rfl
      · refine .inr ⟨((seg.addDocument s.1 d).2.1, s'), _, (seg.addDocument s.1 d).2.2, ?_,
          ⟨hrun.step hen' rfl, ?_, hrefines', hsame.trans ?_, ?_, ?_⟩⟩
        · show (s.2.addDocument env s.1 d).map Prod.snd = _
          rw [hs']
          rfl
        · rw [List.map_cons, List.map_cons, hops]
        · rw [Segment.addDocument]
          split_ifs <;> exact .setDocId d _
        · rw [List.map_cons, List.sum_cons, SegmentOp.room]
          rw [hfields] at hdocs'
          omega
        · rw [List.map_cons, List.sum_cons, SegmentOp.room]
          omega
  | remove pk =>
      rw [SegmentOp.room] at hn
      obtain ⟨s', hs', hrefines', hdocs', hpk'⟩ :=
        hrefines.removeDocument (by omega) s.1 pk
      have hen' : (segmentSystem heap).enabled l' (s.1, seg) (.remove pk) := hen
      refine .inr ⟨(s.1, s'), _, (seg.removeDocument s.1 pk).2, ?_,
        ⟨hrun.step hen' rfl, ?_, hrefines', hsame, ?_, ?_⟩⟩
      · show (s.2.removeDocument env s.1 pk).map (fun r => (s.1, r.2)) = _
        rw [hs']
        rfl
      · rw [List.map_cons, List.map_cons, hops]
      · rw [List.map_cons, List.sum_cons, SegmentOp.room, hdocs']
        omega
      · rw [List.map_cons, List.sum_cons, SegmentOp.room, hpk']
        omega

lemma exists_matches (hmem : env.mem < 2 ^ 36)
    {l : List ((DocHeap × HashedSegment) × SegmentOp)} {s : DocHeap × HashedSegment}
    (hrun : (hashedSegmentSystem env heap termHandles pkHandles).Run l s)
    (hn : (l.map fun q => q.2.room heap).sum ≤ env.n) :
    ∃ l' seg, Matches env heap l s l' seg := by
  refine System.Run.invariant (fun l s => (l.map fun q => q.2.room heap).sum ≤ env.n →
    ∃ l' seg, Matches env heap l s l' seg) (fun _ => ⟨[], .new, .nil, rfl,
      refines_new termHandles pkHandles, .refl heap, Nat.zero_le _, Nat.zero_le _⟩) ?_ hrun hn
  intro l s op s' _ ih hen hexec hn
  have hn' := hn
  rw [List.map_cons, List.sum_cons] at hn
  obtain ⟨l', seg, h⟩ := ih (by omega)
  rcases h.step termHandles pkHandles hmem
      (by simpa [Function.comp_def] using hn') hen with
    ⟨-, herr⟩ | ⟨s'', l'', seg', hs'', h'⟩
  · exact absurd (herr.symm.trans hexec) (by simp)
  · obtain rfl : s'' = s' := Except.ok.inj (hs''.symm.trans hexec)
    exact ⟨l'', seg', h'⟩

/-- **A segment on hash tables is the segment on lists.**  Whatever the hash functions, after every
run on tables there is a run of the same operations on lists, to a segment whose lists are the
records of the tables.  Lookups of the two return the same, and so do the next addition and the next
removal, unless there is no memory for the addition; no pointer is followed that does not lead
anywhere.  `hmem` says that `malloc` gives out no block of 64 GiB, so that the number of buckets of
a table does not wrap, and `hn` that a walk may meet as many records as the operations can have
made. -/
theorem segment_refines_lists (hmem : env.mem < 2 ^ 36)
    {l : List ((DocHeap × HashedSegment) × SegmentOp)} {s : DocHeap × HashedSegment}
    (hrun : (hashedSegmentSystem env heap termHandles pkHandles).Run l s)
    (hn : (l.map fun q => q.2.room heap).sum ≤ env.n) :
    ∃ l' seg, (segmentSystem heap).Run l' (s.1, seg) ∧ l'.map Prod.snd = l.map Prod.snd ∧
      s.2.Refines env seg ∧
      (∀ terms limit ctn total, s.2.lookup env s.1 terms limit ctn total =
        .ok (seg.lookup s.1 terms limit ctn total)) ∧
      (∀ d, (l.map fun q => q.2.room heap).sum + SegmentOp.room heap (.add d) ≤ env.n →
        s.2.addDocument env s.1 d = .error .outOfMemory ∨ ∃ s', s.2.addDocument env s.1 d =
          .ok ((seg.addDocument s.1 d).1, (seg.addDocument s.1 d).2.1, s')) ∧
      ∀ pk, ∃ s', s.2.removeDocument env s.1 pk = .ok ((seg.removeDocument s.1 pk).1, s') := by
  obtain ⟨l', seg, hrun', hops, hrefines, hsame, hdocs, hpk⟩ := exists_matches hmem hrun hn
  refine ⟨l', seg, hrun', hops, hrefines, fun terms limit ctn total =>
    hrefines.lookup (hdocs.trans hn) (hpk.trans hn) terms limit ctn total, fun d hd => ?_,
    fun pk => ?_⟩
  · have hfields : (s.1 d).fields = (heap d).fields := (hsame d).2
    rw [SegmentOp.room] at hd
    rcases hrefines.addDocument (d := d) hmem s.1 (by rw [hfields]; omega) (by omega)
      with herr | ⟨s', hs', -⟩
    · exact .inl herr
    · exact .inr ⟨s', hs'⟩
  · obtain ⟨s', hs', -⟩ := hrefines.removeDocument (hpk.trans hn) s.1 pk
    exact ⟨s', hs'⟩

/-- The eight bytes of a primary key. -/
def pkBytes (pk : ℕ) : List UInt8 := (List.range 8).map fun i => UInt8.ofNat (pk >>> (8 * i))

/-- Tables with the hash function of the sources. -/
def sampleEnv : TableEnv := ⟨64, 4096, hashJen, fun pk => hashJen (pkBytes pk)⟩

theorem segment_refines_lists_sample : ∃ l s l' seg,
    (hashedSegmentSystem sampleEnv sampleDocument (Uthash.zeroHandles [])
      (Uthash.zeroHandles 0)).Run l s ∧
    (segmentSystem sampleDocument).Run l' (s.1, seg) ∧
    l'.map Prod.snd = [.remove 1, .add 2, .add 1] ∧
    s.2.lookup sampleEnv s.1 [] 10 .init 0 = .ok (seg.lookup s.1 [] 10 .init 0) := by
  obtain ⟨l, s, hrun, hops⟩ := System.exists_run_of_execAll
    (M := hashedSegmentSystem sampleEnv sampleDocument (Uthash.zeroHandles [])
      (Uthash.zeroHandles 0))
    (fun l _ => decide (l.map Prod.snd = [.remove 1, .add 2, .add 1]) &&
      decide ((l.map fun q => q.2.room sampleDocument).sum ≤ sampleEnv.n))
    [.add 1, .add 2, .remove 1] (by decide +kernel)
  obtain ⟨hops, hn⟩ := (Bool.and_eq_true _ _ ▸ hops :)
  obtain ⟨l', seg, hrun', hsame, -, hlookup, -⟩ := segment_refines_lists (by decide) hrun
    (of_decide_eq_true hn)
  exact ⟨l, s, l', seg, hrun, hrun', hsame.trans (of_decide_eq_true hops), hlookup _ _ _ _⟩

end HashedSegment

end TsEngine
