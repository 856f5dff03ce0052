import TsEngine.Framework.Keyed
import TsEngine.Store.Intersect

/-!
# Segments (`inverted.h`, `inverted.c`, `segment.h`, `segment.c`)

A segment indexes documents twice, by primary key (`pkMapping`) and by term (`docs`), and
records deletions in a bitmap over the ids its generator gave out.  Both indexes are hash tables
keyed by a field of their records and are only ever added to, so they are `Framework.Keyed`
tables in insertion order, which is the order `HASH_ITER` visits.

The functions that read or write a `doc_id` go through the document heap: a container holds
pointers, and `*doc_id` is whatever the document's id is *now*.
-/

namespace TsEngine

open Framework

/-- `SEGMENT_STATE_ACTIVE`. -/
def segmentStateActive : ℕ := 0

/-- `SEGMENT_STATE_VALID`. -/
def segmentStateValid : ℕ := 1

/-! ## The records of the two hash tables -/

/-- `ts_pk_mapping_t`. -/
structure PkMapping where
  pk : ℕ
  docIds : DocidContainer DocPtr

/-- `ts_inverted_t`. -/
structure Inverted where
  term : CString
  docIds : DocidContainer DocPtr
  numTotal : ℕ

/-- A new record of `pk_mapping`. -/
def PkMapping.new (pk : ℕ) : PkMapping := ⟨pk, .init⟩

/-- `ts_docid_container_append(&mp->doc_ids, &doc->doc_id)`. -/
def PkMapping.append (mp : PkMapping) (d : DocPtr) : PkMapping :=
  { mp with docIds := mp.docIds.append d }

/-- `ts_inverted_new`. -/
def Inverted.new (term : CString) : Inverted := ⟨term, .init, 0⟩

/-- `ts_inverted_add_document`. -/
def Inverted.addDocument (inv : Inverted) (d : DocPtr) : Inverted :=
  { inv with docIds := inv.docIds.append d, numTotal := inv.numTotal + 1 }

@[simp] lemma PkMapping.pk_new (pk : ℕ) : (new pk).pk = pk := rfl

lemma PkMapping.pk_append (d : DocPtr) (mp : PkMapping) : (mp.append d).pk = mp.pk := rfl

@[simp] lemma PkMapping.toList_new (pk : ℕ) : (new pk).docIds.toList = [] := rfl

@[simp] lemma PkMapping.toList_append (d : DocPtr) (mp : PkMapping) :
    (mp.append d).docIds.toList = mp.docIds.toList ++ [d] := by
  simp [append]

@[simp] lemma Inverted.term_new (term : CString) : (new term).term = term := rfl

lemma Inverted.term_addDocument (d : DocPtr) (inv : Inverted) :
    (inv.addDocument d).term = inv.term := rfl

@[simp] lemma Inverted.toList_new (term : CString) : (new term).docIds.toList = [] := rfl

@[simp] lemma Inverted.toList_addDocument (d : DocPtr) (inv : Inverted) :
    (inv.addDocument d).docIds.toList = inv.docIds.toList ++ [d] := by
  simp [addDocument]

@[simp] lemma Inverted.numTotal_addDocument (d : DocPtr) (inv : Inverted) :
    (inv.addDocument d).numTotal = inv.numTotal + 1 := rfl

/-! ## The segment -/

/-- `struct _ts_segment`; the list links are the engine's. -/
structure Segment where
  docs : List Inverted
  pkMapping : List PkMapping
  deletion : Bitmap
  generator : DocidGenerator
  processes : ℕ
  numTotalDocs : ℕ
  numTotalDeleted : ℕ
  numTotalInverted : ℕ
  state : ℕ

namespace Segment

/-- `ts_segment_new`. -/
def new : Segment where
  docs := []
  pkMapping := []
  deletion := .init
  generator := .init
  processes := 0
  numTotalDocs := 0
  numTotalDeleted := 0
  numTotalInverted := 0
  state := segmentStateActive

/-- What `HASH_ITER` over `pk_mapping` with `ts_docid_foreach` inside visits, in order. -/
def docPtrs (seg : Segment) : List DocPtr := seg.pkMapping.flatMap fun mp => mp.docIds.toList

/-- The documents listed under `pk`. -/
def entries (seg : Segment) (pk : ℕ) : List DocPtr :=
  ((Keyed.find PkMapping.pk seg.pkMapping pk).map fun mp => mp.docIds.toList).getD []

/-- The posting list of `term`. -/
def posting (seg : Segment) (term : CString) : List DocPtr :=
  ((Keyed.find Inverted.term seg.docs term).map fun inv => inv.docIds.toList).getD []

/-- The deletion bit of a document, at its current `doc_id`. -/
def isDeleted (seg : Segment) (docs : DocHeap) (x : DocPtr) : Bool :=
  seg.deletion.get (docs x).docId

/-! ### Adding a document -/

/-- `ts_inverted_get_or_new`. -/
def invertedGetOrNew (seg : Segment) (term : CString) : Segment :=
  { seg with
    docs := Keyed.findOrAdd Inverted.term seg.docs term (.new term)
    numTotalInverted :=
      match Keyed.find Inverted.term seg.docs term with
      | some _ => seg.numTotalInverted
      | none => seg.numTotalInverted + 1 }

/-- `ts_pk_mapping_get_or_new`. -/
def pkMappingGetOrNew (seg : Segment) (pk : ℕ) : Segment :=
  { seg with pkMapping := Keyed.findOrAdd PkMapping.pk seg.pkMapping pk (.new pk) }

/-- The body of the `HASH_ITER` over the fields in `ts_segment_add_document`. -/
def indexField (d : DocPtr) (seg : Segment) (field : Field) : Segment :=
  if field.isIndexable then
    let seg := seg.invertedGetOrNew field.name
    { seg with docs := Keyed.update Inverted.term seg.docs field.name (·.addDocument d) }
  else seg

/-- `ts_segment_add_document`.  The id is taken and stored before the document is checked. -/
def addDocument (docs : DocHeap) (seg : Segment) (d : DocPtr) : ℤ × DocHeap × Segment :=
  let docs := docs.setDocId d seg.generator.incr.1
  let seg := { seg with generator := seg.generator.incr.2 }
  if !(docs d).check then (-1, docs, seg)
  else
    let seg := (docs d).fields.foldl (indexField d) seg
    let seg := seg.pkMappingGetOrNew (docs d).pk
    let seg :=
      { seg with
        pkMapping := Keyed.update PkMapping.pk seg.pkMapping (docs d).pk (·.append d)
        numTotalDocs := seg.numTotalDocs + 1 }
    (0, docs, seg)

/-! ### Removing a primary key -/

/-- The body of the loop of `ts_segment_remove_document`. -/
def deleteId (seg : Segment) (id : ℕ) : Segment :=
  if seg.deletion.get id then seg
  else { seg with deletion := seg.deletion.set id, numTotalDeleted := seg.numTotalDeleted + 1 }

/-- `ts_segment_remove_document`; its callers guarantee `assert(pk != 0)`. -/
def removeDocument (docs : DocHeap) (seg : Segment) (pk : ℕ) : ℤ × Segment :=
  match Keyed.find PkMapping.pk seg.pkMapping pk with
  | none => (-1, seg)
  | some mp => (0, mp.docIds.toList.foldl (fun seg x => seg.deleteId (docs x).docId) seg)

/-! ### Lookup -/

/-- The double loop of `ts_segment_lookup` for an empty term list, which leaves both loops at
`goto end`. -/
def walkUpTo (docs : DocHeap) (deletion : Bitmap) (limit : ℕ) :
    List DocPtr → ℕ → DocidContainer DocPtr → DocidContainer DocPtr
  | [], _, ctn => ctn
  | x :: xs, count, ctn =>
      if limit ≤ count then ctn
      else if deletion.get (docs x).docId then walkUpTo docs deletion limit xs count ctn
      else walkUpTo docs deletion limit xs (count + 1) (ctn.append x)

/-- The loop that collects `ids_list`; `none` when it stops with `end = 1`. -/
def collectIds (seg : Segment) : List CString → Option (List Inverted)
  | [] => some []
  | term :: terms =>
      match Keyed.find Inverted.term seg.docs term with
      | none => none
      | some inv =>
          if inv.docIds.total = 0 then none
          else (seg.collectIds terms).map fun idsList => inv :: idsList

/-- `ts_segment_lookup`: the return value, the container and `*total`, from what the last two
held before the call.  The result is `none` only where the code would read a null id. -/
def lookup (docs : DocHeap) (seg : Segment) (terms : List CString) (limit : ℕ)
    (ctn : DocidContainer DocPtr) (total : ℕ) : Option (ℤ × DocidContainer DocPtr × ℕ) :=
  if limit < 1 then some (-1, ctn, total)
  else if seg.numTotalDocs = 0 then some (0, ctn, total)
  else if seg.numTotalDocs = seg.numTotalDeleted then some (0, ctn, total)
  else
    let deletion := seg.deletion.clone
    match terms with
    | [] =>
        some (0, walkUpTo docs deletion limit seg.docPtrs 0 ctn,
          (seg.numTotalDocs - seg.numTotalDeleted) % 2 ^ 32)
    | _ :: _ =>
        match seg.collectIds terms with
        | none => some (0, ctn, 0)
        | some [inv] =>
            -- the bitmap is not consulted on this path
            some (0, copyUpTo limit inv.docIds.toList 0 ctn, inv.numTotal % 2 ^ 32)
        | some idsList =>
            (seekIntersect (fun x => (docs x).docId) deletion (idsList.map Inverted.docIds) ctn
              limit total).map fun r => (0, r.1, r.2)

end Segment

end TsEngine
