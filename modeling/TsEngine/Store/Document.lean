import Mathlib.Data.List.Nodup
import Mathlib.Logic.Function.Basic
import Mathlib.Tactic

/-!
# Documents (`document.h`, `document.c`)

A document is a mutable object shared by pointer: the containers of a segment point at its
`doc_id` field, and `ts_segment_add_document` overwrites that field.  The objects therefore
live in a heap (`DocHeap`) and everything else holds `DocPtr`s.  Primary key and fields never
change after the document has been handed to the engine, which is `DocHeap.setDocId`'s frame
(`DocHeap.setDocId_pk`, `DocHeap.setDocId_fields`).

The field table of a document is a hash table keyed by field name; that no two fields share a
name is a field of `Document`.
-/

namespace TsEngine

/-- A NUL-terminated C string, without the terminator. -/
abbrev CString := List UInt8

/-- The value of a field together with its `enum ts_field_type`. -/
inductive FieldValue
  | string (s : CString)
  | int32 (v : BitVec 32)
  deriving DecidableEq

/-- `ts_field_t`. -/
structure Field where
  name : CString
  value : FieldValue
  indexable : UInt8

/-- `ts_field_indexable`. -/
def Field.isIndexable (f : Field) : Bool := f.indexable == 1

/-- `ts_document_t`. -/
@[ext]
structure Document where
  docId : ℕ
  pk : ℕ
  fields : List Field
  fields_nodup : (fields.map Field.name).Nodup

/-- `ts_document_check`: a primary key and at least one field. -/
def Document.check (d : Document) : Bool := d.pk != 0 && !d.fields.isEmpty

/-- The document has an indexable field named `term`. -/
def Document.hasTerm (d : Document) (term : CString) : Bool :=
  d.fields.any fun f => f.isIndexable && f.name == term

/-- A document with one indexed field, for concrete runs. -/
def sampleDocument (pk : ℕ) : Document where
  docId := 0
  pk := pk
  fields := [⟨[97], .int32 0, 1⟩]
  fields_nodup := List.nodup_singleton _

/-- The address of a document. -/
abbrev DocPtr := ℕ

/-- The document objects. -/
abbrev DocHeap := DocPtr → Document

namespace DocHeap

/-- `doc->doc_id = id`. -/
def setDocId (docs : DocHeap) (d : DocPtr) (id : ℕ) : DocHeap :=
  Function.update docs d { docs d with docId := id }

variable (docs : DocHeap) (d x : DocPtr) (id : ℕ)

@[simp] lemma setDocId_pk : (docs.setDocId d id x).pk = (docs x).pk := by
  unfold setDocId
  by_cases h : x = d
  · subst h; simp
  · simp [h]

@[simp] lemma setDocId_fields : (docs.setDocId d id x).fields = (docs x).fields := by
  unfold setDocId
  by_cases h : x = d
  · subst h; simp
  · simp [h]

@[simp] lemma setDocId_check : (docs.setDocId d id x).check = (docs x).check := by
  simp [Document.check]

@[simp] lemma setDocId_hasTerm (term : CString) :
    (docs.setDocId d id x).hasTerm term = (docs x).hasTerm term := by
  simp [Document.hasTerm]

@[simp] lemma setDocId_self : (docs.setDocId d id d).docId = id := by simp [setDocId]

lemma setDocId_of_ne {d x : DocPtr} (h : x ≠ d) : docs.setDocId d id x = docs x := by
  simp [setDocId, h]

/-- Two heaps hold the same documents if they differ in `doc_id` fields only. -/
def SameDocs (docs docs' : DocHeap) : Prop :=
  ∀ x, (docs' x).pk = (docs x).pk ∧ (docs' x).fields = (docs x).fields

lemma SameDocs.refl : docs.SameDocs docs := fun _ => ⟨rfl, rfl⟩

variable {docs} {docs' docs'' : DocHeap}

lemma SameDocs.trans (h : docs.SameDocs docs') (h' : docs'.SameDocs docs'') :
    docs.SameDocs docs'' := fun x =>
  ⟨(h' x).1.trans (h x).1, (h' x).2.trans (h x).2⟩

lemma SameDocs.setDocId (d : DocPtr) (id : ℕ) : docs.SameDocs (docs.setDocId d id) := fun x =>
  ⟨setDocId_pk docs d x id, setDocId_fields docs d x id⟩

lemma SameDocs.check (h : docs.SameDocs docs') (x : DocPtr) : (docs' x).check = (docs x).check := by
  simp [Document.check, h x]

lemma SameDocs.hasTerm (h : docs.SameDocs docs') (x : DocPtr) (term : CString) :
    (docs' x).hasTerm term = (docs x).hasTerm term := by
  simp [Document.hasTerm, h x]

end DocHeap

end TsEngine
