import Mathlib.Data.List.TakeWhile
import TsEngine.Framework.Keyed
import TsEngine.Store.Document

/-!
# The fields of a document

`ts_field_new`, `ts_document_field_add`, `ts_document_field_del` and `ts_document_clone`.  The field
table of a document is a uthash table, and a walk over it visits the fields in the order in which
they were added, so that table is the list `Document.fields`.

A forced add takes the old field of the name out and appends the new one (`fields_fieldAdd_force`).
A document that is built by these functions is equal to its clone (`Document.Built.clone_eq`).
-/

namespace TsEngine

open Framework

/-- `ts_strdup`, or a copy of `strlen + 1` bytes: up to the first NUL. -/
def strdup (s : CString) : CString := s.takeWhile (· ≠ 0)

/-- `ts_field_new`: a copy of the name, and of the value as its type says. -/
def Field.new (name : CString) : FieldValue → Field
  | .string value => ⟨strdup name, .string (strdup value), 0⟩
  | .int32 value => ⟨strdup name, .int32 value, 0⟩

/-- `ts_field_set_indexable`. -/
def Field.setIndexable (f : Field) : Field := { f with indexable := 1 }

namespace Document

/-- `ts_document_new(NULL)`. -/
def new : Document := ⟨0, 0, [], List.nodup_nil⟩

/-- `ts_document_field_del`, and its return value. -/
def fieldDel (d : Document) (name : CString) : Document × ℤ :=
  if name ∈ d.fields.map Field.name then
    ({ d with
      fields := d.fields.eraseP fun f => f.name = name
      fields_nodup := d.fields_nodup.sublist (List.eraseP_sublist.map Field.name) }, 0)
  else (d, -1)

/-- A name occurs once, and is gone when its field is taken out. -/
lemma eraseP_name (d : Document) (name : CString) :
    (d.fields.eraseP fun f => f.name = name) = d.fields.filter fun f => f.name ≠ name := by
  have hnodup := d.fields_nodup
  generalize d.fields = fs at hnodup
  induction fs with
  | nil => rfl
  | cons f fs ih =>
      obtain ⟨hf, hfs⟩ := List.nodup_cons.mp hnodup
      by_cases hname : f.name = name
      · have hrest : (fs.filter fun g => g.name ≠ name) = fs := by
          refine List.filter_eq_self.mpr fun g hg => ?_
          have hne : g.name ≠ name := fun he =>
            hf (List.mem_map.mpr ⟨g, hg, he.trans hname.symm⟩)
          simpa using hne
        rw [List.eraseP_cons_of_pos (by simp [hname]), List.filter_cons_of_neg (by simp [hname]),
          hrest]
      · rw [List.eraseP_cons_of_neg (by simp [hname]), List.filter_cons_of_pos (by simp [hname]),
          ih hfs]

lemma fields_fieldDel (d : Document) (name : CString) :
    (d.fieldDel name).1.fields = d.fields.filter fun f => f.name ≠ name := by
  unfold fieldDel
  split_ifs with h
  · exact d.eraseP_name name
  · refine (List.filter_eq_self.mpr fun f hf => ?_).symm
    have hne : f.name ≠ name := fun he => h (List.mem_map.mpr ⟨f, hf, he⟩)
    simpa using hne

lemma not_mem_fieldDel (d : Document) (name : CString) :
    name ∉ (d.fieldDel name).1.fields.map Field.name := by
  rw [fields_fieldDel]
  simp

/-- `HASH_ADD_STR`, of a field whose name is not in the table. -/
def hashAdd (d : Document) (f : Field) (h : f.name ∉ d.fields.map Field.name) : Document where
  docId := d.docId
  pk := d.pk
  fields := d.fields ++ [f]
  fields_nodup := by
    rw [List.map_append]
    exact List.nodup_append.mpr ⟨d.fields_nodup, List.nodup_singleton _, fun a ha b hb he =>
      h (List.mem_singleton.mp hb ▸ he ▸ ha)⟩

/-- `ts_document_field_add`, and its return value. -/
def fieldAdd (d : Document) (f : Field) (force : Bool) : Document × ℤ :=
  if h : f.name ∈ d.fields.map Field.name then
    if !force then (d, -1)
    else ((d.fieldDel f.name).1.hashAdd f (d.not_mem_fieldDel f.name), 0)
  else (d.hashAdd f h, 0)

/-- One iteration of `ts_document_clone`. -/
def cloneField (d : Document) (f : Field) : Document :=
  let newfield := Field.new f.name f.value
  let newfield := if f.isIndexable then newfield.setIndexable else newfield
  (d.fieldAdd newfield true).1

/-- `ts_document_clone`: every field anew, in the order of the walk. -/
def clone (d : Document) : Document :=
  d.fields.foldl cloneField { Document.new with docId := d.docId, pk := d.pk }

end Document

/-! ## Strings -/

/-- A string without NUL, as all C strings are. -/
def NulFree (s : CString) : Prop := 0 ∉ s

instance : DecidablePred NulFree := fun s => inferInstanceAs (Decidable (0 ∉ s))

lemma strdup_eq {s : CString} (h : NulFree s) : strdup s = s :=
  List.takeWhile_eq_self_iff.mpr fun b hb => by
    simpa using fun he : b = 0 => h (he ▸ hb)

lemma nulFree_strdup (s : CString) : NulFree (strdup s) := fun h => by
  simpa using List.mem_takeWhile_imp h

/-- What `ts_field_new` and `ts_field_set_indexable` make. -/
structure Field.Proper (f : Field) : Prop where
  name : NulFree f.name
  value : ∀ s, f.value = .string s → NulFree s
  indexable : f.indexable = 0 ∨ f.indexable = 1

lemma Field.new_proper (name : CString) (value : FieldValue) : (Field.new name value).Proper := by
  cases value with
  | string s =>
      refine ⟨nulFree_strdup name, fun s' hs' => ?_, .inl rfl⟩
      obtain rfl : strdup s = s' := FieldValue.string.inj hs'
      exact nulFree_strdup s
  | int32 v => exact ⟨nulFree_strdup name, fun s' hs' => by simp [Field.new] at hs', .inl rfl⟩

lemma Field.Proper.setIndexable {f : Field} (h : f.Proper) : f.setIndexable.Proper :=
  ⟨h.name, h.value, .inr rfl⟩

/-- A copy of a field that is proper is that field. -/
lemma Field.Proper.new_eq {f : Field} (h : f.Proper) :
    (if f.isIndexable then (Field.new f.name f.value).setIndexable
      else .new f.name f.value) = f := by
  have hcopy : Field.new f.name f.value = { f with indexable := 0 } := by
    obtain ⟨name, value, indexable⟩ := f
    cases value with
    | string s => simp [Field.new, strdup_eq h.name, strdup_eq (h.value s rfl)]
    | int32 v => simp [Field.new, strdup_eq h.name]
  rw [hcopy]
  rcases h.indexable with hi | hi
  · rw [if_neg (by simp [Field.isIndexable, hi]), ← hi]
  · rw [if_pos (by simp [Field.isIndexable, hi]), Field.setIndexable, ← hi]

namespace Document

variable {d : Document} {f : Field}

/-! ## Forced adds -/

@[simp]
lemma fieldAdd_docId (d : Document) (f : Field) (force : Bool) :
    (d.fieldAdd f force).1.docId = d.docId := by
  simp only [fieldAdd, fieldDel, hashAdd]
  split_ifs <;> rfl

@[simp]
lemma fieldAdd_pk (d : Document) (f : Field) (force : Bool) :
    (d.fieldAdd f force).1.pk = d.pk := by
  simp only [fieldAdd, fieldDel, hashAdd]
  split_ifs <;> rfl

/-- **A forced add** replaces the field of the name. -/
lemma fields_fieldAdd_force (d : Document) (f : Field) :
    (d.fieldAdd f true).1.fields = Keyed.replace Field.name d.fields f := by
  by_cases h : f.name ∈ d.fields.map Field.name
  · rw [fieldAdd, dif_pos h]
    exact congrArg (· ++ [f]) (d.fields_fieldDel f.name)
  · rw [fieldAdd, dif_neg h]
    refine congrArg (· ++ [f]) (List.filter_eq_self.mpr fun g hg => ?_).symm
    have hne : g.name ≠ f.name := fun he => h (List.mem_map.mpr ⟨g, hg, he⟩)
    simpa using hne

/-- Forced adds of a list of fields, one after the other. -/
lemma foldl_fieldAdd {β : Type} (g : β → Field) (xs : List β) (d : Document) :
    (xs.foldl (fun d x => (d.fieldAdd (g x) true).1) d).docId = d.docId ∧
    (xs.foldl (fun d x => (d.fieldAdd (g x) true).1) d).pk = d.pk ∧
    (xs.foldl (fun d x => (d.fieldAdd (g x) true).1) d).fields =
      (xs.map g).foldl (Keyed.replace Field.name) d.fields := by
  induction xs generalizing d with
  | nil => exact ⟨rfl, rfl, rfl⟩
  | cons x xs ih =>
      obtain ⟨hid, hpk, hfields⟩ := ih (d.fieldAdd (g x) true).1
      refine ⟨hid.trans (fieldAdd_docId ..), hpk.trans (fieldAdd_pk ..), ?_⟩
      rw [List.foldl_cons, hfields, fields_fieldAdd_force, List.map_cons, List.foldl_cons]

/-! ## Documents and their clones -/

/-- A document that is built by `ts_document_new`, assignments to its `doc_id` and `pk`, and adds of
fields that `ts_field_new` makes. -/
inductive Built : Document → Prop
  | new : Built .new
  | setDocId {d : Document} (h : Built d) (id : ℕ) : Built { d with docId := id }
  | setPk {d : Document} (h : Built d) (pk : ℕ) : Built { d with pk := pk }
  | fieldAdd {d : Document} (h : Built d) (name : CString) (value : FieldValue)
      (indexable force : Bool) :
      Built (d.fieldAdd (if indexable then (Field.new name value).setIndexable
        else Field.new name value) force).1

/-- The fields of a document that was built are proper. -/
lemma Built.proper (h : Built d) : ∀ f ∈ d.fields, f.Proper := by
  induction h with
  | new => simp [Document.new]
  | setDocId _ _ ih => exact ih
  | setPk _ _ ih => exact ih
  | @fieldAdd d _ name value indexable force ih =>
      have hnew : (if indexable then (Field.new name value).setIndexable
          else Field.new name value).Proper := by
        split_ifs
        · exact (Field.new_proper name value).setIndexable
        · exact Field.new_proper name value
      generalize (if indexable then (Field.new name value).setIndexable
        else Field.new name value) = f at hnew
      intro g hg
      unfold Document.fieldAdd at hg
      split_ifs at hg
      · exact ih g hg
      · rcases List.mem_append.mp hg with hg | hg
        · rw [fields_fieldDel] at hg
          exact ih g (List.mem_of_mem_filter hg)
        · exact List.mem_singleton.mp hg ▸ hnew
      · rcases List.mem_append.mp hg with hg | hg
        · exact ih g hg
        · exact List.mem_singleton.mp hg ▸ hnew

/-- **A document and its clone.** -/
lemma clone_eq (h : ∀ f ∈ d.fields, f.Proper) : d.clone = d := by
  obtain ⟨hid, hpk, hfields⟩ := foldl_fieldAdd
    (fun f => if f.isIndexable then (Field.new f.name f.value).setIndexable
      else .new f.name f.value) d.fields { Document.new with docId := d.docId, pk := d.pk }
  have hmap : (d.fields.map fun f => if f.isIndexable then (Field.new f.name f.value).setIndexable
      else .new f.name f.value) = d.fields :=
    (List.map_congr_left fun f hf => (h f hf).new_eq).trans (List.map_id _)
  rw [hmap, Keyed.foldl_replace, Keyed.keepLast_of_wf d.fields_nodup] at hfields
  exact Document.ext hid hpk hfields

end Document

end TsEngine
