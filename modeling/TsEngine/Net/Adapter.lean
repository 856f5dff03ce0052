import TsEngine.Store.Fields

/-!
# Documents on the wire

`ts_adapter_document` makes a document of a message, and `ts_adapter_document2proto` a message of a
document.  Between the two the engine clones the document (`ts_engine_lookup`).

A message may name a term several times, where a document has each name once; and it has a slot for
either type of value.  `adapter_round_trip` says what becomes of it: `Proto.Document.normal`.
-/

namespace TsEngine

open Framework

namespace Proto

/-- `Field` of `protocol.proto`. -/
structure Field where
  type : UInt32
  term : CString
  valuestr : CString
  valueint32 : BitVec 32
  indexable : Bool
  deriving DecidableEq

/-- `Document` of `protocol.proto`. -/
structure Document where
  pk : ℕ
  fields : List Field
  deriving DecidableEq

/-- `field__init`. -/
def Field.init : Field := ⟨0, [], [], 0, false⟩

end Proto

/-! ## The adapter -/

/-- The field that `ts_adapter_document` makes. -/
def adapterField (field : Proto.Field) : Field :=
  let newfield := if field.type = 0 then Field.new field.term (.string field.valuestr)
    else Field.new field.term (.int32 field.valueint32)
  if field.indexable then newfield.setIndexable else newfield

/-- `ts_adapter_document`. -/
def adapterDocument (document : Proto.Document) : Document :=
  { document.fields.foldl (fun newdoc field => (newdoc.fieldAdd (adapterField field) true).1)
      Document.new with pk := document.pk }

/-- `ts_adapter_field2proto`. -/
def adapterField2proto (field : Field) : Proto.Field :=
  let newfield := { Proto.Field.init with term := field.name }
  let newfield := match field.value with
    | .string value => { newfield with type := 0, valuestr := value }
    | .int32 value => { newfield with type := 1, valueint32 := value }
  { newfield with indexable := field.indexable != 0 }

/-- `ts_adapter_document2proto`. -/
def adapterDocument2proto (document : Document) : Proto.Document :=
  ⟨document.pk, document.fields.map adapterField2proto⟩

/-! ## What becomes of a message -/

namespace Proto

/-- A string stays what it is and every other type becomes an `int32`; the slot of the other type is
empty. -/
def Field.normal (f : Field) : Field :=
  if f.type = 0 then { f with valueint32 := 0 }
  else { f with type := 1, valuestr := [] }

/-- The last field of each term, in the order of the message, and normal. -/
def Document.normal (m : Document) : Document :=
  ⟨m.pk, (Keyed.keepLast Field.term m.fields).map Field.normal⟩

/-- The strings are without NUL. -/
def Document.NulFree (m : Document) : Prop :=
  ∀ f ∈ m.fields, TsEngine.NulFree f.term ∧ TsEngine.NulFree f.valuestr

/-- Each term occurs once, and a type is `0` or `1`. -/
structure Document.IsNormal (m : Document) : Prop where
  terms : Keyed.Wf Field.term m.fields
  types : ∀ f ∈ m.fields, f.type = 0 ∨ f.type = 1

/-- The fields agree, but for the slot that their type leaves unused. -/
structure Field.Agree (f g : Field) : Prop where
  type : f.type = g.type
  term : f.term = g.term
  valuestr : f.type = 0 → f.valuestr = g.valuestr
  valueint32 : f.type ≠ 0 → f.valueint32 = g.valueint32
  indexable : f.indexable = g.indexable

lemma Field.normal_agree {f : Field} (h : f.type = 0 ∨ f.type = 1) : Field.Agree f f.normal := by
  rcases h with h | h
  · rw [Field.normal, if_pos h]
    exact ⟨rfl, rfl, fun _ => rfl, fun h' => absurd h h', rfl⟩
  · have hne : f.type ≠ 0 := h ▸ by decide
    rw [Field.normal, if_neg hne]
    exact ⟨h, rfl, fun h' => absurd h' hne, fun _ => rfl, rfl⟩

end Proto

section

variable {f : Proto.Field} (hterm : NulFree f.term)

include hterm

lemma adapterField_name : (adapterField f).name = f.term := by
  unfold adapterField
  split_ifs <;> exact strdup_eq hterm

/-- A field there and back. -/
lemma adapterField2proto_adapterField (hvalue : NulFree f.valuestr) :
    adapterField2proto (adapterField f) = f.normal := by
  obtain ⟨type, term, valuestr, valueint32, indexable⟩ := f
  simp only at hterm hvalue
  by_cases htype : type = 0 <;> cases indexable <;>
    simp [adapterField, adapterField2proto, Field.new, Field.setIndexable, Proto.Field.normal,
      Proto.Field.init, htype, strdup_eq hterm, strdup_eq hvalue]

end

/-- The fields of an adapted document are proper. -/
lemma adapterField_proper (f : Proto.Field) : (adapterField f).Proper := by
  have hnew : (if f.type = 0 then Field.new f.term (.string f.valuestr)
      else Field.new f.term (.int32 f.valueint32)).Proper := by
    split_ifs <;> exact Field.new_proper _ _
  unfold adapterField
  simp only
  split_ifs at hnew ⊢
  all_goals first | exact hnew.setIndexable | exact hnew

variable {m : Proto.Document}

/-- **The document of a message**: the last field of each term. -/
lemma fields_adapterDocument (h : m.NulFree) : (adapterDocument m).fields =
    (Keyed.keepLast Proto.Field.term m.fields).map adapterField := by
  have hfields := (Document.foldl_fieldAdd adapterField m.fields .new).2.2
  rw [Keyed.foldl_replace, Keyed.keepLast_map fun f hf => adapterField_name (h f hf).1] at hfields
  exact hfields

/-- A message, its document, the clone of that, and back. -/
lemma adapterDocument2proto_clone (h : m.NulFree) :
    adapterDocument2proto (adapterDocument m).clone = m.normal := by
  have hfields := fields_adapterDocument h
  have hproper : ∀ f ∈ (adapterDocument m).fields, f.Proper := by
    intro f hf
    rw [hfields] at hf
    obtain ⟨g, -, rfl⟩ := List.mem_map.mp hf
    exact adapterField_proper g
  rw [Document.clone_eq hproper, adapterDocument2proto, hfields, List.map_map,
    Proto.Document.normal]
  refine congrArg (Proto.Document.mk m.pk) (List.map_congr_left fun f hf => ?_)
  obtain ⟨hterm, hvalue⟩ := h f (Keyed.mem_of_mem_keepLast hf)
  exact adapterField2proto_adapterField hterm hvalue

/-- A message in normal form stays as it is, but for the slots that are not used. -/
lemma Proto.Document.IsNormal.agree (h : m.IsNormal) :
    List.Forall₂ Proto.Field.Agree m.fields m.normal.fields := by
  rw [normal, Keyed.keepLast_of_wf h.terms, List.forall₂_map_right_iff]
  exact List.forall₂_same.mpr fun f hf => Field.normal_agree (h.types f hf)

/-- **Documents survive the clone and the wire.**  A document built by the functions for documents
and fields is equal to its clone.  A message whose strings have no NUL, turned into a document,
cloned and turned back, is its normal form; and if it is in that form already, it is itself but for
the slots that its types leave unused. -/
theorem adapter_round_trip :
    (∀ d : Document, d.Built → d.clone = d) ∧
    ∀ m : Proto.Document, m.NulFree →
      adapterDocument2proto (adapterDocument m).clone = m.normal ∧
      (m.IsNormal → List.Forall₂ Proto.Field.Agree m.fields
        (adapterDocument2proto (adapterDocument m).clone).fields) := by
  refine ⟨fun d hd => Document.clone_eq hd.proper, fun m h => ?_⟩
  have heq := adapterDocument2proto_clone h
  exact ⟨heq, fun hnormal => heq ▸ hnormal.agree⟩

/-- `adapter_round_trip` for a document of one field, and for a message that names a term twice. -/
theorem adapter_round_trip_sample :
    (Document.new.fieldAdd (.new [97] (.int32 3)) false).1.clone =
      (Document.new.fieldAdd (.new [97] (.int32 3)) false).1 ∧
    adapterDocument2proto (adapterDocument
        ⟨9, [⟨0, [97], [98], 0, true⟩, ⟨7, [99], [], 5, false⟩, ⟨0, [97], [100], 0, true⟩]⟩).clone =
      ⟨9, [⟨1, [99], [], 5, false⟩, ⟨0, [97], [100], 0, true⟩]⟩ ∧
    List.Forall₂ Proto.Field.Agree [⟨1, [97], [98], 5, false⟩] (adapterDocument2proto
      (adapterDocument ⟨9, [⟨1, [97], [98], 5, false⟩]⟩).clone).fields := by
  have hbuilt : (Document.new.fieldAdd (.new [97] (.int32 3)) false).1.Built :=
    Document.Built.new.fieldAdd [97] (.int32 3) false false
  refine ⟨adapter_round_trip.1 _ hbuilt, (adapter_round_trip.2 _ ?_).1,
    (adapter_round_trip.2 ⟨9, [⟨1, [97], [98], 5, false⟩]⟩ ?_).2 ⟨?_, ?_⟩⟩
  · simp [Proto.Document.NulFree, NulFree]
  · simp [Proto.Document.NulFree, NulFree]
  · exact List.nodup_singleton _
  · simp

end TsEngine
