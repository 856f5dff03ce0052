import TsEngine.Engine.Model
import TsEngine.Store.SegmentModel

/-!
# The invariant of the engine

Everything that holds in every state of every run, for a segment list that is an abstract
sequence.  `Inv` collects it: the shape of the list (`ListShape`), what each listed segment
stores (`Contents`), and, stage by stage, what the merger's pointers refer to (`Phase`).

Two points decide its form.  A segment stands for the log of the documents added to it
(`Segment.Represents`), and the logs are a parameter of the invariant rather than a component of
the state.  And a migration renumbers documents that the two source segments still list, so that
between migration and replacement those two, and only those two, are known to be `Represents`
but no longer `Sound`: their counters and tables are right, their ids are not.
-/

namespace TsEngine

open Framework Segment

/-- The engine over an abstract sequence of segments. -/
abbrev ListEngine := Engine (List SegPtr)

@[simp] lemma SegmentList.single_list (seg : SegPtr) : (single seg : List SegPtr) = [seg] := rfl

@[simp] lemma SegmentList.dlPrepend_list (seg : SegPtr) (l : List SegPtr) :
    dlPrepend seg l = seg :: l := rfl

@[simp] lemma SegmentList.dlDelete_list (seg : SegPtr) (l : List SegPtr) :
    dlDelete seg l = .ok (l.erase seg) := rfl

@[simp] lemma Engine.listed_list (e : ListEngine) : e.listed = e.segments := rfl

namespace Engine

/-- A source segment whose documents have been migrated while it is still listed. -/
def Merging (e : ListEngine) (p : SegPtr) : Prop :=
  e.merger.mergeStage = 2 ∧ (e.merger.mseg1 = some p ∨ e.merger.mseg2 = some p)

/-! ## The pieces -/

/-- The list of segments and the counters of its members. -/
structure ListShape (cap : ℕ) (e : ListEngine) : Prop where
  nodup : e.segments.Nodup
  lt : ∀ p ∈ e.segments, p < e.nextSeg
  notFreed : ∀ p ∈ e.segments, p ∉ e.freedSegs
  freedLt : ∀ p ∈ e.freedSegs, p < e.nextSeg
  active : e.segmentActive ∈ e.segments
  activeState : (e.segs e.segmentActive).state = segmentStateActive
  otherState : ∀ p ∈ e.segments, p ≠ e.segmentActive → (e.segs p).state = segmentStateValid
  nonempty : ∀ p ∈ e.segments, p ≠ e.segmentActive → (e.segs p).numTotalDocs ≠ 0
  leCap : ∀ p ∈ e.segments, (e.segs p).numTotalDocs ≤ cap

/-- What the listed segments store, after the actions `as`. -/
structure Contents (as : List Action) (e : ListEngine) (log : SegPtr → List DocPtr) : Prop where
  represents : ∀ p ∈ e.segments, (e.segs p).Represents e.docs (log p)
  sound : ∀ p ∈ e.segments, ¬e.Merging p → (e.segs p).Sound e.docs (log p)
  disjoint : ∀ p ∈ e.segments, ∀ q ∈ e.segments, p ≠ q → (log p).Disjoint (log q)
  added : ∀ p ∈ e.segments, ∀ x ∈ log p, .add x ∈ as
  checked : ∀ p ∈ e.segments, ∀ x ∈ log p, (e.docs x).check = true

/-- The two segments chosen for merging.  All documents of the first are deleted: the ratio that
triggers a merge is an integer quotient, so it is reached by a fully deleted segment only. -/
structure Sources (e : ListEngine) (log : SegPtr → List DocPtr) (m1 m2 : SegPtr) : Prop where
  mseg1 : e.merger.mseg1 = some m1
  mseg2 : e.merger.mseg2 = some m2
  ne : m1 ≠ m2
  mem1 : m1 ∈ e.segments
  mem2 : m2 ∈ e.segments
  inactive1 : m1 ≠ e.segmentActive
  inactive2 : m2 ≠ e.segmentActive
  dead : ∀ x ∈ log m1, (e.segs m1).isDeleted e.docs x = true

/-- The merged segment while it waits to be linked. -/
structure Unlinked (cap : ℕ) (e : ListEngine) (log : SegPtr → List DocPtr) (m2 n : SegPtr) :
    Prop where
  newseg : e.merger.newseg = some n
  notMem : n ∉ e.segments
  pos : 0 < n
  lt : n < e.nextSeg
  notFreed : n ∉ e.freedSegs
  state : (e.segs n).state = segmentStateActive
  sound : (e.segs n).Sound e.docs (log n)
  leCap : (e.segs n).numTotalDocs ≤ cap
  clean : ∀ i, (e.segs n).deletion.get i = false
  fromSource : ∀ x ∈ log n, x ∈ log m2

/-- The merged segment once the replace handler has run: it is listed unless it is empty. -/
structure Linked (e : ListEngine) (n : SegPtr) : Prop where
  newseg : e.merger.newseg = some n
  lt : n < e.nextSeg
  notFreed : n ∉ e.freedSegs
  inactive : n ≠ e.segmentActive
  mem_iff : n ∈ e.segments ↔ (e.segs n).numTotalDocs ≠ 0

/-- The sources that the replace handler has unlinked and that are not yet freed. -/
structure Unlisted (e : ListEngine) (n : SegPtr) : Prop where
  ne : ∀ m, e.merger.mseg1 = some m → e.merger.mseg2 ≠ some m
  notMem : ∀ m, e.merger.mseg1 = some m ∨ e.merger.mseg2 = some m → m ∉ e.segments
  lt : ∀ m, e.merger.mseg1 = some m ∨ e.merger.mseg2 = some m → m < e.nextSeg
  notFreed : ∀ m, e.merger.mseg1 = some m ∨ e.merger.mseg2 = some m → m ∉ e.freedSegs
  neNew : ∀ m, e.merger.mseg1 = some m ∨ e.merger.mseg2 = some m → m ≠ n

/-- What the merger refers to, stage by stage, and which of its tasks is in the queue. -/
inductive Phase (cap : ℕ) (e : ListEngine) (log : SegPtr → List DocPtr) : Prop
  | idle (hstage : e.merger.mergeStage = 0) (hqueue : e.inputQueue = [])
  | checked (m1 m2 : SegPtr) (hstage : e.merger.mergeStage = 1) (hqueue : e.inputQueue = [])
      (hsrc : Sources e log m1 m2)
  | migrated (m1 m2 n : SegPtr) (hstage : e.merger.mergeStage = 2)
      (hqueue : e.inputQueue = [.replace]) (hsrc : Sources e log m1 m2)
      (hnew : Unlinked cap e log m2 n)
  | replaced (n : SegPtr) (hstage : e.merger.mergeStage = 3) (hqueue : e.inputQueue = [])
      (hnew : Linked e n) (hold : Unlisted e n)
  | released (n : SegPtr) (hstage : e.merger.mergeStage = 4) (hqueue : e.inputQueue = [])
      (hnew : Linked e n) (hmem : n ∈ e.segments)
  | redeleting (n : SegPtr) (hstage : e.merger.mergeStage = 5)
      (hqueue : e.inputQueue = [.redelete]) (hnew : Linked e n) (hmem : n ∈ e.segments)
  | finished (hstage : e.merger.mergeStage = 6) (hqueue : e.inputQueue = [])

/-- **The invariant of the engine**, for the initial documents `heap`, the actions `as` taken so
far, and the logs `log` of the segments. -/
structure Inv (cap : ℕ) (heap : DocHeap) (as : List Action) (e : ListEngine)
    (log : SegPtr → List DocPtr) : Prop extends ListShape cap e, Contents as e log where
  phase : Phase cap e log
  sameDocs : heap.SameDocs e.docs

variable {cap : ℕ} {heap : DocHeap} {as : List Action} {e : ListEngine}
  {log : SegPtr → List DocPtr} {p : SegPtr} {x : DocPtr}

/-! ## The initial state -/

lemma inv_new (cap : ℕ) (heap : DocHeap) : Inv cap heap [] (.new heap) fun _ => [] := by
  refine ⟨⟨?_, ?_, ?_, ?_, ?_, rfl, ?_, ?_, ?_⟩, ⟨?_, ?_, ?_, ?_, ?_⟩, .idle rfl rfl,
    DocHeap.SameDocs.refl heap⟩
  · simp [new]
  · simp [new]
  · simp [new]
  · simp [new]
  · simp [new]
  · simp [new]
  · simp [new]
  · simp [new, Segment.new]
  · exact fun p _ => new_represents heap
  · exact fun p _ _ => sound_new heap
  · exact fun p _ q _ _ => by simp
  · simp
  · simp

/-- The history of actions only ever supports more. -/
lemma Inv.mono {as' : List Action} (h : Inv cap heap as e log) (hsub : as ⊆ as') :
    Inv cap heap as' e log :=
  { h with added := fun p hp x hx => hsub (h.added p hp x hx) }

/-- What the merger points at are the two that were chosen. -/
lemma Sources.eq_or_eq {m1 m2 : SegPtr} (h : Sources e log m1 m2)
    (hp : e.merger.mseg1 = some p ∨ e.merger.mseg2 = some p) : p = m1 ∨ p = m2 :=
  hp.imp (fun hp => Option.some.inj (hp.symm.trans h.mseg1))
    fun hp => Option.some.inj (hp.symm.trans h.mseg2)

lemma Sources.mem {m1 m2 : SegPtr} (h : Sources e log m1 m2)
    (hp : e.merger.mseg1 = some p ∨ e.merger.mseg2 = some p) : p ∈ e.segments := by
  rcases h.eq_or_eq hp with rfl | rfl
  · exact h.mem1
  · exact h.mem2

lemma Contents.mem_docPtrs (h : Contents as e log) (hp : p ∈ e.segments) :
    x ∈ (e.segs p).docPtrs ↔ x ∈ log p :=
  (h.represents p hp).mem_docPtrs

end Engine

end TsEngine
