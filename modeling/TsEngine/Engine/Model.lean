import TsEngine.Framework.Runs
import TsEngine.Store.Segment

/-!
# The engine and its merger (`engine.h`, `engine.c`, `merger.h`, `merger.c`)

The state of an engine, the two document handlers of the input thread, the five procedures of
the merger thread and the two handlers the merger embeds in the input queue, each as one atomic
step.  `engineSystem` lets them take turns in any order.

Three representation choices.  Segments are named by their allocation (`SegPtr`), never reused,
so that a freed segment is told from a live one; `freedSegs` and `freedDocs` record what has been
handed to `free`, latest first.  The list `engine->segments` is a parameter `L` with the four
list macros the engine uses (`SegmentList`): with `L = List SegPtr` it is an abstract sequence.
Of the input queue only the two embedded tasks are kept: add and remove tasks may be executed at
any moment, since a client may enqueue them at any moment.

Where the code would fail an assertion, read through a null or freed pointer or divide by zero,
a step faults, and has no successor.
-/

namespace TsEngine

open Framework

/-- The address of a segment. -/
abbrev SegPtr := ℕ

/-- What can go wrong in a step. -/
inductive Fault
  | assertion
  | nullDereference
  | useAfterFree
  | divisionByZero
  deriving DecidableEq

/-- The operations on `engine->segments`. -/
class SegmentList (L : Type) where
  /-- The plain assignment `engine->segments = seg` of `ts_engine_new`. -/
  single : SegPtr → L
  /-- What `DL_FOREACH` visits, given a bound on the number of segments there are. -/
  foreach : ℕ → L → List SegPtr
  /-- `DL_PREPEND(engine->segments, seg)`. -/
  dlPrepend : SegPtr → L → L
  /-- `DL_DELETE(engine->segments, seg)`. -/
  dlDelete : SegPtr → L → Except Fault L

/-- The segment list as an abstract sequence. -/
instance : SegmentList (List SegPtr) where
  single seg := [seg]
  foreach _ l := l
  dlPrepend seg l := seg :: l
  dlDelete seg l := .ok (l.erase seg)

/-! ## The state -/

/-- The tasks a merger embeds in the input queue. -/
inductive MergerTask
  | replace
  | redelete
  deriving DecidableEq

/-- `struct _ts_merger`, without its thread and its back pointer. -/
structure Merger where
  mergeStage : ℕ
  mergingDeletion : List ℕ
  mseg1 : Option SegPtr
  mseg2 : Option SegPtr
  newseg : Option SegPtr
  deleted : List DocPtr

/-- `ts_merger_new`. -/
def Merger.new : Merger := ⟨0, [], none, none, none, []⟩

/-- `struct _ts_engine`, with the documents and segments it points at. -/
structure Engine (L : Type) where
  docs : DocHeap
  segs : SegPtr → Segment
  nextSeg : SegPtr
  freedSegs : List SegPtr
  freedDocs : List DocPtr
  segments : L
  segmentActive : SegPtr
  inputQueue : List MergerTask
  merger : Merger

/-- `deleted_radio`: the quotient of two `uint64_t`. -/
def deletedRadio (seg : Segment) : Except Fault ℕ :=
  if seg.numTotalDocs = 0 then .error .divisionByZero
  else .ok (seg.numTotalDeleted / seg.numTotalDocs)

/-- `radio >= MERGE_DELETED_RATIO`, which is `0.2`. -/
def reachesMergeRatio (radio : ℕ) : Bool := decide (2 ≤ 10 * radio)

namespace Engine

variable {L : Type} [SegmentList L]

/-- `ts_engine_new`, where the documents that clients will hand over already exist. -/
def new (heap : DocHeap) : Engine L where
  docs := heap
  segs := fun _ => Segment.new
  nextSeg := 1
  freedSegs := []
  freedDocs := []
  segments := SegmentList.single 0
  segmentActive := 0
  inputQueue := []
  merger := Merger.new

/-- The segments `DL_FOREACH` visits. -/
def listed (e : Engine L) : List SegPtr := SegmentList.foreach e.nextSeg e.segments

/-- Change the segment at an address. -/
def modifySeg (e : Engine L) (seg : SegPtr) (f : Segment → Segment) : Engine L :=
  { e with segs := Function.update e.segs seg (f (e.segs seg)) }

/-- `merger->merge_stage = stage`. -/
def setStage (e : Engine L) (stage : ℕ) : Engine L :=
  { e with merger := { e.merger with mergeStage := stage } }

/-- Follow a segment pointer. -/
def deref (e : Engine L) : Option SegPtr → Except Fault SegPtr
  | none => .error .nullDereference
  | some seg => if seg ∈ e.freedSegs then .error .useAfterFree else .ok seg

/-! ## The document handlers -/

/-- The roll-over at the head of `ts_engine_add_document_handler`. -/
def rollOver (cap : ℕ) (e : Engine L) : Engine L :=
  if cap ≤ (e.segs e.segmentActive).numTotalDocs then
    let e := e.modifySeg e.segmentActive fun seg => { seg with state := seg.state + 1 }
    { e with
      segs := Function.update e.segs e.nextSeg Segment.new
      nextSeg := e.nextSeg + 1
      segments := SegmentList.dlPrepend e.nextSeg e.segments
      segmentActive := e.nextSeg }
  else e

/-- The loop over all segments that both document handlers run. -/
def removeFromAll (e : Engine L) (pk : ℕ) : Engine L :=
  e.listed.foldl (fun e seg => e.modifySeg seg fun s => (s.removeDocument e.docs pk).2) e

/-- `ts_segment_add_document(engine->segment_active, doc)`. -/
def addToActive (e : Engine L) (d : DocPtr) : Engine L :=
  let r := (e.segs e.segmentActive).addDocument e.docs d
  { e with
    docs := r.2.1
    segs := Function.update e.segs e.segmentActive r.2.2 }

/-- `ts_engine_add_document_handler`. -/
def addDocumentHandler (cap : ℕ) (d : DocPtr) (e : Engine L) : Engine L :=
  let e := e.rollOver cap
  let e := e.removeFromAll (e.docs d).pk
  e.addToActive d

/-- `ts_engine_remove_document_handler`. -/
def removeDocumentHandler (pk : ℕ) (e : Engine L) : Engine L :=
  let e := e.removeFromAll pk
  if 0 < e.merger.mergeStage then
    { e with merger := { e.merger with mergingDeletion := e.merger.mergingDeletion ++ [pk] } }
  else e

/-! ## Choosing the segments to merge -/

/-- `*mseg1`, `*mseg2` and `found` of `ts_merger_get_segments`. -/
structure Candidates where
  mseg1 : Option SegPtr
  mseg2 : Option SegPtr
  found : Bool

/-- The body of the loop of `ts_merger_get_segments`. -/
def considerSegment (segs : SegPtr → Segment) (c : Candidates) (seg : SegPtr) :
    Except Fault Candidates :=
  if (segs seg).state = segmentStateActive then .ok c
  else
    match c.mseg1 with
    | none => .ok { c with mseg1 := some seg }
    | some mseg1 => do
        let radio ← deletedRadio (segs seg)
        let radio1 ← deletedRadio (segs mseg1)
        if radio1 ≤ radio then .ok ⟨some seg, some mseg1, true⟩ else .ok c

/-- `ts_merger_get_segments`; `none` is its `-1`. -/
def getSegments (e : Engine L) : Except Fault (Option (SegPtr × SegPtr)) :=
  if e.listed.length < 3 then .ok none
  else do
    let c ← e.listed.foldlM (considerSegment e.segs) ⟨none, none, false⟩
    match c.mseg1, c.mseg2, c.found with
    | some mseg1, some mseg2, true => do
        let radio ← deletedRadio (e.segs mseg1)
        if reachesMergeRatio radio then .ok (some (mseg1, mseg2)) else .ok none
    | _, _, _ => .ok none

/-- `ts_merge_proc_check`. -/
def mergeProcCheck (e : Engine L) : Except Fault (Engine L) :=
  if e.merger.mergeStage ≠ 0 then .ok e
  else do
    match ← e.getSegments with
    | none => .ok e
    | some (mseg1, mseg2) =>
        let e := { e with
          merger := { e.merger with mseg1 := some mseg1, mseg2 := some mseg2 } }
        .ok (e.setStage 1)

/-! ## Migrating -/

/-- The body of the loop of `ts_segment_migrate`, on the documents, the new segment and the list
of documents left behind.  `deletion` is the snapshot of the old segment's bitmap. -/
def migrateDocument (deletion : Bitmap) (s : DocHeap × Segment × List DocPtr) (d : DocPtr) :
    DocHeap × Segment × List DocPtr :=
  if deletion.get (s.1 d).docId then (s.1, s.2.1, s.2.2 ++ [d])
  else
    let r := s.2.1.addDocument s.1 d
    (r.2.1, r.2.2, s.2.2)

/-- `ts_segment_migrate`. -/
def segmentMigrate (old : Segment) (s : DocHeap × Segment × List DocPtr) :
    DocHeap × Segment × List DocPtr :=
  old.docPtrs.foldl (migrateDocument old.deletion.clone) s

/-- `ts_merge_proc_migrate` up to and including the enqueue of the replace task. -/
def migrateAndEnqueue (e : Engine L) : Except Fault (Engine L) := do
  let mseg1 ← e.deref e.merger.mseg1
  let mseg2 ← e.deref e.merger.mseg2
  let s := segmentMigrate (e.segs mseg1) (e.docs, Segment.new, [])
  let s := segmentMigrate (e.segs mseg2) s
  .ok { e with
    docs := s.1
    segs := Function.update e.segs e.nextSeg s.2.1
    nextSeg := e.nextSeg + 1
    inputQueue := e.inputQueue ++ [.replace]
    merger := { e.merger with newseg := some e.nextSeg, deleted := s.2.2 } }

/-- `ts_merge_proc_migrate`. -/
def mergeProcMigrate (e : Engine L) : Except Fault (Engine L) :=
  if e.merger.mergeStage ≠ 1 then .ok e
  else do
    let e ← e.migrateAndEnqueue
    .ok (e.setStage 2)

/-! ## Replacing -/

/-- `ts_merger_replace_segs_handler`. -/
def replaceSegsHandler (e : Engine L) : Except Fault (Engine L) := do
  let mseg1 ← e.deref e.merger.mseg1
  let mseg2 ← e.deref e.merger.mseg2
  let newseg ← e.deref e.merger.newseg
  let segments ← SegmentList.dlDelete mseg1 e.segments
  let segments ← SegmentList.dlDelete mseg2 segments
  let e := { e with segments := segments }
  if 0 < (e.segs newseg).numTotalDocs then
    let e := e.modifySeg newseg fun seg => { seg with state := seg.state + 1 }
    .ok ({ e with segments := SegmentList.dlPrepend newseg e.segments }.setStage 3)
  else .ok (e.setStage 3)

/-! ## Releasing -/

/-- `ts_segment_free`. -/
def freeSegment (e : Engine L) (seg : SegPtr) : Engine L :=
  { e with freedSegs := seg :: e.freedSegs }

/-- Free the segment that `source` reads if no lookup is in it, and set the pointer to null. -/
def releaseSource (source : Merger → Option SegPtr) (forget : Merger → Merger) (e : Engine L) :
    Except Fault (Engine L) := do
  let mseg ← e.deref (source e.merger)
  if (e.segs mseg).processes = 0 then
    let e := e.freeSegment mseg
    .ok { e with merger := forget e.merger }
  else .ok e

/-- The first block of `ts_merge_proc_release`. -/
def releaseMseg1 (e : Engine L) : Except Fault (Engine L) :=
  e.releaseSource Merger.mseg1 fun merger => { merger with mseg1 := none }

/-- The second block of `ts_merge_proc_release`. -/
def releaseMseg2 (e : Engine L) : Except Fault (Engine L) :=
  e.releaseSource Merger.mseg2 fun merger => { merger with mseg2 := none }

/-- What `ts_merge_proc_release` does once both segments are gone. -/
def releaseDocuments (e : Engine L) : Except Fault (Engine L) := do
  let e := { e with freedDocs := e.merger.deleted.reverse ++ e.freedDocs }
  let newseg ← e.deref e.merger.newseg
  if 0 < (e.segs newseg).numTotalDocs then .ok (e.setStage 4)
  else .ok ((e.freeSegment newseg).setStage 6)

/-- `ts_merge_proc_release`. -/
def mergeProcRelease (e : Engine L) : Except Fault (Engine L) :=
  if e.merger.mergeStage ≠ 3 then .ok e
  else do
    let e ← e.releaseMseg1
    let e ← e.releaseMseg2
    if e.merger.mseg1 = none ∧ e.merger.mseg2 = none then e.releaseDocuments else .ok e

/-! ## Deleting again, and resetting -/

/-- `ts_merger_redelete_handler`. -/
def redeleteHandler (e : Engine L) : Except Fault (Engine L) :=
  if e.merger.mergingDeletion = [] then .ok (e.setStage 6)
  else do
    let newseg ← e.deref e.merger.newseg
    let e := e.modifySeg newseg fun seg =>
      e.merger.mergingDeletion.foldl (fun seg pk => (seg.removeDocument e.docs pk).2) seg
    .ok (e.setStage 6)

/-- `ts_merge_proc_redelete` up to and including the enqueue of the redelete task. -/
def redeleteEnqueue (e : Engine L) : Engine L :=
  { e with inputQueue := e.inputQueue ++ [.redelete] }

/-- `ts_merge_proc_redelete`. -/
def mergeProcRedelete (e : Engine L) : Engine L :=
  if e.merger.mergeStage ≠ 4 then e else e.redeleteEnqueue.setStage 5

/-- `ts_merge_proc_reset`: `deleted` is freed, and next allocated by a migration. -/
def mergeProcReset (e : Engine L) : Engine L :=
  if e.merger.mergeStage ≠ 6 then e
  else { e with merger := { e.merger with deleted := [] } }.setStage 0

/-! ## Lookups -/

/-- `ts_atomic_incr(&seg->processes)`. -/
def lookupEnter (e : Engine L) (seg : SegPtr) : Engine L :=
  e.modifySeg seg fun s => { s with processes := (s.processes + 1) % 2 ^ 32 }

/-- `ts_atomic_decr(&seg->processes)`. -/
def lookupLeave (e : Engine L) (seg : SegPtr) : Engine L :=
  e.modifySeg seg fun s => { s with processes := (s.processes + (2 ^ 32 - 1)) % 2 ^ 32 }

end Engine

/-! ## The system -/

/-- The atomic steps. -/
inductive Action
  | add (d : DocPtr)
  | remove (pk : ℕ)
  | replaceSegs
  | redelete
  | procCheck
  | procMigrate
  | procRelease
  | procRedelete
  | procReset
  | lookupEnter (seg : SegPtr)
  | lookupLeave (seg : SegPtr)
  deriving DecidableEq

namespace Engine

variable {L : Type} [SegmentList L]

/-- `input_queue.dequeue` of an embedded task. -/
def dequeue (e : Engine L) (task : MergerTask) : Engine L :=
  { e with inputQueue := e.inputQueue.erase task }

/-- The effect of a step. -/
def exec (cap : ℕ) : Action → Engine L → Except Fault (Engine L)
  | .add d, e => .ok (e.addDocumentHandler cap d)
  | .remove pk, e => .ok (e.removeDocumentHandler pk)
  | .replaceSegs, e => (e.dequeue .replace).replaceSegsHandler
  | .redelete, e => (e.dequeue .redelete).redeleteHandler
  | .procCheck, e => e.mergeProcCheck
  | .procMigrate, e => e.mergeProcMigrate
  | .procRelease, e => e.mergeProcRelease
  | .procRedelete, e => .ok e.mergeProcRedelete
  | .procReset, e => .ok e.mergeProcReset
  | .lookupEnter seg, e => .ok (e.lookupEnter seg)
  | .lookupLeave seg, e => .ok (e.lookupLeave seg)

end Engine

/-- The actions of a history, newest first. -/
def actions {σ : Type} (l : List (σ × Action)) : List Action := l.map Prod.snd

/-- The action is an addition. -/
def Action.isAdd : Action → Bool
  | .add _ => true
  | _ => false

/-- The number of documents added. -/
def Action.addCount (as : List Action) : ℕ := as.countP Action.isAdd

/-- A task of a client. -/
def Action.IsTask : Action → Prop
  | .add _ | .remove _ => True
  | _ => False

/-- When a step may be taken.  A document is added once, after `ts_engine_add_document` has
checked it; a removal needs a primary key; a handler needs its task in the queue.  The last
condition of an addition says that no segment can run out of 32-bit ids, which a capacity below
`2 ^ 32 - 1` guarantees by itself. -/
def Action.Enabled {L : Type} (cap : ℕ) (as : List Action) (e : Engine L) : Action → Prop
  | .add d => (e.docs d).check = true ∧ .add d ∉ as ∧ min cap (Action.addCount as + 1) + 1 < 2 ^ 32
  | .remove pk => pk ≠ 0
  | .replaceSegs => MergerTask.replace ∈ e.inputQueue
  | .redelete => MergerTask.redelete ∈ e.inputQueue
  | _ => True

instance {L : Type} (cap : ℕ) (as : List Action) (e : Engine L) (a : Action) :
    Decidable (a.Enabled cap as e) :=
  match a with
  | .add d => inferInstanceAs (Decidable ((e.docs d).check = true ∧ Action.add d ∉ as ∧
      min cap (Action.addCount as + 1) + 1 < 2 ^ 32))
  | .remove pk => inferInstanceAs (Decidable (pk ≠ 0))
  | .replaceSegs => inferInstanceAs (Decidable (MergerTask.replace ∈ e.inputQueue))
  | .redelete => inferInstanceAs (Decidable (MergerTask.redelete ∈ e.inputQueue))
  | .procCheck | .procMigrate | .procRelease | .procRedelete | .procReset
  | .lookupEnter _ | .lookupLeave _ => inferInstanceAs (Decidable True)

/-- The engine: input tasks, merger procedures and lookups take turns in any order.  `cap` is
`SEGMENT_MAX_DOC`. -/
def engineSystem (L : Type) [SegmentList L] (cap : ℕ) (heap : DocHeap) :
    System (Engine L) Action Fault where
  init := .new heap
  enabled l e a := a.Enabled cap (actions l) e
  exec := Engine.exec cap

instance {L : Type} [SegmentList L] (cap : ℕ) (heap : DocHeap) (l : List (Engine L × Action))
    (e : Engine L) (a : Action) : Decidable ((engineSystem L cap heap).enabled l e a) :=
  inferInstanceAs (Decidable (a.Enabled cap (actions l) e))

end TsEngine
