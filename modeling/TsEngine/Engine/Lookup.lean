import TsEngine.Engine.Pointers
import TsEngine.Store.Fields

/-!
# Lookups (`ts_engine_lookup`, `query.h`)

A lookup runs in a thread of the server, next to the input thread and the merger.  It walks the
segment list with `DL_FOREACH` and counts itself in the `processes` of the segment that it
searches, which is what `ts_merge_proc_release` looks at before it frees a segment.

The call is taken apart at its accesses to shared memory: fetch the pointer to a segment, count
in, search and clone what is found, count out, and fetch the next pointer from the segment just
left.  `serviceSystem` lets any number of such calls take turns with the steps of the engine.  A
step that touches a segment or a document that has been released is a fault.
-/

namespace TsEngine

open Framework

/-- `LOOKUP_MAX_SIZE`. -/
def lookupMaxSize : ℕ := 3000

/-- `ERROR_CODE_SUCCESS`. -/
def errorCodeSuccess : ℤ := 0

/-- `ERROR_CODE_INVALID_ARGUMENT`. -/
def errorCodeInvalidArgument : ℤ := -1

/-- `struct _ts_lookup_request`, without its method. -/
structure LookupRequest where
  tokens : List CString
  limit : ℕ
  deriving DecidableEq

/-- `struct _ts_lookup_response`, without its method. -/
structure LookupResponse where
  total : ℕ
  docs : List Document

/-- `ts_lookup_response_init`. -/
def LookupResponse.init : LookupResponse := ⟨0, []⟩

/-- Where a call of `ts_engine_lookup` is. -/
inductive LookupPc
  /-- at the head of the loop -/
  | start
  /-- before `ts_atomic_incr` -/
  | fetched (seg : SegPtr)
  /-- before `ts_segment_lookup` -/
  | counted (seg : SegPtr)
  /-- before `ts_atomic_decr` -/
  | searched (seg : SegPtr)
  /-- before `seg = seg->next` -/
  | left (seg : SegPtr)
  /-- after `return` -/
  | returned (code : ℤ)
  deriving DecidableEq

/-- A call of `ts_engine_lookup`: its arguments, and its locals `limit` and `total`. -/
structure Lookup where
  request : LookupRequest
  response : LookupResponse
  limit : ℕ
  total : ℕ
  pc : LookupPc

namespace Segment

/-- The documents on the lists that `ts_segment_lookup` walks. -/
def walked (seg : Segment) : List CString → List DocPtr
  | [] => seg.docPtrs
  | term :: terms => (term :: terms).flatMap seg.posting

end Segment

namespace Lookup

/-- A call up to its first access to the engine.  `total` is not initialized. -/
def call (request : LookupRequest) (total : ℕ) : Lookup where
  request := request
  response := .init
  limit := request.limit
  total := total
  pc := if lookupMaxSize < request.limit then .returned errorCodeInvalidArgument else .start

/-- The test `el` of `DL_FOREACH`, on the pointer fetched. -/
def fetch (seg : Option SegPtr) (lk : Lookup) : Lookup :=
  match seg with
  | some seg => { lk with pc := .fetched seg }
  | none => { lk with pc := .returned errorCodeSuccess }

/-- The part of the loop body between the two atomic operations. -/
def search (e : PtrEngine) (seg : SegPtr) (lk : Lookup) : Except Fault Lookup :=
  let limit := subU32 lk.limit lk.response.docs.length
  let lk := { lk with request := { lk.request with limit := limit } }
  match (e.segs seg).lookup e.docs lk.request.tokens lk.request.limit .init lk.total with
  | none => .error .nullDereference
  | some (_, container, total) =>
      .ok { lk with
        total := total
        response := ⟨(lk.response.total + total) % 2 ^ 32,
          lk.response.docs ++ container.toList.map fun x => (e.docs x).clone⟩ }

/-- What follows `ts_atomic_decr` in the loop body. -/
def leave (seg : SegPtr) (lk : Lookup) : Lookup :=
  if lk.limit ≤ lk.response.docs.length then { lk with pc := .returned errorCodeSuccess }
  else { lk with pc := .left seg }

/-! ## What a step touches -/

/-- The segment of which the next step reads or writes a field. -/
def segment (lk : Lookup) : Option SegPtr :=
  match lk.pc with
  | .fetched seg | .counted seg | .searched seg | .left seg => some seg
  | .start | .returned _ => none

/-- The segment in which the call is counted. -/
def inside (lk : Lookup) : Option SegPtr :=
  match lk.pc with
  | .counted seg | .searched seg => some seg
  | .start | .fetched _ | .left _ | .returned _ => none

/-- The documents that the next step reads. -/
def reads (e : PtrEngine) (lk : Lookup) : List DocPtr :=
  match lk.pc with
  | .counted seg => (e.segs seg).walked lk.request.tokens
  | _ => []

/-- The next step touches a segment or a document that has been released. -/
def TouchesReleased (e : PtrEngine) (lk : Lookup) : Prop :=
  (∃ p ∈ lk.segment, p ∈ e.freedSegs) ∨ ∃ x ∈ lk.reads e, x ∈ e.freedDocs

instance (e : PtrEngine) (lk : Lookup) : Decidable (lk.TouchesReleased e) :=
  inferInstanceAs (Decidable ((∃ p ∈ lk.segment, p ∈ e.freedSegs) ∨ _))

/-- The next step, on the engine and on the call. -/
def step (e : PtrEngine) (lk : Lookup) : Except Fault (PtrEngine × Lookup) :=
  if lk.TouchesReleased e then .error .useAfterFree
  else
    match lk.pc with
    | .start => .ok (e, lk.fetch e.segments.head)
    | .fetched seg => .ok (e.lookupEnter seg, { lk with pc := .counted seg })
    | .counted seg => (lk.search e seg).map fun lk => (e, { lk with pc := .searched seg })
    | .searched seg => .ok (e.lookupLeave seg, lk.leave seg)
    | .left seg => .ok (e, lk.fetch (e.segments.next seg))
    | .returned _ => .ok (e, lk)

end Lookup

/-! ## The system -/

/-- The engine and the calls of `ts_engine_lookup`. -/
structure Service where
  engine : PtrEngine
  lookups : List Lookup

/-- A step of the input thread or of the merger, a new call, or a step of a call. -/
inductive ServiceAction
  | engine (a : Action)
  | request (request : LookupRequest) (total : ℕ)
  | lookup (i : ℕ)
  deriving DecidableEq

/-- The two steps that are part of a lookup. -/
def Action.isLookup : Action → Bool
  | .lookupEnter _ | .lookupLeave _ => true
  | _ => false

namespace Service

/-- The effect of a step. -/
def exec (cap : ℕ) : ServiceAction → Service → Except Fault Service
  | .engine a, s => (Engine.exec cap a s.engine).map fun e => { s with engine := e }
  | .request request total, s =>
      .ok { s with lookups := s.lookups ++ [.call request total] }
  | .lookup i, s =>
      match s.lookups[i]? with
      | none => .ok s
      | some lk => (lk.step s.engine).map fun r => ⟨r.1, s.lookups.set i r.2⟩

/-- The actions of the engine's threads in a history. -/
def engineActions (l : List (Service × ServiceAction)) : List Action :=
  l.filterMap fun q =>
    match q.2 with
    | .engine a => some a
    | _ => none

/-- When a step may be taken. -/
def Enabled (cap : ℕ) (as : List Action) (s : Service) : ServiceAction → Prop
  | .engine a => a.isLookup = false ∧ a.Enabled cap as s.engine
  | .request _ _ => True
  | .lookup i => i < s.lookups.length

instance (cap : ℕ) (as : List Action) (s : Service) (a : ServiceAction) :
    Decidable (s.Enabled cap as a) :=
  match a with
  | .engine a => inferInstanceAs (Decidable (a.isLookup = false ∧ a.Enabled cap as s.engine))
  | .request _ _ => inferInstanceAs (Decidable True)
  | .lookup i => inferInstanceAs (Decidable (i < s.lookups.length))

/-- No lookup is about to touch a segment or a document that has been released. -/
def Safe (s : Service) : Prop := ∀ lk ∈ s.lookups, ¬lk.TouchesReleased s.engine

instance (s : Service) : Decidable s.Safe :=
  inferInstanceAs (Decidable (∀ lk ∈ s.lookups, ¬lk.TouchesReleased s.engine))

end Service

/-- The service: the threads of the engine and the calls of its clients take turns in any order. -/
def serviceSystem (cap : ℕ) (heap : DocHeap) : System Service ServiceAction Fault where
  init := ⟨.new heap, []⟩
  enabled l s a := s.Enabled cap (Service.engineActions l) a
  exec := Service.exec cap

instance (cap : ℕ) (heap : DocHeap) (l : List (Service × ServiceAction)) (s : Service)
    (a : ServiceAction) : Decidable ((serviceSystem cap heap).enabled l s a) :=
  inferInstanceAs (Decidable (s.Enabled cap (Service.engineActions l) a))

/-! ## The windows -/

/-- The sources of the merge that are not yet freed. -/
def Merger.sources (merger : Merger) : List SegPtr := merger.mseg1.toList ++ merger.mseg2.toList

/-- The call holds a pointer to the segment and is not counted in it: it has not yet counted
itself in, or it has counted itself out and has yet to read the next pointer. -/
def Lookup.InWindow (lk : Lookup) (p : SegPtr) : Prop := lk.pc = .fetched p ∨ lk.pc = .left p

instance (lk : Lookup) (p : SegPtr) : Decidable (lk.InWindow p) :=
  inferInstanceAs (Decidable (_ ∨ _))

/-- A release that is due now meets no lookup that its counters do not show: no call is in one of
its windows at a source whose counter is zero, and the counter has not wrapped. -/
def Service.Guarded (s : Service) : Prop :=
  s.engine.merger.mergeStage = 3 → ∀ p ∈ s.engine.merger.sources,
    (s.engine.segs p).processes = 0 →
      (∀ lk ∈ s.lookups, ¬lk.InWindow p) ∧ (s.lookups.map Lookup.inside).count (some p) < 2 ^ 32

instance (s : Service) : Decidable s.Guarded :=
  inferInstanceAs (Decidable (_ → ∀ p ∈ s.engine.merger.sources, _))

end TsEngine
