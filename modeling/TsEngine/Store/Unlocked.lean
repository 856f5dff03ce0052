import TsEngine.Framework.Runs
import TsEngine.Store.Buckets

/-!
# Containers that are read without a lock

The input thread appends to a container while a lookup goes through it.  Here a call of
`ts_docid_container_append` is taken apart at its stores to shared memory, and a traversal at its
loads: either `ts_docid_foreach`, or `ts_docid_container_next` until it yields null.
`unlockedSystem` lets one of each take turns, on a memory that is sequentially consistent.

Without a turn of the other thread, the steps of a call are the call (`AppendPc.runs_append`,
`ReaderPc.runs_next`).
-/

namespace TsEngine

open Framework System

variable {α : Type}

/-! ## Appending -/

/-- Where a call of `ts_docid_container_append` is: before the step named. -/
inductive AppendPc
  /-- the branches of `ts_docid_container_reserve` -/
  | reserve
  /-- `container->alloc_size <<= 1` -/
  | doubleSize
  /-- `ts_docid_bucket_new`, of a first bucket or of another -/
  | bucketNew (first : Bool)
  /-- `container->head = bkt` or `container->tail->next = bkt` -/
  | link (first : Bool) (bkt : BucketPtr)
  /-- `container->tail = bkt` -/
  | setTail (bkt : BucketPtr)
  /-- `container->len++` -/
  | incrLen
  /-- `container->tail->ids[container->tail->offset] = docid` -/
  | storeId
  /-- `container->tail->offset++` -/
  | incrOffset
  /-- `container->total++` -/
  | incrTotal
  deriving DecidableEq

/-- A step of a call, and where the call is then: `none` once it has returned. -/
def AppendPc.exec (docid : α) : AppendPc → RawContainer → BucketMemory α →
    Except HeapError (Option AppendPc × RawContainer × BucketMemory α)
  | .reserve, c, m =>
      if c.len = 0 then return (some (.bucketNew true), c, m)
      else do
        let (_, tail) ← m.deref c.tail
        return (if 0 < subU32 tail.data.size tail.data.offset then some .storeId
          else some .doubleSize, c, m)
  | .doubleSize, c, m =>
      return (some (.bucketNew false), { c with allocSize := (c.allocSize * 2) % 2 ^ 32 }, m)
  | .bucketNew first, c, m =>
      let (bkt, m) := m.bucketNew c.allocSize
      return (some (.link first bkt), c, m)
  | .link true bkt, c, m => return (some (.setTail bkt), { c with head := some bkt }, m)
  | .link false bkt, c, m => do
      let m ← m.linkNext c.tail bkt
      return (some (.setTail bkt), c, m)
  | .setTail bkt, c, m => return (some .incrLen, { c with tail := some bkt }, m)
  | .incrLen, c, m => return (some .storeId, { c with len := (c.len + 1) % 2 ^ 32 }, m)
  | .storeId, c, m => do
      let m ← m.storeId c.tail docid
      return (some .incrOffset, c, m)
  | .incrOffset, c, m => do
      let m ← m.incrOffset c.tail
      return (some .incrTotal, c, m)
  | .incrTotal, c, m => return (none, { c with total := (c.total + 1) % 2 ^ 32 }, m)

/-- The rest of a call that is not interrupted, of at most so many steps. -/
def AppendPc.runs (docid : α) : ℕ → Option AppendPc → RawContainer → BucketMemory α →
    Except HeapError (RawContainer × BucketMemory α)
  | _, none, c, m => .ok (c, m)
  | 0, some _, _, _ => .error .outOfFuel
  | fuel + 1, some pc, c, m => do
      let (pc, c, m) ← pc.exec docid c m
      runs docid fuel pc c m

/-- The end of a call, once there is a slot. -/
lemma AppendPc.runs_storeId (docid : α) (fuel : ℕ) (c : RawContainer) (m : BucketMemory α) :
    AppendPc.runs docid (fuel + 3) (some .storeId) c m = (do
      let m ← m.storeId c.tail docid
      let m ← m.incrOffset c.tail
      return ({ c with total := (c.total + 1) % 2 ^ 32 }, m)) := by
  cases hstore : m.storeId c.tail docid with
  | error e => simp [AppendPc.runs, AppendPc.exec, bind, Except.bind, hstore]
  | ok m₁ =>
      cases hincr : m₁.incrOffset c.tail <;>
        simp [AppendPc.runs, AppendPc.exec, bind, Except.bind, pure, Except.pure, hstore, hincr]

/-- A call that is not interrupted is `ts_docid_container_append`. -/
lemma AppendPc.runs_append (docid : α) (c : RawContainer) (m : BucketMemory α) :
    AppendPc.runs docid 9 (some .reserve) c m = c.append docid m := by
  rw [AppendPc.runs, RawContainer.append, RawContainer.reserve, AppendPc.exec]
  by_cases hlen : c.len = 0
  · rw [if_pos hlen, if_pos hlen]
    exact AppendPc.runs_storeId docid 1 _ _
  · rw [if_neg hlen, if_neg hlen]
    cases m.deref c.tail with
    | error e => rfl
    | ok tail =>
        by_cases hfree : 0 < subU32 tail.2.data.size tail.2.data.offset
        · simp only [bind, Except.bind, pure, Except.pure, if_pos hfree]
          exact AppendPc.runs_storeId docid 5 _ _
        · simp only [bind, Except.bind, pure, Except.pure, if_neg hfree]
          simp only [AppendPc.runs, AppendPc.exec, bind, Except.bind, pure, Except.pure]
          cases (m.bucketNew ((c.allocSize * 2) % 2 ^ 32)).2.linkNext c.tail
            (m.bucketNew ((c.allocSize * 2) % 2 ^ 32)).1 with
          | error e => rfl
          | ok m₁ => exact AppendPc.runs_storeId docid 0 _ _

/-! ## Traversing -/

/-- The two ways through a container. -/
inductive Traversal
  | foreach
  | next
  deriving DecidableEq

/-- Where a traversal is. -/
inductive ReaderPc
  /-- before it starts -/
  | ready
  /-- at `__bkt && (__tmp = __bkt->next, 1)` -/
  | foreachBucket (bkt : Option BucketPtr)
  /-- at `__o < __bkt->offset` -/
  | foreachOffset (bkt tmp : Option BucketPtr) (o : ℕ)
  /-- at `i = __bkt->ids[__o]` -/
  | foreachId (bkt tmp : Option BucketPtr) (o : ℕ)
  /-- at `i->bkt && i->offset >= i->bkt->offset` -/
  | nextOffset (it : RawIterator)
  /-- at `i->bkt = i->bkt->next` -/
  | nextBucket (it : RawIterator)
  /-- at `i->bkt == NULL ? NULL : i->bkt->ids[i->offset++]` -/
  | nextId (it : RawIterator)
  /-- at its end -/
  | finished
  deriving DecidableEq

namespace ReaderPc

/-- The first load of a traversal, of the head. -/
def start (kind : Traversal) (c : RawContainer) : ReaderPc :=
  match kind with
  | .foreach => .foreachBucket c.head
  | .next => .nextOffset (.init c)

/-- A step of a traversal: where it is then, and the pointer it obtains, if any.  The traversal with
`ts_docid_container_next` ends with the null that it yields. -/
def exec : ReaderPc → BucketMemory α → Except HeapError (ReaderPc × Option (Option α))
  | .ready, _ => return (.ready, none)
  | .foreachBucket none, _ => return (.finished, none)
  | .foreachBucket (some bkt), m => do
      let (_, cell) ← m.deref (some bkt)
      return (.foreachOffset (some bkt) cell.next 0, none)
  | .foreachOffset bkt tmp o, m => do
      let (_, cell) ← m.deref bkt
      return (if o < cell.data.offset then .foreachId bkt tmp o else .foreachBucket tmp, none)
  | .foreachId bkt tmp o, m => do
      let id ← m.loadId bkt o
      return (.foreachOffset bkt tmp ((o + 1) % 2 ^ 32), some id)
  | .nextOffset ⟨none, o⟩, _ => return (.nextId ⟨none, o⟩, none)
  | .nextOffset ⟨some bkt, o⟩, m => do
      let (_, cell) ← m.deref (some bkt)
      return (if cell.data.offset ≤ o then .nextBucket ⟨some bkt, o⟩ else .nextId ⟨some bkt, o⟩,
        none)
  | .nextBucket it, m => do
      let (_, cell) ← m.deref it.bkt
      return (.nextId ⟨cell.next, 0⟩, none)
  | .nextId ⟨none, _⟩, _ => return (.finished, none)
  | .nextId ⟨some bkt, o⟩, m => do
      match ← m.loadId (some bkt) o with
      | none => return (.finished, none)
      | some id => return (.nextOffset ⟨some bkt, (o + 1) % 2 ^ 32⟩, some (some id))
  | .finished, _ => return (.finished, none)

end ReaderPc

/-- The steps up to the next pointer, at most so many, if they are not interrupted. -/
def ReaderPc.runs : ℕ → ReaderPc → BucketMemory α → Except HeapError (Option α × ReaderPc)
  | 0, _, _ => .error .outOfFuel
  | fuel + 1, pc, m => do
      match ← pc.exec m with
      | (pc, some id) => return (id, pc)
      | (.finished, none) => return (none, .finished)
      | (pc, none) => runs fuel pc m

/-- Steps that are not interrupted are `ts_docid_container_next`. -/
lemma ReaderPc.runs_next (it : RawIterator) (m : BucketMemory α) :
    ReaderPc.runs 3 (.nextOffset it) m =
      (it.next m).map fun r => (r.1, if r.1.isSome then .nextOffset r.2 else .finished) := by
  obtain ⟨bkt | bkt, o⟩ := it
  · rfl
  have hload : ∀ fuel (bkt : BucketPtr) (o : ℕ),
      ReaderPc.runs (fuel + 1) (.nextId ⟨some bkt, o⟩) m = (m.loadId (some bkt) o).map fun id =>
        (id, if id.isSome then .nextOffset ⟨some bkt, (o + 1) % 2 ^ 32⟩ else .finished) := by
    intro fuel bkt o
    rw [ReaderPc.runs, ReaderPc.exec]
    cases m.loadId (some bkt) o with
    | error e => rfl
    | ok id => cases id <;> rfl
  cases hcell : m.deref (some bkt) with
  | error e =>
      simp [ReaderPc.runs, ReaderPc.exec, RawIterator.next, RawIterator.advance, hcell, bind,
        Except.bind, Except.map]
  | ok cell =>
      obtain ⟨p, data, next⟩ := cell
      by_cases hend : data.offset ≤ o
      · cases next with
        | none =>
            simp [ReaderPc.runs, ReaderPc.exec, RawIterator.next, RawIterator.advance, hcell, hend,
              bind, Except.bind, pure, Except.pure, Except.map]
        | some next =>
            have hruns : ReaderPc.runs 3 (.nextOffset ⟨some bkt, o⟩) m =
                ReaderPc.runs 1 (.nextId ⟨some next, 0⟩) m := by
              simp [ReaderPc.runs, ReaderPc.exec, hcell, hend, bind, Except.bind, pure, Except.pure]
            rw [hruns, hload]
            simp only [RawIterator.next, RawIterator.advance, hcell, if_pos hend, bind, Except.bind,
              pure, Except.pure]
            cases m.loadId (some next) 0 <;> rfl
      · have hruns : ReaderPc.runs 3 (.nextOffset ⟨some bkt, o⟩) m =
            ReaderPc.runs 2 (.nextId ⟨some bkt, o⟩) m := by
          simp [ReaderPc.runs, ReaderPc.exec, hcell, hend, bind, Except.bind, pure, Except.pure]
        rw [hruns, hload]
        simp only [RawIterator.next, RawIterator.advance, hcell, if_neg hend, bind, Except.bind,
          pure, Except.pure]
        cases m.loadId (some bkt) o <;> rfl

/-! ## The two threads -/

/-- A container and its memory, the call of the appender, and the reader with the pointers that it
has obtained. -/
structure Unlocked (α : Type) where
  container : RawContainer
  mem : BucketMemory α
  appending : Option (α × AppendPc)
  reader : ReaderPc
  obtained : List (Option α)

/-- The steps of the two threads. -/
inductive UnlockedStep (α : Type)
  /-- The appender calls `ts_docid_container_append`. -/
  | call (docid : α)
  /-- A step of the appender's call. -/
  | append
  /-- The reader loads the head. -/
  | start (kind : Traversal)
  /-- A step of the reader. -/
  | read

namespace Unlocked

/-- Neither thread has begun. -/
def init (c : RawContainer) (m : BucketMemory α) : Unlocked α := ⟨c, m, none, .ready, []⟩

/-- The effect of a step. -/
def exec : UnlockedStep α → Unlocked α → Except HeapError (Unlocked α)
  | .call docid, s => return { s with appending := some (docid, .reserve) }
  | .append, s =>
      match s.appending with
      | none => return s
      | some (docid, pc) => do
          let (pc, container, mem) ← pc.exec docid s.container s.mem
          return { s with container, mem, appending := pc.map (Prod.mk docid) }
  | .start kind, s => return { s with reader := .start kind s.container }
  | .read, s => do
      let (reader, id) ← s.reader.exec s.mem
      return { s with reader, obtained := s.obtained ++ id.toList }

/-- When a step may be taken. -/
def Enabled (s : Unlocked α) : UnlockedStep α → Prop
  | .call _ => s.appending.isNone
  | .append => s.appending.isSome
  | .start _ => s.reader = .ready
  | .read => s.reader ≠ .ready ∧ s.reader ≠ .finished

instance (s : Unlocked α) (a : UnlockedStep α) : Decidable (s.Enabled a) :=
  match a with
  | .call _ => inferInstanceAs (Decidable (_ = _))
  | .append => inferInstanceAs (Decidable (_ = _))
  | .start _ => inferInstanceAs (Decidable (s.reader = _))
  | .read => inferInstanceAs (Decidable (s.reader ≠ _ ∧ s.reader ≠ _))

end Unlocked

/-- One appender and one reader, taking turns in any order. -/
def unlockedSystem (c : RawContainer) (m : BucketMemory α) :
    System (Unlocked α) (UnlockedStep α) HeapError where
  init := .init c m
  enabled _ s a := s.Enabled a
  exec := Unlocked.exec

instance (c : RawContainer) (m : BucketMemory α) (l : List (Unlocked α × UnlockedStep α))
    (s : Unlocked α) (a : UnlockedStep α) : Decidable ((unlockedSystem c m).enabled l s a) :=
  inferInstanceAs (Decidable (s.Enabled a))

end TsEngine
