import TsEngine.Framework.Heap
import TsEngine.Framework.LinkedCells
import TsEngine.Store.Growth

/-!
# Containers in memory (`docid.h`, `docid.c`)

The functions and macros of a doc-id container on its buckets, which lie in a heap and are linked by
their `next` pointers.  `Store/Docid` has the same operations on a list of buckets;
`Store/BucketSpecs` relates the two.

A read through a null pointer or of a bucket that has been freed is an error, and so is an access
outside the `size` slots of a bucket.  Loops run on a fuel, and running out of it is an error too.
-/

namespace TsEngine

open Framework

/-- The address of a bucket. -/
abbrev BucketPtr := ℕ

/-- `struct _ts_docid_bucket` without its `next`: a slot is null until it is written. -/
structure BucketData (α : Type) where
  size : ℕ
  offset : ℕ
  ids : List (Option α)

/-- The buckets that are allocated. -/
abbrev BucketMemory (α : Type) := Heap (Cell BucketPtr (BucketData α))

/-- `ts_docid_container_t`. -/
structure RawContainer where
  head : Option BucketPtr
  tail : Option BucketPtr
  allocSize : ℕ
  len : ℕ
  total : ℕ

/-- `ts_docid_container_iterator_t`. -/
structure RawIterator where
  bkt : Option BucketPtr
  offset : ℕ
  deriving DecidableEq

variable {α : Type}

namespace BucketMemory

/-- `ts_docid_bucket_new`. -/
def bucketNew (m : BucketMemory α) (size : ℕ) : BucketPtr × BucketMemory α :=
  (m.next, m.alloc ⟨⟨size, 0, List.replicate size none⟩, none⟩)

/-- `tail->next = bkt`. -/
def linkNext (m : BucketMemory α) (tail : Option BucketPtr) (bkt : BucketPtr) :
    Except HeapError (BucketMemory α) := do
  let (p, cell) ← m.deref tail
  return m.store p { cell with next := some bkt }

/-- `tail->ids[tail->offset] = docid`. -/
def storeId (m : BucketMemory α) (tail : Option BucketPtr) (docid : α) :
    Except HeapError (BucketMemory α) := do
  let (p, cell) ← m.deref tail
  if cell.data.offset < cell.data.ids.length then
    return m.store p { cell with
      data := { cell.data with ids := cell.data.ids.set cell.data.offset (some docid) } }
  else throw .outOfBounds

/-- `tail->offset++`. -/
def incrOffset (m : BucketMemory α) (tail : Option BucketPtr) :
    Except HeapError (BucketMemory α) := do
  let (p, cell) ← m.deref tail
  return m.store p { cell with
    data := { cell.data with offset := (cell.data.offset + 1) % 2 ^ 32 } }

/-- `bkt->ids[o]`. -/
def loadId (m : BucketMemory α) (bkt : Option BucketPtr) (o : ℕ) :
    Except HeapError (Option α) := do
  let (_, cell) ← m.deref bkt
  match cell.data.ids[o]? with
  | none => throw .outOfBounds
  | some id => return id

end BucketMemory

namespace RawContainer

/-! ## Appending -/

/-- `ts_docid_container_reserve`. -/
def reserve (c : RawContainer) (m : BucketMemory α) :
    Except HeapError (RawContainer × BucketMemory α) := do
  if c.len = 0 then
    let (bkt, m) := m.bucketNew c.allocSize
    return ({ c with head := some bkt, tail := some bkt, len := (c.len + 1) % 2 ^ 32 }, m)
  else
    let (_, tail) ← m.deref c.tail
    if 0 < subU32 tail.data.size tail.data.offset then return (c, m)
    else
      let c := { c with allocSize := (c.allocSize * 2) % 2 ^ 32 }
      let (bkt, m) := m.bucketNew c.allocSize
      let m ← m.linkNext c.tail bkt
      return ({ c with tail := some bkt, len := (c.len + 1) % 2 ^ 32 }, m)

/-- `ts_docid_container_init`. -/
def init (m : BucketMemory α) : Except HeapError (RawContainer × BucketMemory α) :=
  reserve ⟨none, none, bucketSize, 0, 0⟩ m

/-- `ts_docid_container_append`. -/
def append (c : RawContainer) (docid : α) (m : BucketMemory α) :
    Except HeapError (RawContainer × BucketMemory α) := do
  let (c, m) ← c.reserve m
  let m ← m.storeId c.tail docid
  let m ← m.incrOffset c.tail
  return ({ c with total := (c.total + 1) % 2 ^ 32 }, m)

/-! ## Destroying -/

/-- The loop `ts_docid_bucket_foreach` of `ts_docid_container_destroy`. -/
def destroyFrom : ℕ → Option BucketPtr → BucketMemory α → Except HeapError (BucketMemory α)
  | _, none, m => .ok m
  | 0, some _, _ => .error .outOfFuel
  | fuel + 1, some bkt, m => do
      let (p, cell) ← m.deref (some bkt)
      destroyFrom fuel cell.next (m.free p)

/-- `ts_docid_container_destroy`. -/
def destroy (c : RawContainer) (m : BucketMemory α) : Except HeapError (BucketMemory α) :=
  destroyFrom m.next c.head m

/-- `ts_docid_container_reset`. -/
def reset (c : RawContainer) (m : BucketMemory α) :
    Except HeapError (RawContainer × BucketMemory α) := do
  let m ← c.destroy m
  init m

/-! ## Walking -/

section

variable {σ : Type}
  (body : Option α → σ → BucketMemory α → Except HeapError (σ × BucketMemory α × Bool))

/-- The inner loop of `ts_docid_foreach`, from slot `o` on.  The body says whether it leaves the
loops. -/
def foreachSlot : ℕ → Option BucketPtr → ℕ → σ → BucketMemory α →
    Except HeapError (σ × BucketMemory α × Bool)
  | 0, _, _, _, _ => .error .outOfFuel
  | fuel + 1, bkt, o, s, m => do
      let (_, cell) ← m.deref bkt
      if o < cell.data.offset then
        let id ← m.loadId bkt o
        let (s, m, left) ← body id s m
        if left then return (s, m, true) else foreachSlot fuel bkt (o + 1) s m
      else return (s, m, false)

/-- The outer loop of `ts_docid_foreach`, which reads `next` before it goes through the slots. -/
def foreachBucket : ℕ → Option BucketPtr → σ → BucketMemory α →
    Except HeapError (σ × BucketMemory α × Bool)
  | _, none, s, m => .ok (s, m, false)
  | 0, some _, _, _ => .error .outOfFuel
  | fuel + 1, some bkt, s, m => do
      let (_, cell) ← m.deref (some bkt)
      let (s, m, left) ← foreachSlot body (cell.data.size + 1) (some bkt) 0 s m
      if left then return (s, m, true) else foreachBucket fuel cell.next s m

/-- `ts_docid_foreach`. -/
def foreach (c : RawContainer) (s : σ) (m : BucketMemory α) :
    Except HeapError (σ × BucketMemory α) := do
  let (s, m, _) ← foreachBucket body m.next c.head s m
  return (s, m)

end

/-- The pointers that `ts_docid_foreach` goes through. -/
def visited (c : RawContainer) (m : BucketMemory α) : Except HeapError (List (Option α)) := do
  let (ids, _) ← c.foreach (fun id ids m => .ok (ids ++ [id], m, false)) [] m
  return ids

/-- The body of the loop in `ts_docid_container_copy`. -/
def copySlot : Option α → RawContainer → BucketMemory α →
    Except HeapError (RawContainer × BucketMemory α × Bool)
  | none, _, _ => .error .nullDereference
  | some id, c, m => do
      let (c, m) ← c.append id m
      return (c, m, false)

/-- `ts_docid_container_copy(c, s)`. -/
def copy (c s : RawContainer) (m : BucketMemory α) :
    Except HeapError (RawContainer × BucketMemory α) :=
  s.foreach copySlot c m

end RawContainer

namespace RawIterator

/-- `ts_docid_container_iterator_init`. -/
def init (c : RawContainer) : RawIterator := ⟨c.head, 0⟩

/-- The bucket change at the start of `ts_docid_container_next`. -/
def advance (it : RawIterator) (m : BucketMemory α) : Except HeapError RawIterator :=
  match it.bkt with
  | none => .ok it
  | some bkt => do
      let (_, cell) ← m.deref (some bkt)
      if cell.data.offset ≤ it.offset then return ⟨cell.next, 0⟩ else return it

/-- `ts_docid_container_next`. -/
def next (it : RawIterator) (m : BucketMemory α) : Except HeapError (Option α × RawIterator) := do
  let it ← it.advance m
  match it.bkt with
  | none => return (none, it)
  | some bkt => do
      let id ← m.loadId (some bkt) it.offset
      return (id, { it with offset := (it.offset + 1) % 2 ^ 32 })

/-- `ts_docid_container_next` until it yields null. -/
def drain : ℕ → RawIterator → BucketMemory α → Except HeapError (List α)
  | 0, _, _ => .error .outOfFuel
  | fuel + 1, it, m => do
      let (id, it) ← it.next m
      match id with
      | none => return []
      | some id => do
          let ids ← drain fuel it m
          return id :: ids

end RawIterator

end TsEngine
