import TsEngine.Framework.Chains

/-!
# The hash tables (`lib/uthash.h`)

The uthash macros that the sources use, on explicit pointers: `HASH_FIND`, `HASH_ADD`, `HASH_DEL`,
`HASH_ITER` and `HASH_COUNT`, with the growth of the bucket array.  An element of a table is its
address; the fields of its hash handle are functions of it (`UtHashHandles`), so that elements of
several tables lie in one memory.

An element is on two doubly linked lists.  One has all elements of the table, in the order in which
they were added; the other one has those of its bucket.  The bucket array starts with 32 buckets and
doubles when an addition finds a bucket too full, until that has not helped twice in a row.

A key is compared as a whole, which is what the comparison of length and bytes comes to, and the
hash function is a parameter.  `mem` is the size of the largest block that `malloc` gives out, and
`n` bounds the steps of a walk along a chain.  Without `HASH_BLOOM` and `HASH_NONFATAL_OOM`, a
failed allocation exits.
-/

namespace TsEngine

open Framework

/-- What can go wrong in a macro; `outOfMemory` is `uthash_fatal`, and `oops` is `HASH_OOPS`. -/
inductive UthashError
  | nullDereference
  | useAfterFree
  | outOfBounds
  | outOfFuel
  | outOfMemory
  | oops
  deriving DecidableEq

/-- `UT_hash_bucket`. -/
structure UtHashBucket (α : Type) where
  hhHead : Option α
  count : UInt32
  expandMult : UInt32

/-- `UT_hash_table`. -/
structure UtHashTable (α : Type) where
  buckets : List (UtHashBucket α)
  numBuckets : UInt32
  log2NumBuckets : UInt32
  numItems : UInt32
  tail : Option α
  idealChainMaxlen : UInt32
  nonidealItems : UInt32
  ineffExpands : UInt32
  noexpand : UInt32

/-- The fields of `UT_hash_handle`, of every element. -/
structure UtHashHandles (α : Type) (κ : Type) where
  prev : α → Option α
  next : α → Option α
  hhPrev : α → Option α
  hhNext : α → Option α
  key : α → κ
  hashv : α → UInt32

/-- A table by its head pointer, with the table that the handles of its elements point at. -/
structure Uthash (α : Type) (κ : Type) extends UtHashHandles α κ where
  head : Option α
  tbl : Option (UtHashTable α)

/-- `uthash_malloc`, with the block left to its caller. -/
def uthashMalloc (mem size : ℕ) : Except UthashError Unit :=
  if size ≤ mem then .ok () else .error .outOfMemory

/-- `sizeof(UT_hash_bucket)`. -/
def sizeofUtHashBucket : ℕ := 16

/-- `sizeof(UT_hash_table)`. -/
def sizeofUtHashTable : ℕ := 64

/-- `HASH_INITIAL_NUM_BUCKETS`. -/
def hashInitialNumBuckets : UInt32 := 32

/-- `HASH_INITIAL_NUM_BUCKETS_LOG2`. -/
def hashInitialNumBucketsLog2 : UInt32 := 5

/-- `HASH_BKT_CAPACITY_THRESH`. -/
def hashBktCapacityThresh : UInt32 := 10

/-- `HASH_TO_BKT`. -/
def hashToBkt (hashv numBkts : UInt32) : ℕ := (hashv &&& (numBkts - 1)).toNat

/-! ## Hash values -/

/-- `HASH_JEN_MIX`. -/
def hashJenMix (a b c : UInt32) : UInt32 × UInt32 × UInt32 :=
  let a := (a - b - c) ^^^ (c >>> 13)
  let b := (b - c - a) ^^^ (a <<< 8)
  let c := (c - a - b) ^^^ (b >>> 13)
  let a := (a - b - c) ^^^ (c >>> 12)
  let b := (b - c - a) ^^^ (a <<< 16)
  let c := (c - a - b) ^^^ (b >>> 5)
  let a := (a - b - c) ^^^ (c >>> 3)
  let b := (b - c - a) ^^^ (a <<< 10)
  let c := (c - a - b) ^^^ (b >>> 15)
  (a, b, c)

/-- The byte of a key at an index, shifted; behind the end of the key there is nothing to add. -/
def hashJenByte (key : List UInt8) (i : ℕ) (shift : UInt32) : UInt32 :=
  (key.getD i 0).toUInt32 <<< shift

/-- The loop of `HASH_JEN` over blocks of twelve bytes, and its last round. -/
def hashJenFrom (keylen : ℕ) : List UInt8 → UInt32 → UInt32 → UInt32 → UInt32
  | k₀ :: k₁ :: k₂ :: k₃ :: k₄ :: k₅ :: k₆ :: k₇ :: k₈ :: k₉ :: k₁₀ :: k₁₁ :: key, i, j, hashv =>
      let i := i + (k₀.toUInt32 + (k₁.toUInt32 <<< 8) + (k₂.toUInt32 <<< 16) + (k₃.toUInt32 <<< 24))
      let j := j + (k₄.toUInt32 + (k₅.toUInt32 <<< 8) + (k₆.toUInt32 <<< 16) + (k₇.toUInt32 <<< 24))
      let hashv := hashv +
        (k₈.toUInt32 + (k₉.toUInt32 <<< 8) + (k₁₀.toUInt32 <<< 16) + (k₁₁.toUInt32 <<< 24))
      let (i, j, hashv) := hashJenMix i j hashv
      hashJenFrom keylen key i j hashv
  | key, i, j, hashv =>
      -- the cases of the switch fall through
      let hashv := hashv + UInt32.ofNat keylen +
        hashJenByte key 10 24 + hashJenByte key 9 16 + hashJenByte key 8 8
      let j := j + hashJenByte key 7 24 + hashJenByte key 6 16 + hashJenByte key 5 8 +
        hashJenByte key 4 0
      let i := i + hashJenByte key 3 24 + hashJenByte key 2 16 + hashJenByte key 1 8 +
        hashJenByte key 0 0
      (hashJenMix i j hashv).2.2

/-- `HASH_JEN`, which is `HASH_FCN`. -/
def hashJen (key : List UInt8) : UInt32 :=
  hashJenFrom key.length key 0x9e3779b9 0x9e3779b9 0xfeedbeef

/-- Buckets filled with zeros. -/
def zeroBuckets (α : Type) (num : ℕ) : List (UtHashBucket α) := List.replicate num ⟨none, 0, 0⟩

/-- `tbl->buckets[i]`. -/
def UtHashTable.bkt {α : Type} (tbl : UtHashTable α) (i : ℕ) :
    Except UthashError (UtHashBucket α) :=
  match tbl.buckets[i]? with
  | some b => .ok b
  | none => .error .outOfBounds

namespace Uthash

variable {α : Type} {κ : Type}

/-- A null head pointer. -/
def empty (handles : UtHashHandles α κ) : Uthash α κ := ⟨handles, none, none⟩

/-- Handles that hold zeros, for concrete runs. -/
def zeroHandles (k : κ) : UtHashHandles α κ :=
  ⟨fun _ => none, fun _ => none, fun _ => none, fun _ => none, fun _ => k, fun _ => 0⟩

/-- `(head)->hh.tbl`. -/
def headTbl (h : Uthash α κ) : Except UthashError (UtHashTable α) :=
  match h.head, h.tbl with
  | some _, some tbl => .ok tbl
  | some _, none => .error .useAfterFree
  | none, _ => .error .nullDereference

/-- `HASH_COUNT`. -/
def count (h : Uthash α κ) : Except UthashError UInt32 :=
  match h.head with
  | some _ => h.headTbl.map (·.numItems)
  | none => .ok 0

/-- `HASH_ITER`, with a body that leaves the table alone: the elements in the order of the walk. -/
def iter (h : Uthash α κ) : ℕ → Option α → Except UthashError (List α)
  | _, none => .ok []
  | 0, some _ => .error .outOfFuel
  | n + 1, some el => (iter h n (h.next el)).map (el :: ·)

/-! ## Finding -/

section Find

variable [DecidableEq κ]

/-- `HASH_FIND_IN_BKT`, from an element of the chain on. -/
def findInBkt (h : Uthash α κ) (k : κ) (hashval : UInt32) :
    ℕ → Option α → Except UthashError (Option α)
  | _, none => .ok none
  | 0, some _ => .error .outOfFuel
  | n + 1, some out =>
      if h.hashv out = hashval ∧ h.key out = k then .ok (some out)
      else findInBkt h k hashval n (h.hhNext out)

/-- `HASH_FIND`. -/
def hashFind (n : ℕ) (hash : κ → UInt32) (k : κ) (h : Uthash α κ) :
    Except UthashError (Option α) :=
  match h.head with
  | none => .ok none
  | some _ => do
      let tbl ← h.headTbl
      let bkt ← tbl.bkt (hashToBkt (hash k) tbl.numBuckets)
      findInBkt h k (hash k) n bkt.hhHead

end Find

/-! ## Adding -/

section Add

variable [DecidableEq α]

/-- The loop state of `HASH_EXPAND_BUCKETS`. -/
structure Rehash (α : Type) where
  newBuckets : List (UtHashBucket α)
  nonidealItems : UInt32
  hhPrev : α → Option α
  hhNext : α → Option α

/-- `_he_newbkt` after the new element has been counted. -/
def countNew (ideal : UInt32) (newbkt : UtHashBucket α) : UtHashBucket α :=
  let newbkt := { newbkt with count := newbkt.count + 1 }
  if ideal < newbkt.count ∧ newbkt.expandMult * ideal < newbkt.count then
    { newbkt with expandMult := newbkt.expandMult + 1 }
  else newbkt

/-- One turn of the inner loop of `HASH_EXPAND_BUCKETS`: the element goes to the front of its new
bucket. -/
def rehashOne (hashv : α → UInt32) (num ideal : UInt32) (thh : α) (r : Rehash α) :
    Except UthashError (Rehash α) :=
  let bkt := hashToBkt (hashv thh) num
  match r.newBuckets[bkt]? with
  | none => .error .outOfBounds
  | some newbkt =>
      .ok {
        newBuckets := r.newBuckets.set bkt { countNew ideal newbkt with hhHead := some thh }
        nonidealItems := if ideal < newbkt.count + 1 then r.nonidealItems + 1 else r.nonidealItems
        hhNext := Function.update r.hhNext thh newbkt.hhHead
        hhPrev := setAt (Function.update r.hhPrev thh none) newbkt.hhHead (some thh) }

/-- The inner loop of `HASH_EXPAND_BUCKETS`. -/
def rehashChain (hashv : α → UInt32) (num ideal : UInt32) :
    ℕ → Option α → Rehash α → Except UthashError (Rehash α)
  | _, none, r => .ok r
  | 0, some _, _ => .error .outOfFuel
  | n + 1, some thh, r => do
      let nxt := r.hhNext thh
      let r ← rehashOne hashv num ideal thh r
      rehashChain hashv num ideal n nxt r

/-- `tbl->ideal_chain_maxlen` as an expansion sets it. -/
def idealChainMaxlen (tbl : UtHashTable α) : UInt32 :=
  (tbl.numItems >>> (tbl.log2NumBuckets + 1)) +
    if tbl.numItems &&& (tbl.numBuckets * 2 - 1) ≠ 0 then 1 else 0

/-- The two loops of `HASH_EXPAND_BUCKETS`, from buckets filled with zeros. -/
def rehashAll (n : ℕ) (tbl : UtHashTable α) (h : Uthash α κ) : Except UthashError (Rehash α) :=
  (List.range tbl.numBuckets.toNat).foldlM (fun r i => do
    let bkt ← tbl.bkt i
    rehashChain h.hashv (tbl.numBuckets * 2) (idealChainMaxlen tbl) n bkt.hhHead r)
    ⟨zeroBuckets α (2 * tbl.numBuckets.toNat), 0, h.hhPrev, h.hhNext⟩

/-- The table as `HASH_EXPAND_BUCKETS` leaves it. -/
def expanded (tbl : UtHashTable α) (r : Rehash α) : UtHashTable α :=
  let ineffExpands := if tbl.numItems >>> 1 < r.nonidealItems then tbl.ineffExpands + 1 else 0
  { tbl with
    buckets := r.newBuckets
    numBuckets := tbl.numBuckets * 2
    log2NumBuckets := tbl.log2NumBuckets + 1
    idealChainMaxlen := idealChainMaxlen tbl
    nonidealItems := r.nonidealItems
    ineffExpands := ineffExpands
    noexpand := if 1 < ineffExpands then 1 else tbl.noexpand }

/-- `HASH_EXPAND_BUCKETS`. -/
def expandBuckets (n mem : ℕ) (h : Uthash α κ) : Except UthashError (Uthash α κ) := do
  let tbl ← h.headTbl
  uthashMalloc mem (2 * tbl.numBuckets.toNat * sizeofUtHashBucket)
  let r ← rehashAll n tbl h
  return { h with
    hhPrev := r.hhPrev
    hhNext := r.hhNext
    tbl := some (expanded tbl r) }

/-- An element goes to the front of a bucket. -/
def pushInBkt (bkt : ℕ) (add : α) (tbl : UtHashTable α) (head : UtHashBucket α) (h : Uthash α κ) :
    Uthash α κ :=
  { h with
    hhNext := Function.update h.hhNext add head.hhHead
    hhPrev := setAt (Function.update h.hhPrev add none) head.hhHead (some add)
    tbl := some { tbl with
      buckets := tbl.buckets.set bkt { head with hhHead := some add, count := head.count + 1 } } }

/-- `HASH_ADD_TO_BKT`. -/
def addToBkt (n mem bkt : ℕ) (add : α) (h : Uthash α κ) : Except UthashError (Uthash α κ) := do
  let tbl ← h.headTbl
  let head ← tbl.bkt bkt
  let h := pushInBkt bkt add tbl head h
  if (head.expandMult + 1) * hashBktCapacityThresh ≤ head.count + 1 ∧ tbl.noexpand = 0 then
    expandBuckets n mem h
  else return h

/-- `HASH_ADD_TO_TABLE`. -/
def addToTable (n mem : ℕ) (hashval : UInt32) (add : α) (h : Uthash α κ) :
    Except UthashError (Uthash α κ) := do
  let tbl ← h.headTbl
  addToBkt n mem (hashToBkt hashval tbl.numBuckets) add
    { h with tbl := some { tbl with numItems := tbl.numItems + 1 } }

/-- The table that `HASH_MAKE_TABLE` fills in. -/
def newTable (add : α) : UtHashTable α where
  buckets := zeroBuckets α hashInitialNumBuckets.toNat
  numBuckets := hashInitialNumBuckets
  log2NumBuckets := hashInitialNumBucketsLog2
  numItems := 0
  tail := some add
  idealChainMaxlen := 0
  nonidealItems := 0
  ineffExpands := 0
  noexpand := 0

/-- `HASH_MAKE_TABLE`. -/
def makeTable (mem : ℕ) (add : α) : Except UthashError (UtHashTable α) := do
  uthashMalloc mem sizeofUtHashTable
  uthashMalloc mem (hashInitialNumBuckets.toNat * sizeofUtHashBucket)
  return newTable add

/-- `HASH_APPEND_LIST`. -/
def appendList (add : α) (h : Uthash α κ) : Except UthashError (Uthash α κ) := do
  let tbl ← h.headTbl
  match tbl.tail with
  | none => .error .nullDereference
  | some tail => .ok { h with
      next := Function.update (Function.update h.next add none) tail (some add)
      prev := Function.update h.prev add (some tail)
      tbl := some { tbl with tail := some add } }

/-- The part of `HASH_ADD` that is about the list of all elements: the first one makes the table. -/
def hashAddList (mem : ℕ) (add : α) (h : Uthash α κ) : Except UthashError (Uthash α κ) :=
  match h.head with
  | none => do
      let tbl ← makeTable mem add
      return { h with
        next := Function.update h.next add none
        prev := Function.update h.prev add none
        tbl := some tbl
        head := some add }
  | some _ => appendList add h

/-- `HASH_ADD` of an element with a key. -/
def hashAdd (n mem : ℕ) (hash : κ → UInt32) (k : κ) (add : α) (h : Uthash α κ) :
    Except UthashError (Uthash α κ) := do
  let h ← hashAddList mem add { h with
    hashv := Function.update h.hashv add (hash k)
    key := Function.update h.key add k }
  addToTable n mem (hash k) add h

end Add

/-! ## Deleting -/

section Delete

variable [DecidableEq α]

/-- An element is taken out of a bucket. -/
def takeFromBkt (bkt : ℕ) (del : α) (tbl : UtHashTable α) (head : UtHashBucket α)
    (h : Uthash α κ) : Uthash α κ :=
  { h with
    hhNext := setAt h.hhNext (h.hhPrev del) (h.hhNext del)
    hhPrev := setAt h.hhPrev (h.hhNext del) (h.hhPrev del)
    tbl := some { tbl with
      buckets := tbl.buckets.set bkt { head with
        count := head.count - 1
        hhHead := if head.hhHead = some del then h.hhNext del else head.hhHead } } }

/-- `HASH_DEL_IN_BKT`. -/
def delInBkt (bkt : ℕ) (del : α) (h : Uthash α κ) : Except UthashError (Uthash α κ) := do
  let tbl ← h.headTbl
  let head ← tbl.bkt bkt
  return takeFromBkt bkt del tbl head h

/-- The part of `HASH_DELETE` that is about the list of all elements, and the count. -/
def hashDelList (del : α) (tbl : UtHashTable α) (h : Uthash α κ) : Uthash α κ :=
  { h with
    next := setAt h.next (h.prev del) (h.next del)
    prev := setAt h.prev (h.next del) (h.prev del)
    head := if h.prev del = none then h.next del else h.head
    tbl := some { tbl with
      tail := if tbl.tail = some del then h.prev del else tbl.tail
      numItems := tbl.numItems - 1 } }

/-- `HASH_DELETE`. -/
def hashDelete (del : α) (h : Uthash α κ) : Except UthashError (Uthash α κ) := do
  let tbl ← h.headTbl
  if h.prev del = none ∧ h.next del = none then return { h with head := none, tbl := none }
  else delInBkt (hashToBkt (h.hashv del) tbl.numBuckets) del (hashDelList del tbl h)

end Delete

/-! ## Checking -/

section Check

variable [DecidableEq α]

/-- A walk of `HASH_FSCK`: the number of elements of a chain, if they all point back. -/
def fsckWalk (next prev : α → Option α) : ℕ → Option α → Option α → Except UthashError UInt32
  | _, _, none => .ok 0
  | 0, _, some _ => .error .outOfFuel
  | n + 1, before, some thh =>
      if prev thh = before then
        (fsckWalk next prev n (some thh) (next thh)).map (· + 1)
      else .error .oops

/-- One turn of the loop of `HASH_FSCK` over the buckets. -/
def fsckBkt (n : ℕ) (tbl : UtHashTable α) (h : Uthash α κ) (count : UInt32) (i : ℕ) :
    Except UthashError UInt32 := do
  let bkt ← tbl.bkt i
  let bktCount ← fsckWalk h.hhNext h.hhPrev n none bkt.hhHead
  if bkt.count = bktCount then .ok (count + bktCount) else .error .oops

/-- `HASH_FSCK`. -/
def hashFsck (n : ℕ) (h : Uthash α κ) : Except UthashError Unit :=
  match h.head with
  | none => .ok ()
  | some _ => do
      let tbl ← h.headTbl
      let count ← (List.range tbl.numBuckets.toNat).foldlM (fsckBkt n tbl h) 0
      if count = tbl.numItems then
        let count ← fsckWalk h.next h.prev n none h.head
        if count = tbl.numItems then .ok () else .error .oops
      else .error .oops

end Check

end Uthash

end TsEngine
