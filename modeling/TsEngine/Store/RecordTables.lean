import TsEngine.Framework.Heap
import TsEngine.Store.UthashTable

/-!
# Records in a hash table

A record carries its hash handle, so the elements of a table are the addresses of records.
`RecordTable` puts the two together: a hash table, and the heap that its records are in.  Looking a
record up by its key, adding one if there is none, and writing through a pointer that a lookup has
returned are what the sources do with their tables.

`RecordTable.Holds` relates such a table to its records in the order of a walk, each with its
address.  Under it the operations are those of `Framework/Keyed`, and they do not fail, except for
want of memory.
-/

namespace TsEngine

open Framework

/-- A hash table of records. -/
structure RecordTable (β κ : Type) where
  table : Uthash ℕ κ
  records : Heap β

namespace RecordTable

variable {β κ : Type}

/-- No table, and no records. -/
def empty (handles : UtHashHandles ℕ κ) : RecordTable β κ := ⟨.empty handles, .empty⟩

/-- `*p`. -/
def load (p : ℕ) (r : RecordTable β κ) : Except UthashError β :=
  match r.records.cells p with
  | some x => .ok x
  | none => .error .useAfterFree

/-- The records that `HASH_ITER` meets. -/
def walk (n : ℕ) (r : RecordTable β κ) : Except UthashError (List β) := do
  let ps ← r.table.iter n r.table.head
  ps.mapM r.load

/-- A write through a pointer. -/
def modify (p : ℕ) (f : β → β) (r : RecordTable β κ) : Except UthashError (RecordTable β κ) := do
  let x ← r.load p
  return { r with records := r.records.store p (f x) }

/-! ## What a table holds -/

/-- The records of a table with their addresses, in the order of a walk. -/
structure Holds (hash : κ → UInt32) (key : β → κ) (r : RecordTable β κ) (ps : List (ℕ × β)) :
    Prop where
  table : r.table.Represents hash (ps.map fun p => (key p.2, p.1))
  live : ∀ p ∈ ps, r.records.cells p.1 = some p.2

variable {n mem : ℕ} {hash : κ → UInt32} {key : β → κ} {r : RecordTable β κ} {ps : List (ℕ × β)}
  {k : κ} {new x : β} {p : ℕ}

lemma holds_empty (handles : UtHashHandles ℕ κ) : Holds hash key (empty handles) [] :=
  ⟨Uthash.represents_empty handles, by simp⟩

namespace Holds

lemma addresses (key : β → κ) (ps : List (ℕ × β)) :
    (ps.map fun p => (key p.2, p.1)).map Prod.snd = ps.map Prod.fst := by
  rw [List.map_map]
  rfl

lemma keys (key : β → κ) (ps : List (ℕ × β)) :
    (ps.map fun p => (key p.2, p.1)).map Prod.fst = (ps.map Prod.snd).map key := by
  rw [List.map_map, List.map_map]
  rfl

lemma nodup (h : Holds hash key r ps) : (ps.map Prod.fst).Nodup :=
  addresses key ps ▸ h.table.app.nodup

lemma wf (h : Holds hash key r ps) : Keyed.Wf key (ps.map Prod.snd) := by
  have hwf := h.table.wf
  rwa [Keyed.Wf, keys] at hwf

lemma lt_next (h : Holds hash key r ps) {q : ℕ × β} (hq : q ∈ ps) : q.1 < r.records.next :=
  Heap.lt_next (by simp [h.live q hq])

/-- **A walk** meets the records. -/
lemma walk_eq (h : Holds hash key r ps) (hn : ps.length ≤ n) :
    r.walk n = .ok (ps.map Prod.snd) := by
  have hmap : (ps.map Prod.fst).mapM r.load = .ok (ps.map Prod.snd) := by
    have hlive := h.live
    clear h hn
    induction ps with
    | nil => rfl
    | cons q qs ih =>
        rw [List.forall_mem_cons] at hlive
        rw [List.map_cons, List.mapM_cons, load, hlive.1, ih hlive.2]
        rfl
  rw [walk, h.table.iter_eq (by simpa using hn), addresses]
  exact hmap

/-- A record is what its address leads to. -/
lemma load_eq (h : Holds hash key r ps) {q : ℕ × β} (hq : q ∈ ps) : r.load q.1 = .ok q.2 := by
  rw [load, h.live q hq]

end Holds

/-! ## Keyed operations -/

section Operations

variable [DecidableEq κ] (n mem : ℕ) (hash : κ → UInt32)

/-- `HASH_FIND`. -/
def find (k : κ) (r : RecordTable β κ) : Except UthashError (Option ℕ) :=
  r.table.hashFind n hash k

/-- `HASH_FIND`, and `HASH_ADD` of a new record if there is none: the record, and whether it is
new. -/
def getOrNew (k : κ) (new : β) (r : RecordTable β κ) :
    Except UthashError (ℕ × Bool × RecordTable β κ) := do
  match ← r.find n hash k with
  | some p => return (p, false, r)
  | none =>
      let p := r.records.next
      let table ← r.table.hashAdd n mem hash k p
      return (p, true, ⟨table, r.records.alloc new⟩)

end Operations

variable [DecidableEq κ]

lemma keyed_find (key : β → κ) (ps : List (ℕ × β)) (k : κ) :
    Keyed.find key (ps.map Prod.snd) k = (ps.find? fun p => key p.2 = k).map Prod.snd := by
  rw [Keyed.find, List.find?_map]
  rfl

namespace Holds

/-- **`HASH_FIND`** returns the address of the record with the key. -/
lemma find_eq (h : Holds hash key r ps) (hn : ps.length ≤ n) (k : κ) :
    r.find n hash k = .ok ((ps.find? fun p => key p.2 = k).map Prod.fst) := by
  rw [find, h.table.hashFind_eq (by simpa using hn), Keyed.find, List.find?_map, Option.map_map]
  rfl

/-- **Get or add.** -/
lemma getOrNew (h : Holds hash key r ps) (hmem : mem < 2 ^ 36) (hn : ps.length + 1 ≤ n)
    (hnew : key new = k) :
    r.getOrNew n mem hash k new = .error .outOfMemory ∨
      ∃ p r' ps', r.getOrNew n mem hash k new =
          .ok (p, (Keyed.find key (ps.map Prod.snd) k).isNone, r') ∧ Holds hash key r' ps' ∧
        ps'.map Prod.snd = Keyed.findOrAdd key (ps.map Prod.snd) k new ∧
        (∃ x, (p, x) ∈ ps' ∧ key x = k) ∧ ps'.length ≤ ps.length + 1 := by
  rw [RecordTable.getOrNew, h.find_eq (by omega)]
  have hkeyed := keyed_find key ps k
  cases hfind : ps.find? fun p => key p.2 = k with
  | some q =>
      rw [hfind] at hkeyed
      have hq := List.mem_of_find?_eq_some hfind
      refine .inr ⟨q.1, r, ps, by rw [hkeyed]; rfl, h, ?_,
        ⟨q.2, hq, by simpa using List.find?_some hfind⟩, by omega⟩
      rw [Keyed.findOrAdd, hkeyed]
      rfl
  | none =>
      rw [hfind] at hkeyed
      have hk : k ∉ (ps.map fun p => (key p.2, p.1)).map Prod.fst := by
        rw [keys]
        intro hmem'
        obtain ⟨x, hx, rfl⟩ := List.mem_map.mp hmem'
        exact Keyed.find_eq_none.mp hkeyed x hx rfl
      have hp : r.records.next ∉ (ps.map fun p => (key p.2, p.1)).map Prod.snd := by
        rw [addresses]
        intro hmem'
        obtain ⟨q, hq, he⟩ := List.mem_map.mp hmem'
        exact (h.lt_next hq).ne he
      rcases h.table.hashAdd hmem hk hp (by simpa using hn) with herr | ⟨table, hadd, hrep, -⟩
      · exact .inl (by simp only [Option.map_none, bind, Except.bind, herr])
      · refine .inr ⟨r.records.next, ⟨table, r.records.alloc new⟩, ps ++ [(r.records.next, new)],
          by simp only [hkeyed, Option.map_none, bind, Except.bind, hadd]; rfl, ⟨?_, ?_⟩, ?_,
          ⟨new, by simp, hnew⟩, by simp⟩
        · rw [List.map_append, List.map_singleton, hnew]
          exact hrep
        · refine List.forall_mem_append.mpr ⟨fun q hq => ?_, List.forall_mem_singleton.mpr ?_⟩
          · rw [Heap.cells_alloc_of_ne _ (h.lt_next hq).ne]
            exact h.live q hq
          · exact Heap.cells_alloc_self new
        · rw [Keyed.findOrAdd, hkeyed, List.map_append]
          rfl

/-- **A write** through the address of the record with a key. -/
lemma modify (h : Holds hash key r ps) {f : β → β} (hf : ∀ x, key (f x) = key x)
    (hp : (p, x) ∈ ps) (hk : key x = k) :
    ∃ r' ps', r.modify p f = .ok r' ∧ Holds hash key r' ps' ∧
      ps'.map Prod.snd = Keyed.update key (ps.map Prod.snd) k f ∧ ps'.length = ps.length := by
  have hx : r.load p = .ok x := h.load_eq hp
  have hunique : ∀ q ∈ ps, q.1 = p ↔ key q.2 = k := fun q hq => by
    constructor
    · intro he
      have heq := List.inj_on_of_nodup_map h.nodup hq hp he
      rw [heq, hk]
    · intro he
      have heq := List.inj_on_of_nodup_map (by simpa [Keyed.Wf] using h.wf) hq hp
        (he.trans hk.symm)
      rw [heq]
  refine ⟨{ r with records := r.records.store p (f x) },
    ps.map fun q => if key q.2 = k then (q.1, f q.2) else q, ?_, ⟨?_, ?_⟩, ?_, by simp⟩
  · simp only [RecordTable.modify, hx, bind, Except.bind]
    rfl
  · have hsame : ((ps.map fun q => if key q.2 = k then (q.1, f q.2) else q).map
        fun q => (key q.2, q.1)) = ps.map fun q => (key q.2, q.1) := by
      rw [List.map_map]
      refine List.map_congr_left fun q _ => ?_
      rw [Function.comp_apply]
      split_ifs
      · rw [hf]
      · rfl
    rw [hsame]
    exact h.table
  · intro q' hq'
    obtain ⟨q, hq, rfl⟩ := List.mem_map.mp hq'
    by_cases he : key q.2 = k
    · have hqp := (hunique q hq).mpr he
      obtain rfl : q = (p, x) := List.inj_on_of_nodup_map h.nodup hq hp hqp
      rw [if_pos he]
      exact Heap.cells_store_self (h.live _ hp) _
    · rw [if_neg he]
      have hqp : q.1 ≠ p := fun hqp => he ((hunique q hq).mp hqp)
      exact (Heap.cells_store_of_ne hqp _).trans (h.live q hq)
  · rw [Keyed.update, List.map_map, List.map_map]
    refine List.map_congr_left fun q _ => ?_
    rw [Function.comp_apply, Function.comp_apply]
    split_ifs <;> rfl

end Holds

end RecordTable

end TsEngine
