import TsEngine.Store.UthashTable

/-!
# Hash tables through their lives

The sources add an element after they have not found its key, and delete an element that they have
found or met on a walk.  `uthashSystem` has the runs of these two macros on one table, from a null
head on, with any hash function.  The main result `Uthash.table_refines_list` is that such a run
does on buckets what it does on the list of keys and elements: finding, walking and counting return
what the list says, `HASH_FSCK` finds nothing wrong, and no macro fails, except for want of memory.
-/

namespace TsEngine

open Framework

variable {α κ : Type}

/-- A macro that changes a table. -/
inductive HashOp (α κ : Type)
  | add (k : κ) (x : α)
  | del (x : α)
  deriving DecidableEq

namespace HashOp

/-- What a macro does to the list of keys and elements. -/
def onList [DecidableEq α] (t : List (κ × α)) : HashOp α κ → List (κ × α)
  | .add k x => t ++ [(k, x)]
  | .del x => t.filter fun p => p.2 ≠ x

variable [DecidableEq α] [DecidableEq κ]

/-- When a macro is used: `HASH_ADD` on an element that is not in the table, if `HASH_FIND` has not
found its key, and `HASH_DEL` on an element of the table.  Memory has room for `n` elements. -/
def Allowed (n : ℕ) (hash : κ → UInt32) (h : Uthash α κ) : HashOp α κ → Prop
  | .add k x => h.hashFind n hash k = .ok none ∧
      ∃ xs, h.iter n h.head = .ok xs ∧ x ∉ xs ∧ xs.length < n
  | .del x => ∃ xs, h.iter n h.head = .ok xs ∧ x ∈ xs

/-- The macro. -/
def run (n mem : ℕ) (hash : κ → UInt32) (h : Uthash α κ) :
    HashOp α κ → Except UthashError (Uthash α κ)
  | .add k x => h.hashAdd n mem hash k x
  | .del x => h.hashDelete x

instance decidableExistsOk {ε β : Type} (x : Except ε β) (p : β → Prop) [DecidablePred p] :
    Decidable (∃ b, x = .ok b ∧ p b) :=
  match x with
  | .ok b => decidable_of_iff (p b) (by simp)
  | .error _ => isFalse (by simp)

instance (n : ℕ) (hash : κ → UInt32) (h : Uthash α κ) (op : HashOp α κ) :
    Decidable (op.Allowed n hash h) :=
  match op with
  | .add k x =>
      have : Decidable (h.hashFind n hash k = .ok none) :=
        decidable_of_iff (∃ y, h.hashFind n hash k = .ok y ∧ y = none) (by simp)
      inferInstanceAs (Decidable (_ ∧
        ∃ xs, h.iter n h.head = .ok xs ∧ x ∉ xs ∧ xs.length < n))
  | .del x => inferInstanceAs (Decidable (∃ xs, h.iter n h.head = .ok xs ∧ x ∈ xs))

end HashOp

section Runs

variable [DecidableEq α] [DecidableEq κ]

/-- A table that begins with a null head. -/
def uthashSystem (n mem : ℕ) (hash : κ → UInt32) (handles : UtHashHandles α κ) :
    System (Uthash α κ) (HashOp α κ) UthashError where
  init := .empty handles
  enabled _ h op := op.Allowed n hash h
  exec op h := op.run n mem hash h

instance (n mem : ℕ) (hash : κ → UInt32) (handles : UtHashHandles α κ)
    (l : List (Uthash α κ × HashOp α κ)) (h : Uthash α κ) (op : HashOp α κ) :
    Decidable ((uthashSystem n mem hash handles).enabled l h op) :=
  inferInstanceAs (Decidable (op.Allowed n hash h))

/-- The keys and elements that a history leaves, in the order of their addition. -/
def elementsOf : List (Uthash α κ × HashOp α κ) → List (κ × α)
  | [] => []
  | q :: l => q.2.onList (elementsOf l)

namespace Uthash

variable {n mem : ℕ} {hash : κ → UInt32} {handles : UtHashHandles α κ} {h : Uthash α κ}
  {t : List (κ × α)} {op : HashOp α κ}

/-- **What one macro does**: it makes of the list what it should, or memory is used up. -/
lemma Represents.run (hmem : mem < 2 ^ 36) (hrep : h.Represents hash t) (hn : t.length ≤ n)
    (hop : op.Allowed n hash h) :
    (∃ k x, op = .add k x) ∧ op.run n mem hash h = .error .outOfMemory ∨
      ∃ s, op.run n mem hash h = .ok s ∧ s.Represents hash (op.onList t) ∧
        (op.onList t).length ≤ n := by
  cases op with
  | add k x =>
      obtain ⟨hfind, xs, hiter, hx, hlt⟩ := hop
      obtain rfl : t.map Prod.snd = xs := Except.ok.inj ((hrep.iter_eq hn).symm.trans hiter)
      rw [hrep.hashFind_eq hn, Except.ok.injEq, Option.map_eq_none_iff] at hfind
      have hk : k ∉ t.map Prod.fst := fun hmem' => by
        obtain ⟨p, hp, rfl⟩ := List.mem_map.mp hmem'
        exact Keyed.find_eq_none.mp hfind p hp rfl
      rw [List.length_map] at hlt
      rcases hrep.hashAdd hmem hk hx hlt with herr | ⟨s, hs, hrep', -⟩
      · exact .inl ⟨⟨k, x, rfl⟩, herr⟩
      · exact .inr ⟨s, hs, hrep', by simpa [HashOp.onList] using hlt⟩
  | del x =>
      obtain ⟨xs, hiter, hx⟩ := hop
      obtain rfl : t.map Prod.snd = xs := Except.ok.inj ((hrep.iter_eq hn).symm.trans hiter)
      obtain ⟨⟨k, y⟩, hp, rfl⟩ := List.mem_map.mp hx
      obtain ⟨us, vs, rfl⟩ := List.append_of_mem hp
      obtain ⟨s, hs, hrep', -⟩ := hrep.hashDelete
      have hnodup := hrep.app.nodup
      rw [List.map_append, List.map_cons] at hnodup
      have hy := (List.nodup_middle.mp hnodup).notMem
      have hlist : (HashOp.del y).onList (us ++ (k, y) :: vs) = us ++ vs := by
        rw [HashOp.onList, List.filter_append, List.filter_cons_of_neg (by simp),
          ← List.filter_append]
        refine List.filter_eq_self.mpr fun p hp' => decide_eq_true fun he => hy ?_
        rw [← List.map_append]
        exact List.mem_map.mpr ⟨p, hp', he⟩
      refine .inr ⟨s, hs, hlist ▸ hrep', ?_⟩
      rw [hlist]
      simp only [List.length_append, List.length_cons] at hn ⊢
      omega

/-- A run leaves a table that represents what it has added and not deleted. -/
lemma represents_of_run (hmem : mem < 2 ^ 36) {l : List (Uthash α κ × HashOp α κ)}
    (hrun : (uthashSystem n mem hash handles).Run l h) :
    h.Represents hash (elementsOf l) ∧ (elementsOf l).length ≤ n := by
  refine System.Run.invariant (fun l h => h.Represents hash (elementsOf l) ∧
    (elementsOf l).length ≤ n) ⟨represents_empty handles, Nat.zero_le n⟩ ?_ hrun
  intro l h op h' _ ⟨hrep, hn⟩ hen hexec
  rcases hrep.run hmem hn hen with ⟨-, herr⟩ | ⟨s, hs, hrep', hn'⟩
  · exact absurd (herr.symm.trans hexec) (by simp)
  · obtain rfl : s = h' := Except.ok.inj (hs.symm.trans hexec)
    exact ⟨hrep', hn'⟩

/-- **A hash table is the list of its keys and elements.**  Whatever the hash function, after every
run of additions and deletions a walk meets the elements that have been added and not deleted, in
the order of their addition; `HASH_FIND` finds the one with the key and `HASH_COUNT` counts them;
`HASH_FSCK` finds nothing wrong with the pointers and counts; and the next macro succeeds, unless it
is an addition for which there is no memory. -/
theorem table_refines_list (hmem : mem < 2 ^ 36) {l : List (Uthash α κ × HashOp α κ)}
    (hrun : (uthashSystem n mem hash handles).Run l h) :
    h.iter n h.head = .ok ((elementsOf l).map Prod.snd) ∧
      (∀ k, h.hashFind n hash k =
        .ok ((Keyed.find Prod.fst (elementsOf l) k).map Prod.snd)) ∧
      h.count = .ok (UInt32.ofNat (elementsOf l).length) ∧ h.hashFsck n = .ok () ∧
      Keyed.Wf Prod.fst (elementsOf l) ∧
      ∀ op : HashOp α κ, op.Allowed n hash h → (∃ s, op.run n mem hash h = .ok s) ∨
        (∃ k x, op = .add k x) ∧ op.run n mem hash h = .error .outOfMemory := by
  obtain ⟨hrep, hn⟩ := represents_of_run hmem hrun
  refine ⟨hrep.iter_eq hn, hrep.hashFind_eq hn, hrep.count_eq, hrep.fsck_eq hn, hrep.wf,
    fun op hop => ?_⟩
  rcases hrep.run hmem hn hop with herr | ⟨s, hs, -⟩
  · exact .inr herr
  · exact .inl ⟨s, hs⟩

/-- Ten elements whose keys have one hash value, so that the last of them makes the table grow, and
two that are deleted again. -/
def collidingOps : List (HashOp ℕ ℕ) :=
  (List.range 10).map (fun i => .add i (100 + i)) ++ [.del 104, .del 100]

theorem table_refines_list_sample : ∃ h : Uthash ℕ ℕ,
    h.iter 20 h.head = .ok [101, 102, 103, 105, 106, 107, 108, 109] ∧
      h.hashFind 20 (fun _ => 7) 8 = .ok (some 108) ∧ h.hashFind 20 (fun _ => 7) 4 = .ok none ∧
      h.count = .ok 8 ∧ h.hashFsck 20 = .ok () := by
  obtain ⟨l, h, hrun, hops⟩ := System.exists_run_of_execAll
    (M := uthashSystem 20 4096 (fun _ : ℕ => 7) (zeroHandles 0))
    (fun l _ => decide (elementsOf l =
      [(1, 101), (2, 102), (3, 103), (5, 105), (6, 106), (7, 107), (8, 108), (9, 109)]))
    collidingOps (by decide +kernel)
  obtain ⟨hiter, hfind, hcount, hfsck, -⟩ := table_refines_list (by decide) hrun
  have hlist := of_decide_eq_true hops
  rw [hlist] at hiter hcount
  refine ⟨h, hiter, ?_, ?_, hcount, hfsck⟩
  · rw [hfind, hlist]
    rfl
  · rw [hfind, hlist]
    rfl

end Uthash

end Runs

end TsEngine
