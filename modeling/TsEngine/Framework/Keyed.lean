import Mathlib.Data.List.Basic
import Mathlib.Data.List.Nodup
import Mathlib.Data.List.Perm.Basic
import Mathlib.Tactic

/-!
# Tables of keyed records, in insertion order

An intrusive hash table that is only ever added to, seen through its iteration order: the
list of its records, each carrying its key.  `Keyed.find` is the lookup by key, `Keyed.findOrAdd`
the lookup that appends a fresh record when there is none, and `Keyed.update` the in-place
update of the record with a key.  The table is well formed (`Keyed.Wf`) when no two records share
a key.

The results that matter to a client are the three that describe "get the record of `k`, creating
it if need be, and update it": what it does to a later lookup (`Keyed.find_update_findOrAdd`),
that it keeps the table well formed (`Keyed.wf_update_findOrAdd`), and, when every record holds
a list, what it does to the concatenation of all of them (`Keyed.flatMap_update_findOrAdd`).

The other way to put a record in is `Keyed.replace`, which takes the old record of its key out and
appends the new one.  Putting in a whole list so leaves the last record of each key
(`Keyed.foldl_replace`).
-/

namespace Framework.Keyed

variable {α κ β : Type*} [DecidableEq κ] (key : α → κ)

/-- The record with key `k`. -/
def find (t : List α) (k : κ) : Option α := t.find? fun x => key x = k

/-- The table with a record for `k`: itself if it has one, else with `new` appended. -/
def findOrAdd (t : List α) (k : κ) (new : α) : List α :=
  match find key t k with
  | some _ => t
  | none => t ++ [new]

/-- Update the record with key `k` in place. -/
def update (t : List α) (k : κ) (f : α → α) : List α :=
  t.map fun x => if key x = k then f x else x

/-- No two records share a key. -/
def Wf (t : List α) : Prop := (t.map key).Nodup

variable {key} {t : List α} {k k' : κ} {new x : α} {f : α → α}

/-! ## Lookups -/

lemma key_of_find (h : find key t k = some x) : key x = k := by
  simpa using List.find?_some h

lemma mem_of_find (h : find key t k = some x) : x ∈ t := List.mem_of_find?_eq_some h

lemma find_eq_none : find key t k = none ↔ ∀ x ∈ t, key x ≠ k := by
  simp [find]

@[simp] lemma find_nil : find key ([] : List α) k = none := rfl

/-- In a well-formed table a record is what a lookup of its key returns. -/
lemma find_of_mem (hwf : Wf key t) (h : x ∈ t) : find key t (key x) = some x := by
  induction t with
  | nil => simp at h
  | cons y t ih =>
      obtain ⟨hy, ht⟩ := List.nodup_cons.mp hwf
      rcases List.mem_cons.mp h with rfl | hx
      · simp [find]
      · have hne : key y ≠ key x := fun he => hy (he ▸ List.mem_map_of_mem hx)
        simpa [find, hne] using ih ht hx

/-! ## Get or add, then update -/

lemma key_update (hf : ∀ x, key (f x) = key x) : (update key t k f).map key = t.map key := by
  simp only [update, List.map_map]
  refine List.map_congr_left fun x _ => ?_
  by_cases hx : key x = k <;> simp [hx, hf]

lemma find_update_self (hf : ∀ x, key (f x) = key x) :
    find key (update key t k f) k = (find key t k).map f := by
  induction t with
  | nil => rfl
  | cons y t ih =>
      by_cases hy : key y = k
      · simp [find, update, hy, hf]
      · simpa [find, update, hy] using ih

lemma find_update_ne (hf : ∀ x, key (f x) = key x) (hk : k' ≠ k) :
    find key (update key t k f) k' = find key t k' := by
  induction t with
  | nil => rfl
  | cons y t ih =>
      by_cases hy : key y = k
      · have hy' : key y ≠ k' := fun h => hk (h.symm.trans hy)
        simpa [find, update, hy, hf, hy', hk.symm] using ih
      · by_cases hy' : key y = k'
        · simp [find, update, hy', hk]
        · simpa [find, update, hy, hy'] using ih

lemma find_append_self (hnew : key new = k) (hnone : find key t k = none) :
    find key (t ++ [new]) k = some new := by
  simp only [find] at hnone ⊢
  simp [List.find?_append, hnone, hnew]

lemma find_findOrAdd_self (hnew : key new = k) :
    find key (findOrAdd key t k new) k = some ((find key t k).getD new) := by
  unfold findOrAdd
  cases h : find key t k with
  | some y => simp [h]
  | none => simpa using find_append_self hnew h

lemma find_findOrAdd_ne (hnew : key new = k) (hk : k' ≠ k) :
    find key (findOrAdd key t k new) k' = find key t k' := by
  unfold findOrAdd
  cases h : find key t k with
  | some y => rfl
  | none =>
      have hne : key new ≠ k' := fun he => hk (he.symm.trans hnew)
      simp [find, List.find?_append, hne]

/-- **Lookup after get-or-add and update.** -/
lemma find_update_findOrAdd (hnew : key new = k) (hf : ∀ x, key (f x) = key x) :
    find key (update key (findOrAdd key t k new) k f) k' =
      if k' = k then some (f ((find key t k).getD new)) else find key t k' := by
  by_cases hk : k' = k
  · subst hk
    simp [find_update_self hf, find_findOrAdd_self hnew]
  · rw [find_update_ne hf hk, find_findOrAdd_ne hnew hk, if_neg hk]

lemma wf_findOrAdd (hwf : Wf key t) (hnew : key new = k) : Wf key (findOrAdd key t k new) := by
  unfold findOrAdd
  cases h : find key t k with
  | some y => exact hwf
  | none =>
      have hk : ∀ x ∈ t, key x ≠ k := find_eq_none.mp h
      simp only [Wf, List.map_append, List.map_cons, List.map_nil, hnew]
      refine List.nodup_append.mpr ⟨hwf, List.nodup_singleton k, ?_⟩
      intro a ha b hb
      obtain ⟨x, hx, rfl⟩ := List.mem_map.mp ha
      rw [List.mem_singleton.mp hb]
      exact hk x hx

lemma wf_update (hwf : Wf key t) (hf : ∀ x, key (f x) = key x) : Wf key (update key t k f) := by
  rwa [Wf, key_update hf]

/-- **Get-or-add and update keep a table well formed.** -/
lemma wf_update_findOrAdd (hwf : Wf key t) (hnew : key new = k) (hf : ∀ x, key (f x) = key x) :
    Wf key (update key (findOrAdd key t k new) k f) :=
  wf_update (wf_findOrAdd hwf hnew) hf

/-! ## Records that hold lists -/

lemma mem_update (hx : x ∈ update key t k f) :
    ∃ y ∈ t, x = if key y = k then f y else y := by
  obtain ⟨y, hy, rfl⟩ := List.mem_map.mp hx
  exact ⟨y, hy, rfl⟩

lemma mem_findOrAdd (hx : x ∈ findOrAdd key t k new) : x ∈ t ∨ x = new := by
  unfold findOrAdd at hx
  split at hx
  · exact .inl hx
  · simpa using hx

/-- Updating a record whose key is absent changes nothing. -/
lemma update_of_find_none (h : find key t k = none) : update key t k f = t := by
  have hk := find_eq_none.mp h
  refine (List.map_congr_left fun x hx => ?_).trans (List.map_id t)
  simp [hk x hx]

/-- If the update appends `ys` to what a record holds, the concatenation over the whole table
gains exactly `ys`, in some place, provided the key occurs once. -/
lemma flatMap_update_perm (hwf : Wf key t) (g : α → List β) {ys : List β}
    (hg : ∀ x, g (f x) = g x ++ ys) (hmem : (find key t k).isSome) :
    ((update key t k f).flatMap g).Perm (t.flatMap g ++ ys) := by
  induction t with
  | nil => simp at hmem
  | cons y t ih =>
      obtain ⟨hy, ht⟩ := List.nodup_cons.mp hwf
      by_cases hk : key y = k
      · have hnone : find key t k = none := find_eq_none.mpr fun x hx he =>
          hy (hk.trans he.symm ▸ List.mem_map_of_mem hx)
        have htail : update key t k f = t := update_of_find_none hnone
        have hupd : update key (y :: t) k f = f y :: t := by
          have hcons : update key (y :: t) k f = f y :: update key t k f := by simp [update, hk]
          rw [hcons, htail]
        rw [hupd, List.flatMap_cons, hg, List.flatMap_cons, List.append_assoc, List.append_assoc]
        exact (List.perm_append_comm).append_left _
      · have hmem' : (find key t k).isSome := by simpa [find, hk] using hmem
        have hupd : update key (y :: t) k f = y :: update key t k f := by simp [update, hk]
        rw [hupd, List.flatMap_cons, List.flatMap_cons, List.append_assoc]
        exact (ih ht hmem').append_left _

lemma flatMap_findOrAdd (g : α → List β) (hg : g new = []) :
    (findOrAdd key t k new).flatMap g = t.flatMap g := by
  unfold findOrAdd
  split
  · rfl
  · simp [hg]

/-- **The concatenation over the table after get-or-add and update**, when a fresh record holds
nothing and the update appends `ys`. -/
lemma flatMap_update_findOrAdd (hwf : Wf key t) (hnew : key new = k) (g : α → List β)
    {ys : List β} (hg : ∀ x, g (f x) = g x ++ ys) (hgnew : g new = []) :
    ((update key (findOrAdd key t k new) k f).flatMap g).Perm (t.flatMap g ++ ys) := by
  have hsome : (find key (findOrAdd key t k new) k).isSome := by
    simp [find_findOrAdd_self hnew]
  have h := flatMap_update_perm (wf_findOrAdd hwf hnew) g hg hsome
  rwa [flatMap_findOrAdd g hgnew] at h

/-! ## Records that replace others -/

variable {xs : List α}

variable (key) in
/-- Append a record in place of the one with its key, if there is one. -/
def replace (t : List α) (x : α) : List α := (t.filter fun y => key y ≠ key x) ++ [x]

variable (key) in
/-- The records that no later one shares its key with. -/
def keepLast : List α → List α
  | [] => []
  | x :: xs => if key x ∈ xs.map key then keepLast xs else x :: keepLast xs

/-- **Replacing by one record after the other** leaves the last one of each key, behind what is left
of the table. -/
lemma foldl_replace (xs t : List α) : xs.foldl (replace key) t =
    (t.filter fun y => key y ∉ xs.map key) ++ keepLast key xs := by
  induction xs generalizing t with
  | nil => simp [keepLast]
  | cons x xs ih =>
      have hfilter : ((t.filter fun y => key y ≠ key x).filter fun y => key y ∉ xs.map key) =
          t.filter fun y => key y ∉ (x :: xs).map key := by
        rw [List.filter_filter]
        refine List.filter_congr fun y _ => ?_
        rw [List.map_cons]
        by_cases hy : key y = key x <;> simp [hy]
      rw [List.foldl_cons, ih, replace, List.filter_append, hfilter, keepLast, List.append_assoc]
      by_cases hx : key x ∈ xs.map key
      · rw [if_pos hx, List.filter_cons_of_neg (by simpa using hx), List.filter_nil,
          List.nil_append]
      · rw [if_neg hx, List.filter_cons_of_pos (by simpa using hx), List.filter_nil,
          List.singleton_append]

/-- In a well-formed table every record is the last of its key. -/
lemma keepLast_of_wf (hwf : Wf key xs) : keepLast key xs = xs := by
  induction xs with
  | nil => rfl
  | cons x xs ih =>
      obtain ⟨hx, hxs⟩ := List.nodup_cons.mp hwf
      rw [keepLast, if_neg hx, ih hxs]

/-- Records that keep their keys. -/
lemma keepLast_map {key' : β → κ} {g : α → β} (hg : ∀ x ∈ xs, key' (g x) = key x) :
    keepLast key' (xs.map g) = (keepLast key xs).map g := by
  induction xs with
  | nil => rfl
  | cons x xs ih =>
      have htail : ∀ y ∈ xs, key' (g y) = key y := fun y hy => hg y (List.mem_cons_of_mem x hy)
      have hkeys : (xs.map g).map key' = xs.map key := by
        rw [List.map_map]
        exact List.map_congr_left htail
      rw [List.map_cons, keepLast, keepLast, hkeys, hg x List.mem_cons_self, ih htail]
      split_ifs <;> rfl

lemma mem_of_mem_keepLast (hx : x ∈ keepLast key xs) : x ∈ xs := by
  induction xs with
  | nil => exact hx
  | cons y xs ih =>
      rw [keepLast] at hx
      split_ifs at hx with hy
      · exact List.mem_cons_of_mem y (ih hx)
      · rcases List.mem_cons.mp hx with rfl | hx
        · exact List.mem_cons_self
        · exact List.mem_cons_of_mem y (ih hx)

end Framework.Keyed
