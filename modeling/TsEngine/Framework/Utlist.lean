import Mathlib.Tactic

/-!
# Doubly linked lists by macro

The utlist macros `DL_PREPEND`, `DL_DELETE` and `DL_FOREACH` on explicit `prev` and `next` pointers.
A list is a head pointer and the two pointer fields of all nodes; nodes are their addresses.

`NextChain` and `PrevChain` say what the pointers are along a sequence of nodes, and
`Utlist.Represents` puts them together, with the `prev` field of the head left open: the macros
keep the tail there (`Utlist.WellFormed`), but a list that was begun by assigning a first node to
the head pointer has a null pointer there instead.  `Utlist.Begun` describes such a list through
its life: its first node stays at the end, `DL_DELETE` of the head fails its assertion as long as
the first node is listed, and once that is deleted the list is well formed.
-/

namespace Framework

universe u

/-- A list head, and the `prev` and `next` fields of the nodes. -/
structure Utlist (α : Type u) where
  head : Option α
  prev : α → Option α
  next : α → Option α

namespace Utlist

/-- What can go wrong in a macro. -/
inductive Error
  | assertion
  | nullDereference
  deriving DecidableEq

variable {α : Type u}

/-! ## The macros -/

section Macros

variable [DecidableEq α]

/-- `DL_PREPEND(head, add)`. -/
def dlPrepend (add : α) (l : Utlist α) : Utlist α :=
  let l := { l with next := Function.update l.next add l.head }
  match l.head with
  | some head =>
      let l := { l with prev := Function.update l.prev add (l.prev head) }
      { l with prev := Function.update l.prev head (some add), head := some add }
  | none => { l with prev := Function.update l.prev add (some add), head := some add }

/-- `DL_DELETE(head, del)`. -/
def dlDelete (del : α) (l : Utlist α) : Except Error (Utlist α) :=
  match l.head, l.prev del with
  | none, _ => .error .assertion
  | some _, none => .error .assertion
  | some head, some prev =>
      if prev = del then .ok { l with head := none }
      else if del = head then
        match l.next del with
        | some next =>
            .ok { l with prev := Function.update l.prev next (some prev), head := some next }
        | none => .error .nullDereference
      else
        let l := { l with next := Function.update l.next prev (l.next del) }
        match l.next del with
        | some next => .ok { l with prev := Function.update l.prev next (some prev) }
        | none => .ok { l with prev := Function.update l.prev head (some prev) }

end Macros

/-- A first node, just allocated and zeroed, assigned to the list head. -/
def single (a : α) : Utlist α := ⟨some a, fun _ => none, fun _ => none⟩

/-- The nodes on the way from `start` along `next`, at most `n` of them. -/
def walk (next : α → Option α) : ℕ → Option α → List α
  | 0, _ => []
  | _ + 1, none => []
  | n + 1, some a => a :: walk next n (next a)

/-- `DL_FOREACH(head, el)`, with a bound on the number of nodes. -/
def foreach (n : ℕ) (l : Utlist α) : List α := walk l.next n l.head

/-! ## Chains of pointers -/

/-- From `start`, the `next` pointers lead along `xs` to `stop`. -/
def NextChain (next : α → Option α) (stop : Option α) : Option α → List α → Prop
  | start, [] => start = stop
  | start, x :: xs => start = some x ∧ NextChain next stop (next x) xs

/-- The `prev` pointer of the first node of `xs` is `before`, and those of the others point to
their predecessors. -/
def PrevChain (prev : α → Option α) : Option α → List α → Prop
  | _, [] => True
  | before, x :: xs => prev x = before ∧ PrevChain prev (some x) xs

section Chains

variable {next prev : α → Option α} {start stop before v : Option α} {xs ys zs : List α} {a q : α}

lemma nextChain_append : NextChain next stop start (xs ++ ys) ↔
    ∃ mid, NextChain next mid start xs ∧ NextChain next stop mid ys := by
  induction xs generalizing start with
  | nil => simp [NextChain]
  | cons x xs ih => simp [NextChain, ih, and_assoc]

lemma prevChain_append : PrevChain prev before (xs ++ ys) ↔
    PrevChain prev before xs ∧ PrevChain prev (xs.getLast?.or before) ys := by
  induction xs generalizing before with
  | nil => simp [PrevChain]
  | cons x xs ih =>
      rw [List.cons_append, PrevChain, ih, PrevChain, and_assoc, List.getLast?_cons]
      cases xs.getLast? <;> simp

lemma NextChain.start_eq (h : NextChain next none start xs) : start = xs.head? := by
  cases xs with
  | nil => exact h
  | cons x xs => exact h.1

/-- A walk that is long enough visits the whole chain. -/
lemma NextChain.walk_eq (h : NextChain next none start xs) {n : ℕ} (hn : xs.length ≤ n) :
    walk next n start = xs := by
  induction xs generalizing start n with
  | nil =>
      rw [NextChain] at h
      cases n <;> simp [walk, h]
  | cons x xs ih =>
      obtain ⟨rfl, hrest⟩ := h
      obtain _ | n := n
      · simp at hn
      · rw [walk, ih hrest (by simpa using hn)]

/-- A pointer out of a node of the chain leads to a later node. -/
lemma NextChain.mem_of_next (h : NextChain next none start (ys ++ a :: zs)) {b : α}
    (hb : next a = some b) : b ∈ zs := by
  obtain ⟨_, -, -, hzs⟩ := nextChain_append.mp h
  exact List.mem_of_mem_head? (hzs.start_eq.symm.trans hb)

/-- There is one chain of null-terminated pointers. -/
lemma NextChain.unique (h : NextChain next none start xs) (h' : NextChain next none start ys) :
    xs = ys := by
  have hwalk := h.walk_eq (Nat.le_add_right xs.length ys.length)
  exact hwalk.symm.trans (h'.walk_eq (Nat.le_add_left ys.length xs.length))

variable [DecidableEq α]

/-- A `next` pointer elsewhere does not matter. -/
lemma nextChain_update (ha : a ∉ xs) :
    NextChain (Function.update next a v) stop start xs ↔ NextChain next stop start xs := by
  induction xs generalizing start with
  | nil => rfl
  | cons x xs ih =>
      rw [List.mem_cons, not_or] at ha
      rw [NextChain, NextChain, Function.update_of_ne (Ne.symm ha.1), ih ha.2]

/-- A `prev` pointer elsewhere does not matter. -/
lemma prevChain_update (ha : a ∉ xs) :
    PrevChain (Function.update prev a v) before xs ↔ PrevChain prev before xs := by
  induction xs generalizing before with
  | nil => rfl
  | cons x xs ih =>
      rw [List.mem_cons, not_or] at ha
      rw [PrevChain, PrevChain, Function.update_of_ne (Ne.symm ha.1), ih ha.2]

/-- Overwriting the first `prev` pointer of a chain. -/
lemma PrevChain.update_head (h : PrevChain prev before (a :: xs)) (ha : a ∉ xs) :
    PrevChain (Function.update prev a v) v (a :: xs) :=
  ⟨Function.update_self .., (prevChain_update ha).mpr h.2⟩

/-- Pointing past a node takes it out of the chain. -/
lemma NextChain.unlink (h : NextChain next none start (ys ++ q :: a :: zs)) (hys : q ∉ ys)
    (hzs : q ∉ zs) :
    NextChain (Function.update next q (next a)) none start (ys ++ q :: zs) := by
  obtain ⟨_, hchainYs, rfl, hq, hchainZs⟩ := nextChain_append.mp h
  refine nextChain_append.mpr ⟨some q, (nextChain_update hys).mpr hchainYs, rfl, ?_⟩
  rw [Function.update_self]
  exact (nextChain_update hzs).mpr hchainZs

/-- Pointing back past a node takes it out of the chain of predecessors. -/
lemma PrevChain.unlink {z : α} (h : PrevChain prev before (ys ++ q :: a :: z :: zs))
    (hz : z ∉ ys ++ [q]) (hzs : z ∉ zs) :
    PrevChain (Function.update prev z (some q)) before (ys ++ q :: z :: zs) := by
  rw [← List.singleton_append, ← List.append_assoc] at h ⊢
  obtain ⟨hprevYs, -, hprevZs⟩ := prevChain_append.mp h
  refine prevChain_append.mpr ⟨(prevChain_update hz).mpr hprevYs, ?_⟩
  rw [show (ys ++ [q]).getLast?.or before = some q by simp]
  exact hprevZs.update_head hzs

end Chains

/-! ## What a list represents -/

/-- The `next` pointers lead from the head along `xs` to a null pointer. -/
def IsChain (l : Utlist α) (xs : List α) : Prop := NextChain l.next none l.head xs

/-- The list consists of the nodes `xs`, and the `prev` pointer of its head is `first`. -/
structure Represents (l : Utlist α) (first : Option α) (xs : List α) : Prop where
  nodup : xs.Nodup
  chain : l.IsChain xs
  prev : PrevChain l.prev first xs

/-- The list as its macros keep it: the `prev` pointer of the head is the tail. -/
def WellFormed (l : Utlist α) (xs : List α) : Prop := l.Represents xs.getLast? xs

/-- Whether a sequence is the chain of a list can be computed. -/
instance decidableNextChain [DecidableEq α] (next : α → Option α) (stop : Option α) :
    ∀ start xs, Decidable (NextChain next stop start xs)
  | start, [] => inferInstanceAs (Decidable (start = stop))
  | start, x :: xs =>
      have := decidableNextChain next stop (next x) xs
      inferInstanceAs (Decidable (start = some x ∧ NextChain next stop (next x) xs))

instance [DecidableEq α] (l : Utlist α) (xs : List α) : Decidable (l.IsChain xs) :=
  decidableNextChain l.next none l.head xs

variable {l : Utlist α} {first : Option α} {xs ys zs : List α} {a b q : α}

lemma single_represents (a : α) : (single a).Represents none [a] :=
  ⟨List.nodup_singleton a, ⟨rfl, rfl⟩, ⟨rfl, trivial⟩⟩

lemma IsChain.foreach_eq (h : l.IsChain xs) {n : ℕ} (hn : xs.length ≤ n) : l.foreach n = xs :=
  h.walk_eq hn

lemma IsChain.unique (h : l.IsChain xs) (h' : l.IsChain ys) : xs = ys := NextChain.unique h h'

lemma IsChain.head_eq (h : l.IsChain xs) : l.head = xs.head? := NextChain.start_eq h

lemma Represents.mem_of_next (h : l.Represents first xs) (ha : a ∈ xs) (hb : l.next a = some b) :
    b ∈ xs ∧ b ≠ a := by
  obtain ⟨ys, zs, rfl⟩ := List.append_of_mem ha
  have hmem := NextChain.mem_of_next h.chain hb
  refine ⟨by simp [hmem], ?_⟩
  rintro rfl
  exact (List.nodup_cons.mp (List.nodup_append.mp h.nodup).2.1).1 hmem

/-- No pointer leads back. -/
lemma Represents.next_ne (h : l.Represents first xs) (hsub : [b, a].Sublist xs) :
    l.next a ≠ some b := by
  intro hb
  obtain ⟨ys, zs, rfl, hys, hzs⟩ := List.cons_sublist_iff.mp hsub
  obtain ⟨ws, vs, rfl⟩ := List.append_of_mem (List.singleton_sublist.mp hzs)
  have hchain : NextChain l.next none l.head ((ys ++ ws) ++ a :: vs) := by
    rw [List.append_assoc]
    exact h.chain
  have hmem := hchain.mem_of_next hb
  exact List.disjoint_of_nodup_append h.nodup hys (by simp [hmem])

variable [DecidableEq α]

/-- A prepended node is the only one that gets a new `next` pointer. -/
lemma next_dlPrepend (hne : a ≠ b) : (l.dlPrepend b).next a = l.next a := by
  unfold Utlist.dlPrepend
  cases l.head with
  | none => exact Function.update_of_ne hne _ _
  | some head => exact Function.update_of_ne hne _ _

/-- A deletion leaves a `next` pointer, or makes it that of the node deleted. -/
lemma next_dlDelete {l' : Utlist α} (h : l.dlDelete b = .ok l') (a : α) :
    l'.next a = l.next a ∨ l'.next a = l.next b := by
  have hupdate : ∀ q, Function.update l.next q (l.next b) a = l.next a ∨
      Function.update l.next q (l.next b) a = l.next b := fun q => by
    by_cases hq : a = q
    · subst hq
      exact .inr (Function.update_self ..)
    · exact .inl (Function.update_of_ne hq _ _)
  unfold Utlist.dlDelete at h
  split at h
  · cases h
  · cases h
  · rename_i head prev _ _
    split_ifs at h
    · cases h
      exact .inl rfl
    · split at h
      · cases h
        exact .inl rfl
      · cases h
    · dsimp only at h
      split at h
      · cases h
        exact hupdate prev
      · cases h
        exact hupdate prev

/-- **`DL_PREPEND`** hands the `prev` pointer of the old head to the new one. -/
lemma Represents.dlPrepend (h : l.Represents first (a :: xs)) (hb : b ∉ a :: xs) :
    (l.dlPrepend b).Represents first (b :: a :: xs) := by
  obtain ⟨hnodup, hchain, hprev⟩ := h
  have hhead : l.head = some a := hchain.1
  have hba : b ≠ a := fun he => hb (he ▸ List.mem_cons_self)
  simp only [Utlist.dlPrepend, hhead]
  refine ⟨List.nodup_cons.mpr ⟨hb, hnodup⟩, ⟨rfl, ?_⟩, ?_, ?_⟩
  · show NextChain (Function.update l.next b (some a)) none (Function.update l.next b (some a) b) _
    rw [nextChain_update hb, Function.update_self]
    exact hhead ▸ hchain
  · show Function.update (Function.update l.prev b (l.prev a)) a (some b) b = first
    rw [Function.update_of_ne hba, Function.update_self]
    exact hprev.1
  · have hprev' : PrevChain (Function.update l.prev b (l.prev a)) first (a :: xs) :=
      (prevChain_update hb).mpr hprev
    exact hprev'.update_head (List.nodup_cons.mp hnodup).1

/-- **`DL_DELETE` of the head** fails its assertion on a null `prev` pointer. -/
lemma Represents.dlDelete_head_none (h : l.Represents none (a :: xs)) :
    l.dlDelete a = .error .assertion := by
  have hhead : l.head = some a := h.chain.1
  have hprev : l.prev a = none := h.prev.1
  simp only [Utlist.dlDelete, hhead, hprev]

/-- `DL_DELETE` of the head, when it is not the only node. -/
lemma Represents.dlDelete_head (h : l.Represents (some q) (a :: b :: xs)) (hq : q ≠ a) :
    ∃ l', l.dlDelete a = .ok l' ∧ l'.Represents (some q) (b :: xs) := by
  obtain ⟨hnodup, ⟨hhead, hnext, hchain⟩, hprev, hrest⟩ := h
  refine ⟨{ l with prev := Function.update l.prev b (some q), head := some b }, ?_, ?_⟩
  · simp only [Utlist.dlDelete, hhead, hprev, hq, if_false, if_true, hnext]
  · have hnodup := (List.nodup_cons.mp hnodup).2
    exact ⟨hnodup, ⟨rfl, hchain⟩, hrest.update_head (List.nodup_cons.mp hnodup).1⟩

/-- `DL_DELETE` of a node between two others, or behind the last but one. -/
lemma Represents.dlDelete_tail (h : l.Represents first (ys ++ q :: a :: zs)) :
    ∃ l', l.dlDelete a = .ok l' ∧
      l'.Represents (if zs = [] then some q else first) (ys ++ q :: zs) := by
  obtain ⟨hnodup, hchain, hprev⟩ := h
  have hnodup' : (ys ++ q :: zs).Nodup := hnodup.sublist
    (List.Sublist.append_left (List.Sublist.cons_cons q (List.sublist_cons_self a zs)) ys)
  have hmem := hnodup
  simp only [List.nodup_append, List.nodup_cons, List.mem_cons, not_or] at hmem
  obtain ⟨-, ⟨⟨hqa, hqZs⟩, haZs, hnodupZs⟩, hdisj⟩ := hmem
  have hqYs : q ∉ ys := fun hq => hdisj q hq q (.inl rfl) rfl
  -- the pointers that the macro reads
  have hprevA : l.prev a = some q := (prevChain_append.mp hprev).2.2.1
  obtain ⟨_, -, -, -, hnextA⟩ := nextChain_append.mp hchain
  obtain ⟨head, ws, hws⟩ : ∃ head ws, ys ++ q :: zs = head :: ws :=
    List.exists_cons_of_ne_nil (by simp)
  have hhead : l.head = some head := by
    have heq : (ys ++ q :: a :: zs).head? = (ys ++ q :: zs).head? := by cases ys <;> rfl
    rw [hchain.head_eq, heq, hws]
    rfl
  have hah : a ≠ head := by
    rintro rfl
    have ha : a ∈ ys ++ q :: zs := hws ▸ List.mem_cons_self
    simp only [List.mem_append, List.mem_cons] at ha
    rcases ha with ha | rfl | ha
    · exact hdisj a ha a (.inr (.inl rfl)) rfl
    · exact hqa rfl
    · exact haZs ha
  have hupd : Function.update l.next q (l.next a) a = l.next a :=
    Function.update_of_ne (Ne.symm hqa) _ _
  cases zs with
  | nil =>
      refine ⟨{ l with
        next := Function.update l.next q (l.next a)
        prev := Function.update l.prev head (some q) }, ?_, hnodup',
        NextChain.unlink hchain hqYs hqZs, ?_⟩
      · simp only [Utlist.dlDelete, hhead, hprevA, hqa, hah, if_false, hupd]
        rw [show l.next a = none from hnextA]
      · -- the head takes over the pointer to the new tail
        rw [if_pos rfl]
        have hprevYs : PrevChain l.prev first (ys ++ [q]) := by
          rw [← List.singleton_append, ← List.append_assoc] at hprev
          exact (prevChain_append.mp hprev).1
        rw [hws] at hprevYs hnodup' ⊢
        exact hprevYs.update_head (List.nodup_cons.mp hnodup').1
  | cons z zs =>
      refine ⟨{ l with
        next := Function.update l.next q (l.next a)
        prev := Function.update l.prev z (some q) }, ?_, hnodup',
        NextChain.unlink hchain hqYs hqZs, ?_⟩
      · simp only [Utlist.dlDelete, hhead, hprevA, hqa, hah, if_false, hupd]
        rw [show l.next a = some z from hnextA.1]
      · have hz : z ∉ ys ++ [q] := fun hz => by
          rw [← List.singleton_append, ← List.append_assoc] at hnodup'
          exact List.disjoint_of_nodup_append hnodup' hz List.mem_cons_self
        exact hprev.unlink hz (List.nodup_cons.mp hnodupZs).1

/-! ## Lists begun by an assignment -/

/-- The nodes `xs` of a list that was begun by assigning `o` to the head pointer: as long as `o`
is listed, it is the tail, and the `prev` pointer of the head is null. -/
structure Begun (o : α) (l : Utlist α) (xs : List α) : Prop where
  represents : l.Represents (if o ∈ xs then none else xs.getLast?) xs
  last : o ∈ xs → xs.getLast? = some o

variable {o : α}

lemma begun_single (o : α) : (single o).Begun o [o] := by
  refine ⟨?_, fun _ => rfl⟩
  rw [if_pos List.mem_cons_self]
  exact single_represents o

/-- Such a list is well formed once its first node is gone, and not before. -/
lemma Begun.wellFormed_iff (h : l.Begun o xs) : l.WellFormed xs ↔ o ∉ xs := by
  refine ⟨fun hwf ho => ?_, fun ho => ?_⟩
  · have hprev := h.represents.prev
    have hprev' := hwf.prev
    rw [if_pos ho] at hprev
    rw [h.last ho] at hprev'
    obtain ⟨a, xs, rfl⟩ := List.exists_cons_of_ne_nil (List.ne_nil_of_mem ho)
    exact absurd (hprev.1.symm.trans hprev'.1) (by simp)
  · have hrep := h.represents
    rwa [if_neg ho] at hrep

lemma Begun.dlPrepend (h : l.Begun o xs) (hne : xs ≠ []) (hb : b ∉ xs) (hbo : b ≠ o) :
    (l.dlPrepend b).Begun o (b :: xs) := by
  obtain ⟨a, xs, rfl⟩ := List.exists_cons_of_ne_nil hne
  have hmem : o ∈ b :: a :: xs ↔ o ∈ a :: xs := by simp [List.mem_cons (a := o), hbo.symm]
  refine ⟨?_, fun ho => ?_⟩
  · rw [List.getLast?_cons_cons, if_congr hmem rfl rfl]
    exact h.represents.dlPrepend hb
  · rw [List.getLast?_cons_cons]
    exact h.last (hmem.mp ho)

/-- **The head cannot be deleted** while the first node is listed. -/
lemma Begun.dlDelete_head (h : l.Begun o xs) (ho : o ∈ xs) (ha : xs.head? = some a) :
    l.dlDelete a = .error .assertion := by
  obtain ⟨xs, rfl⟩ := List.head?_eq_some_iff.mp ha
  have hrep := h.represents
  rw [if_pos ho] at hrep
  exact hrep.dlDelete_head_none

/-- Deleting the head, once the first node is gone. -/
lemma Begun.dlDelete_cons (h : l.Begun o (a :: b :: xs)) (ho : o ∉ a :: b :: xs) :
    ∃ l', l.dlDelete a = .ok l' ∧ l'.Begun o (b :: xs) := by
  have hrep := h.represents
  rw [if_neg ho, List.getLast?_cons_cons,
    List.getLast?_eq_some_getLast (List.cons_ne_nil b xs)] at hrep
  have ha := (List.nodup_cons.mp hrep.nodup).1
  obtain ⟨l', hdel, hrep'⟩ := hrep.dlDelete_head fun he =>
    ha (he ▸ List.getLast_mem (List.cons_ne_nil b xs))
  have ho' : o ∉ b :: xs := fun hm => ho (List.mem_cons_of_mem a hm)
  refine ⟨l', hdel, ?_, fun hm => absurd hm ho'⟩
  rw [if_neg ho', List.getLast?_eq_some_getLast (List.cons_ne_nil b xs)]
  exact hrep'

/-- Deleting a node behind the head: with the first node goes the null pointer. -/
lemma Begun.dlDelete_append (h : l.Begun o (ys ++ q :: a :: zs)) :
    ∃ l', l.dlDelete a = .ok l' ∧ l'.Begun o (ys ++ q :: zs) := by
  obtain ⟨hrep, hlast⟩ := h
  have hnodup := hrep.nodup
  obtain ⟨l', hdel, hrep'⟩ := hrep.dlDelete_tail
  refine ⟨l', hdel, ?_⟩
  have ha : a ∉ ys ++ q :: zs := by
    rw [← List.singleton_append, ← List.append_assoc] at hnodup
    have ha := (List.nodup_cons.mp (List.nodup_append.mp hnodup).2.1).1
    have ha' := fun hm => List.disjoint_of_nodup_append hnodup (a := a) hm List.mem_cons_self
    simp only [List.mem_append, List.mem_cons, List.not_mem_nil, or_false] at ha' ⊢
    tauto
  cases zs with
  | nil =>
      have ho : o ∉ ys ++ [q] := fun hm => by
        have hmem : o ∈ ys ++ [q, a] := by
          rw [List.append_cons]
          exact List.mem_append_left _ hm
        have hoa : o = a := by simpa using (hlast hmem).symm
        exact ha (hoa ▸ hm)
      refine ⟨?_, fun hm => absurd hm ho⟩
      rw [if_neg ho]
      simpa using hrep'
  | cons z zs =>
      have htail : (ys ++ q :: a :: z :: zs).getLast? = (ys ++ q :: z :: zs).getLast? := by
        simp [List.getLast?_append, List.getLast?_cons_cons]
      have hmem : o ∈ ys ++ q :: a :: z :: zs ↔ o ∈ ys ++ q :: z :: zs := by
        refine ⟨fun hm => ?_, fun hm => ?_⟩
        · -- the first node is at the end, so it is not the one deleted
          exact List.mem_of_getLast? (htail.symm.trans (hlast hm))
        · simp only [List.mem_append, List.mem_cons] at hm ⊢
          tauto
      refine ⟨?_, fun hm => htail.symm.trans (hlast (hmem.mpr hm))⟩
      rw [if_neg (List.cons_ne_nil z zs), htail, if_congr hmem rfl rfl] at hrep'
      exact hrep'

/-- **Any other deletion** of one node of several keeps the list. -/
lemma Begun.dlDelete (h : l.Begun o xs) (ha : a ∈ xs) (hb : b ∈ xs) (hba : b ≠ a)
    (hhead : o ∈ xs → xs.head? ≠ some a) :
    ∃ l', l.dlDelete a = .ok l' ∧ l'.Begun o (xs.erase a) := by
  have hnodup := h.represents.nodup
  obtain ⟨ys, zs, rfl⟩ := List.append_of_mem ha
  have haYs : a ∉ ys := fun hm =>
    List.disjoint_of_nodup_append hnodup hm List.mem_cons_self
  rw [List.erase_append_right _ haYs, List.erase_cons_head]
  rcases List.eq_nil_or_concat ys with rfl | ⟨ys, q, rfl⟩
  · obtain ⟨z, zs, rfl⟩ : ∃ z zs', zs = z :: zs' := List.exists_cons_of_ne_nil <| by
      rintro rfl
      exact hba (List.mem_singleton.mp hb)
    exact h.dlDelete_cons fun ho => hhead ho rfl
  · simp only [List.append_assoc, List.singleton_append, List.concat_eq_append] at h ⊢
    exact h.dlDelete_append

/-- A deletion of one node of several that succeeds keeps the list. -/
lemma Begun.of_dlDelete {l' : Utlist α} (h : l.Begun o xs) (ha : a ∈ xs) (hb : b ∈ xs)
    (hba : b ≠ a) (hdel : l.dlDelete a = .ok l') : l'.Begun o (xs.erase a) := by
  obtain ⟨l₁, hdel₁, h₁⟩ := h.dlDelete ha hb hba fun ho hhead => by
    rw [h.dlDelete_head ho hhead] at hdel
    cases hdel
  exact Except.ok.inj (hdel₁.symm.trans hdel) ▸ h₁

/-- When two nodes of a begun list can be deleted one after the other: the first node is gone, or
neither deletion meets it at the other end of the list. -/
def Deletable (o : α) (xs : List α) (a b : α) : Prop :=
  o ∉ xs ∨ (xs.head? ≠ some a ∧ (xs.head? ≠ some b ∨ a = o))

instance (o : α) (xs : List α) (a b : α) : Decidable (Deletable o xs a b) :=
  inferInstanceAs (Decidable (o ∉ xs ∨ _))

lemma head?_erase (h : xs.head? ≠ some a) : (xs.erase a).head? = xs.head? := by
  cases xs with
  | nil => rfl
  | cons x xs =>
      have hxa : x ≠ a := fun he => h (he ▸ rfl)
      rw [List.erase_cons_tail (by simpa using hxa)]
      rfl

/-- A deletion that succeeds has passed its assertion. -/
lemma prev_ne_none_of_dlDelete {l' : Utlist α} (h : l.dlDelete a = .ok l') : l.prev a ≠ none := by
  intro hnone
  unfold Utlist.dlDelete at h
  rw [hnone] at h
  cases hhead : l.head <;> simp [hhead] at h

/-- Two deletions that leave a third node. -/
lemma Begun.dlDelete_dlDelete {c : α} (h : l.Begun o xs) (ha : a ∈ xs) (hb : b ∈ xs)
    (hc : c ∈ xs) (hab : a ≠ b) (hca : c ≠ a) (hcb : c ≠ b) (hdel : Deletable o xs a b) :
    ∃ l₁ l₂, l.dlDelete a = .ok l₁ ∧ l₁.dlDelete b = .ok l₂ ∧
      l₂.Begun o ((xs.erase a).erase b) := by
  have hnodup := h.represents.nodup
  obtain ⟨l₁, hdel₁, h₁⟩ := h.dlDelete ha hc hca fun ho => (hdel.resolve_left (not_not.mpr ho)).1
  obtain ⟨l₂, hdel₂, h₂⟩ := h₁.dlDelete (a := b) (b := c)
    ((List.mem_erase_of_ne hab.symm).mpr hb) ((List.mem_erase_of_ne hca).mpr hc) hcb fun ho => by
      obtain ⟨hoa, hoxs⟩ := hnodup.mem_erase_iff.mp ho
      obtain ⟨hhead, hor⟩ := hdel.resolve_left (not_not.mpr hoxs)
      rw [head?_erase hhead]
      exact hor.resolve_right (Ne.symm hoa)
  exact ⟨l₁, l₂, hdel₁, hdel₂, h₂⟩

/-- **Otherwise one of the two assertions fails.** -/
lemma Begun.dlDelete_dlDelete_error {c : α} (h : l.Begun o xs) (ha : a ∈ xs) (hc : c ∈ xs)
    (hca : c ≠ a) (hdel : ¬Deletable o xs a b) :
    l.dlDelete a = .error .assertion ∨
      ∃ l₁, l.dlDelete a = .ok l₁ ∧ l₁.dlDelete b = .error .assertion := by
  have ho : o ∈ xs := by
    by_contra ho
    exact hdel (.inl ho)
  by_cases hhead : xs.head? = some a
  · exact .inl (h.dlDelete_head ho hhead)
  · have hb : xs.head? = some b ∧ a ≠ o := by
      by_contra hb
      exact hdel (.inr ⟨hhead, by tauto⟩)
    obtain ⟨l₁, hdel₁, h₁⟩ := h.dlDelete ha hc hca fun _ => hhead
    refine .inr ⟨l₁, hdel₁, h₁.dlDelete_head ((List.mem_erase_of_ne hb.2.symm).mpr ho) ?_⟩
    rw [head?_erase hhead]
    exact hb.1

end Utlist

end Framework
