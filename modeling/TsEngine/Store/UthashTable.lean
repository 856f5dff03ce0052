import TsEngine.Framework.Keyed
import TsEngine.Store.UthashBuckets

/-!
# A hash table as a list of keyed elements

`Uthash.Represents` relates a table to the list of its keys and elements in the order in which they
were added: the list of all elements is chained, keys and hash values are noted in the handles, the
tail and the number of elements are right, and every element is in its bucket.  A table without
elements does not exist, so its head is null.

Each macro has its specification here: what `HASH_FIND`, `HASH_ITER` and `HASH_COUNT` return, and
what `HASH_ADD` and `HASH_DEL` make of the list.  `HASH_FSCK`, the check that the macros make on
themselves when they are compiled for debugging, finds nothing wrong with a table that represents a
list (`Uthash.Represents.fsck_eq`).
-/

namespace TsEngine

open Framework

variable {α κ : Type}

namespace Uthash

/-! ## The relation -/

/-- The table behind a head pointer that is not null. -/
structure TableOf (h : Uthash α κ) (tbl : UtHashTable α) (xs : List α) : Prop where
  tail : tbl.tail = xs.getLast?
  numItems : tbl.numItems = UInt32.ofNat xs.length
  buckets : InBuckets h.hhNext h.hhPrev h.hashv tbl.numBuckets tbl.buckets xs

/-- A table has the elements of a list, under the keys there. -/
structure Represents (hash : κ → UInt32) (h : Uthash α κ) (t : List (κ × α)) : Prop where
  wf : Keyed.Wf Prod.fst t
  app : Chain h.next h.prev h.head (t.map Prod.snd)
  key : ∀ p ∈ t, h.key p.2 = p.1
  hashv : ∀ p ∈ t, h.hashv p.2 = hash p.1
  table : t ≠ [] → ∃ tbl, h.tbl = some tbl ∧ h.TableOf tbl (t.map Prod.snd)
  noTable : t = [] → h.tbl = none

variable {hash : κ → UInt32} {h h' : Uthash α κ} {t : List (κ × α)} {n mem : ℕ}

lemma headTbl_eq_ok {tbl : UtHashTable α} :
    h.headTbl = .ok tbl ↔ h.head ≠ none ∧ h.tbl = some tbl := by
  rw [headTbl]
  cases h.head <;> cases h.tbl <;> simp

lemma represents_empty (handles : UtHashHandles α κ) : (empty handles).Represents hash [] :=
  ⟨List.nodup_nil, .nil, by simp, by simp, fun hne => absurd rfl hne, fun _ => rfl⟩

namespace Represents

lemma head_eq_none (h : Represents hash h' t) : h'.head = none ↔ t = [] := by
  rw [h.app.start_eq, List.head?_eq_none_iff, List.map_eq_nil_iff]

/-- The table of a list that has elements. -/
lemma headTbl_eq (h : Represents hash h' t) (hne : t ≠ []) :
    ∃ tbl, h'.tbl = some tbl ∧ h'.headTbl = .ok tbl ∧ h'.TableOf tbl (t.map Prod.snd) := by
  obtain ⟨tbl, htbl, hof⟩ := h.table hne
  exact ⟨tbl, htbl, headTbl_eq_ok.mpr ⟨mt h.head_eq_none.mp hne, htbl⟩, hof⟩

/-! ## What the macros return -/

/-- **`HASH_ITER`.** -/
lemma iter_eq (h : Represents hash h' t) (hn : t.length ≤ n) :
    h'.iter n h'.head = .ok (t.map Prod.snd) :=
  Uthash.iter_eq h.app.forth (by simpa using hn)

/-- **`HASH_COUNT`.** -/
lemma count_eq (h : Represents hash h' t) : h'.count = .ok (UInt32.ofNat t.length) := by
  rw [count]
  cases hhead : h'.head with
  | none =>
      rw [h.head_eq_none.mp hhead]
      rfl
  | some a =>
      have hne : t ≠ [] := fun he => by
        rw [h.head_eq_none.mpr he] at hhead
        cases hhead
      obtain ⟨tbl, -, htbl, hof⟩ := h.headTbl_eq hne
      rw [htbl]
      exact congrArg Except.ok (hof.numItems.trans (by rw [List.length_map]))

/-- **`HASH_FIND`.** -/
lemma hashFind_eq [DecidableEq κ] (h : Represents hash h' t) (hn : t.length ≤ n) (k : κ) :
    h'.hashFind n hash k = .ok ((Keyed.find Prod.fst t k).map Prod.snd) := by
  rw [hashFind]
  cases hhead : h'.head with
  | none =>
      rw [h.head_eq_none.mp hhead]
      rfl
  | some a =>
      have hne : t ≠ [] := fun he => by
        rw [h.head_eq_none.mpr he] at hhead
        cases hhead
      obtain ⟨tbl, -, htbl, hof⟩ := h.headTbl_eq hne
      obtain ⟨b, hb⟩ := hof.buckets.exists_bkt (hash k)
      obtain ⟨ys, hchain, hmem, -⟩ := hof.buckets.chain _ b hb
      have hlen : ys.length ≤ n := (hchain.nodup.subperm fun y hy =>
        ((hmem y).mp hy).1).length_le.trans (by simpa using hn)
      simp only [htbl, UtHashTable.bkt_eq.mpr hb, bind, Except.bind]
      rw [findInBkt_eq hchain.forth hlen]
      congr 1
      cases hfind : Keyed.find Prod.fst t k with
      | none =>
          -- an element of the chain that has the key would be in the list
          refine List.find?_eq_none.mpr fun y hy => ?_
          obtain ⟨p, hp, rfl⟩ := List.mem_map.mp ((hmem y).mp hy).1
          have hkey := Keyed.find_eq_none.mp hfind p hp
          simp [h.key p hp, hkey]
      | some p =>
          have hp := Keyed.mem_of_find hfind
          have hk := Keyed.key_of_find hfind
          have hpys : p.2 ∈ ys :=
            (hmem p.2).mpr ⟨List.mem_map_of_mem hp, by rw [h.hashv p hp, hk]⟩
          have hsome : (ys.find? fun y => h'.hashv y = hash k ∧ h'.key y = k).isSome :=
            List.find?_isSome.mpr ⟨p.2, hpys, by simp [h.hashv p hp, h.key p hp, hk]⟩
          obtain ⟨y, hy⟩ := Option.isSome_iff_exists.mp hsome
          obtain ⟨q, hq, rfl⟩ := List.mem_map.mp ((hmem y).mp (List.mem_of_find?_eq_some hy)).1
          have hqk : h'.key q.2 = k := by
            have htrue := List.find?_some hy
            simp only [decide_eq_true_eq] at htrue
            exact htrue.2
          have hqk' : q.1 = k := (h.key q hq).symm.trans hqk
          have heq : Keyed.find Prod.fst t k = some q := hqk' ▸ Keyed.find_of_mem h.wf hq
          obtain rfl : p = q := Option.some.inj (hfind.symm.trans heq)
          exact hy

end Represents

/-! ## Adding an element -/

variable [DecidableEq α] {x : α} {k : κ} {tbl : UtHashTable α} {xs : List α}

/-- **`HASH_ADD_TO_TABLE`** puts an element in its bucket, unless there is no memory. -/
lemma addToTable_spec (hmem : mem < 2 ^ 36) (htbl : h.headTbl = .ok tbl) (hx : x ∉ xs)
    (hn : xs.length + 1 ≤ n)
    (hin : InBuckets h.hhNext h.hhPrev h.hashv tbl.numBuckets tbl.buckets xs) :
    h.addToTable n mem (h.hashv x) x = .error .outOfMemory ∨
      ∃ hhNext hhPrev tbl', h.addToTable n mem (h.hashv x) x = .ok { h with
          hhNext := hhNext
          hhPrev := hhPrev
          tbl := some tbl' } ∧
        tbl'.tail = tbl.tail ∧ tbl'.numItems = tbl.numItems + 1 ∧
        InBuckets hhNext hhPrev h.hashv tbl'.numBuckets tbl'.buckets (x :: xs) ∧
        ∀ y ∉ x :: xs, hhNext y = h.hhNext y ∧ hhPrev y = h.hhPrev y := by
  obtain ⟨hhead, -⟩ := headTbl_eq_ok.mp htbl
  obtain ⟨b, hb⟩ := hin.exists_bkt (h.hashv x)
  set tbl₁ : UtHashTable α := { tbl with numItems := tbl.numItems + 1 } with htbl₁
  set h₁ : Uthash α κ := { h with tbl := some tbl₁ } with hh₁
  set h₂ := pushInBkt (hashToBkt (h.hashv x) tbl.numBuckets) x tbl₁ b h₁ with hh₂
  have hpush := hin.push hx ⟨some x, b.count + 1, b.expandMult⟩ hb rfl rfl
  have hsame : ∀ y ∉ x :: xs, h₂.hhNext y = h.hhNext y ∧ h₂.hhPrev y = h.hhPrev y := fun y hy => by
    obtain ⟨hyx, hyxs⟩ := not_or.mp (mt List.mem_cons.mpr hy)
    refine ⟨Function.update_of_ne hyx _ _, (setAt_of_ne fun hhd => ?_).trans
      (Function.update_of_ne hyx _ _)⟩
    obtain ⟨ys, hchain, hys, -⟩ := hin.chain _ b hb
    exact hyxs ((hys y).mp (List.mem_of_mem_head? (hchain.start_eq.symm.trans hhd))).1
  have hadd : h.addToTable n mem (h.hashv x) x =
      if (b.expandMult + 1) * hashBktCapacityThresh ≤ b.count + 1 ∧ tbl.noexpand = 0 then
        expandBuckets n mem h₂
      else .ok h₂ := by
    have hhead₁ : h₁.headTbl = .ok tbl₁ := headTbl_eq_ok.mpr ⟨hhead, rfl⟩
    have hb₁ : tbl₁.bkt (hashToBkt (h.hashv x) tbl.numBuckets) = .ok b :=
      UtHashTable.bkt_eq.mpr hb
    simp only [addToTable, htbl, bind, Except.bind, addToBkt, ← htbl₁, ← hh₁, hhead₁, hb₁]
    rfl
  rw [hadd]
  split_ifs with hfull
  · have hhead₂ : h₂.headTbl = .ok _ := headTbl_eq_ok.mpr ⟨hhead, rfl⟩
    rcases expandBuckets_spec hmem hhead₂ (by simpa using hn) hpush with
      herr | ⟨r, hr, hin', hsame'⟩
    · exact .inl herr
    · refine .inr ⟨r.hhNext, r.hhPrev, _, hr, rfl, rfl, hin', fun y hy => ?_⟩
      rw [(hsame' y hy).1, (hsame' y hy).2]
      exact hsame y hy
  · exact .inr ⟨_, _, _, rfl, rfl, rfl, hpush, hsame⟩

/-- An element that is on the list of all elements, with its key, is put in its bucket. -/
lemma addToTable_represents (hmem : mem < 2 ^ 36) (h : Represents hash h' t)
    (hk : k ∉ t.map Prod.fst) (hx : x ∉ t.map Prod.snd) (hn : t.length + 1 ≤ n) (h₁ : Uthash α κ)
    (htbl : h₁.headTbl = .ok tbl) (happ : Chain h₁.next h₁.prev h₁.head (t.map Prod.snd ++ [x]))
    (hkey : h₁.key = Function.update h'.key x k)
    (hhashv : h₁.hashv = Function.update h'.hashv x (hash k)) (htail : tbl.tail = some x)
    (hitems : tbl.numItems = UInt32.ofNat t.length)
    (hin : InBuckets h₁.hhNext h₁.hhPrev h'.hashv tbl.numBuckets tbl.buckets (t.map Prod.snd)) :
    h₁.addToTable n mem (hash k) x = .error .outOfMemory ∨
      ∃ s, h₁.addToTable n mem (hash k) x = .ok s ∧ s.Represents hash (t ++ [(k, x)]) ∧
        s.next = h₁.next ∧ s.prev = h₁.prev ∧ s.key = h₁.key ∧ s.hashv = h₁.hashv ∧
        ∀ y ∉ x :: t.map Prod.snd, s.hhNext y = h₁.hhNext y ∧ s.hhPrev y = h₁.hhPrev y := by
  have hhashvx : h₁.hashv x = hash k := by rw [hhashv, Function.update_self]
  have hne : ∀ p ∈ t, p.2 ≠ x := fun p hp he =>
    hx (List.mem_map.mpr ⟨p, hp, he⟩)
  have hin₁ : InBuckets h₁.hhNext h₁.hhPrev h₁.hashv tbl.numBuckets tbl.buckets
      (t.map Prod.snd) := by
    refine hin.congr (fun _ => Iff.rfl) (fun _ _ => rfl) (fun _ _ => rfl) fun y hy => ?_
    rw [hhashv]
    exact Function.update_of_ne (ne_of_mem_of_not_mem hy hx) _ _
  rw [← hhashvx]
  rcases addToTable_spec hmem htbl hx (by simpa using hn) hin₁ with
    herr | ⟨hhNext, hhPrev, tbl', hadd, htail', hitems', hin', hsame⟩
  · exact .inl herr
  · refine .inr ⟨_, hadd, ?_, rfl, rfl, rfl, rfl, hsame⟩
    constructor
    · rw [Keyed.Wf, List.map_append]
      refine List.nodup_append.mpr ⟨h.wf, List.nodup_singleton k, fun a ha b hb he => ?_⟩
      obtain rfl := List.mem_singleton.mp hb
      exact hk (he ▸ ha)
    · rw [List.map_append]
      exact happ
    · rw [hkey]
      refine List.forall_mem_append.mpr ⟨fun p hp => ?_, List.forall_mem_singleton.mpr ?_⟩
      · rw [Function.update_of_ne (hne p hp), h.key p hp]
      · exact Function.update_self ..
    · rw [hhashv]
      refine List.forall_mem_append.mpr ⟨fun p hp => ?_, List.forall_mem_singleton.mpr ?_⟩
      · rw [Function.update_of_ne (hne p hp), h.hashv p hp]
      · exact Function.update_self ..
    · refine fun _ => ⟨tbl', rfl, ?_, ?_, hin'.congr (fun y => ?_) (fun _ _ => rfl)
        (fun _ _ => rfl) fun _ _ => rfl⟩
      · rw [htail', htail, List.map_append, List.getLast?_append]
        rfl
      · rw [hitems', hitems, List.length_map, List.length_append, UInt32.ofNat_add]
        rfl
      · simp [or_comm]
    · simp

omit [DecidableEq α] in
lemma makeTable_eq (mem : ℕ) (x : α) :
    makeTable mem x = .error .outOfMemory ∨ makeTable mem x = .ok (newTable x) := by
  simp only [makeTable, uthashMalloc, bind, Except.bind]
  by_cases hsize : sizeofUtHashTable ≤ mem
  · rw [if_pos hsize]
    split_ifs
    · exact .inr rfl
    · exact .inl rfl
  · rw [if_neg hsize]
    exact .inl rfl

/-- **The list of all elements** gets a new last one, with a new table if there was none. -/
lemma Represents.hashAddList (mem : ℕ) (h : Represents hash h' t) (hx : x ∉ t.map Prod.snd)
    (h₀ : Uthash α κ)
    (happ : h₀.next = h'.next ∧ h₀.prev = h'.prev) (hhead : h₀.head = h'.head ∧ h₀.tbl = h'.tbl)
    (hhh : h₀.hhNext = h'.hhNext ∧ h₀.hhPrev = h'.hhPrev) :
    h₀.hashAddList mem x = .error .outOfMemory ∨
      ∃ next prev head tbl, h₀.hashAddList mem x = .ok { h₀ with
          next := next
          prev := prev
          head := some head
          tbl := some tbl } ∧
        Chain next prev (some head) (t.map Prod.snd ++ [x]) ∧
        (∀ y ∉ x :: t.map Prod.snd, next y = h'.next y ∧ prev y = h'.prev y) ∧
        tbl.tail = some x ∧ tbl.numItems = UInt32.ofNat t.length ∧
        InBuckets h₀.hhNext h₀.hhPrev h'.hashv tbl.numBuckets tbl.buckets (t.map Prod.snd) := by
  have hupdate : ∀ (f : α → Option α) (v : Option α), ∀ y ∉ x :: t.map Prod.snd,
      Function.update f x v y = f y := fun f v y hy =>
    Function.update_of_ne (List.ne_of_not_mem_cons hy) _ _
  rw [Uthash.hashAddList, hhead.1, happ.1, happ.2]
  cases hhead' : h'.head with
  | none =>
      obtain rfl : t = [] := h.head_eq_none.mp hhead'
      rcases makeTable_eq mem x with herr | hmake
      · exact .inl (by simp only [herr, bind, Except.bind])
      · refine .inr ⟨_, _, x, newTable x, by simp only [hmake, bind, Except.bind]; rfl, ?_, ?_, rfl,
          rfl, ?_⟩
        · exact Chain.pushFront .nil List.not_mem_nil
        · exact fun y hy => ⟨hupdate _ _ y hy, hupdate _ _ y hy⟩
        · exact .zero rfl (by decide)
  | some a =>
      have hne : t ≠ [] := fun he => by
        rw [h.head_eq_none.mpr he] at hhead'
        cases hhead'
      obtain ⟨tbl, htbl, -, hof⟩ := h.headTbl_eq hne
      obtain hnil | ⟨ys, b, hys⟩ := List.eq_nil_or_concat (t.map Prod.snd)
      · exact absurd (List.map_eq_nil_iff.mp hnil) hne
      rw [List.concat_eq_append] at hys
      have htail : tbl.tail = some b := by rw [hof.tail, hys, List.getLast?_append]; rfl
      have hchain := Chain.append (hys ▸ h.app) (hys ▸ hx)
      rw [← hys, hhead'] at hchain
      have hb : b ∈ t.map Prod.snd := by simp [hys]
      have hhead₀ : h₀.headTbl = .ok tbl :=
        headTbl_eq_ok.mpr ⟨by simp [hhead.1, hhead'], hhead.2.trans htbl⟩
      refine .inr ⟨_, _, a, { tbl with tail := some x }, ?_, hchain, fun y hy => ⟨?_, ?_⟩, rfl, ?_,
        ?_⟩
      · simp only [appendList, hhead₀, htail, bind, Except.bind, happ.1, happ.2, hhead.1, hhead']
      · have hyb : y ≠ b := fun he => hy (List.mem_cons_of_mem x (he ▸ hb))
        rw [Function.update_of_ne hyb, hupdate _ _ y hy]
      · exact hupdate _ _ y hy
      · rw [hof.numItems, List.length_map]
      · rw [hhh.1, hhh.2]
        exact hof.buckets

/-- **`HASH_ADD`** of an element that is in no table, under a key that the table does not have,
appends it, unless there is no memory.  It leaves the handles of other elements alone. -/
lemma Represents.hashAdd (hmem : mem < 2 ^ 36) (h : Represents hash h' t)
    (hk : k ∉ t.map Prod.fst) (hx : x ∉ t.map Prod.snd) (hn : t.length + 1 ≤ n) :
    h'.hashAdd n mem hash k x = .error .outOfMemory ∨
      ∃ s, h'.hashAdd n mem hash k x = .ok s ∧ s.Represents hash (t ++ [(k, x)]) ∧
        AgreeOff (x :: t.map Prod.snd) h'.toUtHashHandles s.toUtHashHandles := by
  rw [Uthash.hashAdd]
  rcases h.hashAddList mem hx { h' with
      hashv := Function.update h'.hashv x (hash k)
      key := Function.update h'.key x k } ⟨rfl, rfl⟩ ⟨rfl, rfl⟩ ⟨rfl, rfl⟩ with
    herr | ⟨next, prev, head, tbl, hlist, hchain, hsame, htail, hitems, hin⟩
  · exact .inl (by rw [herr]; rfl)
  · rw [hlist]
    rcases addToTable_represents (k := k) (n := n) hmem h hk hx hn { h' with
        hashv := Function.update h'.hashv x (hash k)
        key := Function.update h'.key x k
        next := next
        prev := prev
        head := some head
        tbl := some tbl }
        (headTbl_eq_ok.mpr ⟨Option.some_ne_none head, rfl⟩) hchain rfl rfl htail hitems hin with
      herr | ⟨s, hs, hrep, hnext, hprev, hkey, hhashv, hsame'⟩
    · exact .inl herr
    · refine .inr ⟨s, hs, hrep, fun y hy => ?_, fun y hy => ?_, fun y hy => (hsame' y hy).2,
        fun y hy => (hsame' y hy).1, fun y hy => ?_, fun y hy => ?_⟩
      · rw [hprev]
        exact (hsame y hy).2
      · rw [hnext]
        exact (hsame y hy).1
      · rw [hkey]
        exact Function.update_of_ne (List.ne_of_not_mem_cons hy) _ _
      · rw [hhashv]
        exact Function.update_of_ne (List.ne_of_not_mem_cons hy) _ _

/-! ## Deleting an element -/

/-- What is left of the list of all elements when one is taken out that is not the only one. -/
lemma Represents.hashDelList {us vs : List (κ × α)} (h : Represents hash h' (us ++ (k, x) :: vs))
    (hne : us ++ vs ≠ []) {tbl : UtHashTable α}
    (hof : h'.TableOf tbl ((us ++ (k, x) :: vs).map Prod.snd)) :
    ∃ tbl', (h'.hashDelList x tbl).headTbl = .ok tbl' ∧
      tbl'.tail = ((us ++ vs).map Prod.snd).getLast? ∧
      tbl'.numItems = UInt32.ofNat (us ++ vs).length ∧
      tbl'.numBuckets = tbl.numBuckets ∧ tbl'.buckets = tbl.buckets ∧
      Chain (h'.hashDelList x tbl).next (h'.hashDelList x tbl).prev (h'.hashDelList x tbl).head
        ((us ++ vs).map Prod.snd) := by
  have happ := h.app
  have htail := hof.tail
  rw [List.map_append, List.map_cons] at happ htail
  have hout := happ.unlink
  rw [← List.map_append] at hout
  have hhead : (h'.hashDelList x tbl).head ≠ none := fun he => by
    have hnil := hout.start_eq.symm.trans he
    exact hne (List.map_eq_nil_iff.mp (List.head?_eq_none_iff.mp hnil))
  refine ⟨_, headTbl_eq_ok.mpr ⟨hhead, rfl⟩, ?_, ?_, rfl, rfl, hout⟩
  · show (if tbl.tail = some x then h'.prev x else tbl.tail) = _
    rw [htail, happ.prev_eq, List.map_append]
    rcases List.eq_nil_or_concat (vs.map Prod.snd) with hvs | ⟨ws, w, hvs⟩
    · simp [hvs]
    · have hxw : w ≠ x := fun he => by
        have hnodup := (List.nodup_append.mp happ.nodup).2.1
        rw [hvs] at hnodup
        exact (List.nodup_cons.mp hnodup).1 (by simp [he])
      have hlast : ∀ as : List α, (as ++ [w]).getLast? = some w := fun as => by
        rw [List.getLast?_append]
        rfl
      rw [hvs, List.concat_eq_append, ← List.cons_append, ← List.append_assoc, ← List.append_assoc,
        hlast, hlast, if_neg fun he => hxw (Option.some.inj he)]
  · show tbl.numItems - 1 = _
    rw [hof.numItems]
    simp only [List.length_map, List.length_append, List.length_cons, ← Nat.add_assoc,
      UInt32.ofNat_add]
    exact UInt32.add_sub_cancel _ _

/-- **`HASH_DEL`** of an element of the table takes it out.  It leaves the handles of elements of
other tables alone. -/
lemma Represents.hashDelete {us vs : List (κ × α)} (h : Represents hash h' (us ++ (k, x) :: vs)) :
    ∃ s, h'.hashDelete x = .ok s ∧ s.Represents hash (us ++ vs) ∧
      AgreeOff ((us ++ (k, x) :: vs).map Prod.snd) h'.toUtHashHandles s.toUtHashHandles := by
  obtain ⟨tbl, htbl, hheadTbl, hof⟩ := h.headTbl_eq (by simp)
  have hsub : (us ++ vs).Sublist (us ++ (k, x) :: vs) :=
    (List.sublist_cons_self _ vs).append_left us
  have happ := h.app
  rw [List.map_append, List.map_cons] at happ
  have hprev : h'.prev x = (us.map Prod.snd).getLast? := happ.prev_eq
  have hnext : h'.next x = (vs.map Prod.snd).head? := happ.next_eq
  have hlast : h'.prev x = none ∧ h'.next x = none ↔ us ++ vs = [] := by
    rw [hprev, hnext]
    simp
  rw [Uthash.hashDelete, hheadTbl]
  by_cases hne : us ++ vs = []
  · -- the last element takes the table with it
    refine ⟨{ h' with head := none, tbl := none }, ?_, ?_, ?_⟩
    · simp only [bind, Except.bind, if_pos (hlast.mpr hne)]
      rfl
    · rw [hne]
      exact ⟨List.nodup_nil, .nil, by simp, by simp, fun hne => absurd rfl hne, fun _ => rfl⟩
    · exact ⟨fun _ _ => rfl, fun _ _ => rfl, fun _ _ => rfl, fun _ _ => rfl, fun _ _ => rfl,
        fun _ _ => rfl⟩
  · obtain ⟨tbl', htbl', htail', hitems', hnum', hbkts', hchain⟩ := h.hashDelList hne hof
    obtain ⟨b, hb⟩ := hof.buckets.exists_bkt (h'.hashv x)
    have hx : x ∈ (us ++ (k, x) :: vs).map Prod.snd := by simp
    have hnodup := h.app.nodup
    rw [List.map_append, List.map_cons] at hnodup
    have hxout := (List.nodup_middle.mp hnodup).notMem
    have hxs : ∀ y, y ∈ (us ++ vs).map Prod.snd ↔ y ∈ (us ++ (k, x) :: vs).map Prod.snd ∧ y ≠ x :=
      fun y => by
        rw [List.map_append, List.map_append, List.map_cons, List.mem_append, List.mem_append,
          List.mem_cons]
        refine ⟨fun hy => ⟨hy.imp_right .inr, fun he => hxout (he ▸ List.mem_append.mpr hy)⟩, ?_⟩
        rintro ⟨hy | rfl | hy, hne⟩
        · exact .inl hy
        · exact absurd rfl hne
        · exact .inr hy
    have hin := hof.buckets.unlink hx { b with
      count := b.count - 1
      hhHead := if b.hhHead = some x then h'.hhNext x else b.hhHead } hxs hb rfl rfl
    have hb' : tbl'.bkt (hashToBkt (h'.hashv x) tbl.numBuckets) = .ok b :=
      UtHashTable.bkt_eq.mpr (by rw [hbkts']; exact hb)
    refine ⟨takeFromBkt (hashToBkt (h'.hashv x) tbl.numBuckets) x tbl' b (h'.hashDelList x tbl), ?_,
      ⟨h.wf.sublist (hsub.map Prod.fst), hchain, fun p hp => h.key p (hsub.subset hp),
        fun p hp => h.hashv p (hsub.subset hp), fun _ => ⟨_, rfl, htail', ?_, ?_⟩,
        fun he => absurd he hne⟩, ?_⟩
    · simp only [bind, Except.bind, if_neg (mt hlast.mp hne), delInBkt, htbl', hb']
      rfl
    · rw [List.length_map]
      exact hitems'
    · show InBuckets _ _ _ tbl'.numBuckets (tbl'.buckets.set _ _) _
      rw [hnum', hbkts']
      exact hin
    · have hx' : x ∈ us.map Prod.snd ++ (k, x).2 :: vs.map Prod.snd := by simp
      refine ⟨fun y hy => setAt_of_ne fun he => hy ?_, fun y hy => setAt_of_ne fun he => hy ?_,
        fun y hy => setAt_of_ne fun he => hy ?_, fun y hy => setAt_of_ne fun he => hy ?_,
        fun _ _ => rfl, fun _ _ => rfl⟩
      · exact h.app.mem_of_next hx he
      · exact h.app.mem_of_prev hx he
      · exact hof.buckets.mem_of_next hx he
      · exact hof.buckets.mem_of_prev hx he

/-! ## Checking -/

/-- A walk along a chain counts its elements. -/
lemma fsckWalk_eq {next prev : α → Option α} {before start : Option α} {ys : List α}
    (hforth : Utlist.NextChain next none start ys) (hback : Utlist.PrevChain prev before ys)
    (hn : ys.length ≤ n) : fsckWalk next prev n before start = .ok (UInt32.ofNat ys.length) := by
  induction ys generalizing start before n with
  | nil =>
      rw [Utlist.NextChain] at hforth
      cases n <;> simp [fsckWalk, hforth]
  | cons y ys ih =>
      obtain ⟨rfl, hforth⟩ := hforth
      obtain _ | n := n
      · simp at hn
      · rw [fsckWalk, if_pos hback.1, ih hforth hback.2 (by simpa using hn), List.length_cons,
          UInt32.ofNat_add]
        rfl

/-- The count of a bucket is the number of elements whose hash value leads there. -/
lemma fsckBkt_eq (hin : InBuckets h.hhNext h.hhPrev h.hashv tbl.numBuckets tbl.buckets xs)
    (hnodup : xs.Nodup) (hn : xs.length ≤ n) {i : ℕ} (hi : i < tbl.numBuckets.toNat)
    (count : UInt32) : fsckBkt n tbl h count i = .ok (count + UInt32.ofNat
      (xs.countP fun x => hashToBkt (h.hashv x) tbl.numBuckets = i)) := by
  have hb := List.getElem?_eq_getElem (l := tbl.buckets) (hin.length ▸ hi)
  obtain ⟨ys, hchain, hys, hlen⟩ := hin.chain i _ hb
  have hperm : ys.Perm (xs.filter fun x => hashToBkt (h.hashv x) tbl.numBuckets = i) :=
    (List.perm_ext_iff_of_nodup hchain.nodup (hnodup.filter _)).mpr fun x => by
      rw [hys, List.mem_filter, decide_eq_true_eq]
  have hlength := hperm.length_eq
  rw [← List.countP_eq_length_filter] at hlength
  rw [hlength] at hlen
  have hn' : ys.length ≤ n := hlength ▸ List.countP_le_length.trans hn
  simp only [fsckBkt, UtHashTable.bkt_eq.mpr hb, bind, Except.bind,
    fsckWalk_eq hchain.forth hchain.back hn', hlength, hlen, if_true]

omit [DecidableEq α] in
/-- Counting bucket by bucket. -/
lemma countP_mem_append (bkt : α → ℕ) (xs : List α) {pre : List ℕ} {i : ℕ} (hi : i ∉ pre) :
    (xs.countP fun x => bkt x ∈ pre ++ [i]) =
      (xs.countP fun x => bkt x ∈ pre) + xs.countP fun x => bkt x = i := by
  induction xs with
  | nil => rfl
  | cons x xs ih =>
      rw [List.countP_cons, List.countP_cons, List.countP_cons, ih]
      by_cases hx : bkt x = i
      · simp [hx, hi]
        omega
      · simp [hx]
        omega

/-- **`HASH_FSCK`** finds nothing wrong. -/
lemma Represents.fsck_eq (h : Represents hash h' t) (hn : t.length ≤ n) :
    h'.hashFsck n = .ok () := by
  rw [hashFsck]
  cases hhead : h'.head with
  | none => rfl
  | some a =>
      have hne : t ≠ [] := fun he => by
        rw [h.head_eq_none.mpr he] at hhead
        cases hhead
      obtain ⟨tbl, -, htbl, hof⟩ := h.headTbl_eq hne
      have hn' : (t.map Prod.snd).length ≤ n := by simpa using hn
      set bkt := fun x => hashToBkt (h'.hashv x) tbl.numBuckets with hbkt
      -- the elements of the buckets visited have been counted
      obtain ⟨count, hfold, rfl⟩ := foldlM_eq_ok (f := fsckBkt n tbl h')
        (fun pre count => count = UInt32.ofNat ((t.map Prod.snd).countP fun x => bkt x ∈ pre))
        (l := List.range tbl.numBuckets.toNat) (b := 0)
        (fun pre i post count hpre hcount => by
          have hi : i < tbl.numBuckets.toNat := by
            rw [← List.mem_range, hpre]
            simp
          have hipre : i ∉ pre := fun hmem => by
            have hnodup := hpre ▸ List.nodup_range (n := tbl.numBuckets.toNat)
            exact (List.nodup_append.mp hnodup).2.2 i hmem i List.mem_cons_self rfl
          refine ⟨_, fsckBkt_eq hof.buckets h.app.nodup hn' hi count, ?_⟩
          rw [countP_mem_append bkt _ hipre, hcount, UInt32.ofNat_add])
        (by simp)
      have hall : (t.map Prod.snd).countP (fun x => bkt x ∈ List.range tbl.numBuckets.toNat) =
          t.length := by
        rw [List.countP_eq_length.mpr fun x _ => by simpa using hashToBkt_lt hof.buckets.pos,
          List.length_map]
      have hitems : tbl.numItems = UInt32.ofNat t.length := by rw [hof.numItems, List.length_map]
      have hwalk := fsckWalk_eq h.app.forth h.app.back hn'
      rw [List.length_map, hhead] at hwalk
      simp only [htbl, bind, Except.bind, hfold, hall, hitems, if_true, hwalk]

end Uthash

end TsEngine
