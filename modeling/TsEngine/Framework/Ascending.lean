import Mathlib.Data.List.Basic
import Mathlib.Order.Basic
import Mathlib.Tactic

/-!
# Lists ascending in a key, and their intersection

Intersecting two lists that are strictly ascending in a key needs one simultaneous pass.  What
the pass computes is `Framework.common`: the elements of the first list whose key occurs in the
second and satisfies a test.  The three equations `common_cons_of_lt`, `common_cons_of_gt` and
`common_cons_of_eq` are one step of the pass each, so an implementation with iterators is proved
against `common` by following its own branches.  `common` is a filter, so it is ascending again
(`ascending_common`) and intersecting several lists is iterating it (`mem_foldl_common`).
-/

namespace Framework

variable {α κ : Type*} [LinearOrder κ] (f : α → κ)

/-- Strictly ascending in the key `f`. -/
def Ascending (l : List α) : Prop := l.Pairwise fun a b => f a < f b

/-- The elements of `l₁` whose key occurs in `l₂` and passes the test. -/
def common (p : κ → Bool) (l₁ l₂ : List α) : List α :=
  l₁.filter fun a => decide (f a ∈ l₂.map f) && p (f a)

variable {f} {p : κ → Bool} {a b : α} {l l₁ l₂ : List α}

lemma Ascending.tail (h : Ascending f (a :: l)) : Ascending f l := (List.pairwise_cons.mp h).2

lemma Ascending.head_lt (h : Ascending f (a :: l)) (hb : b ∈ l) : f a < f b :=
  (List.pairwise_cons.mp h).1 b hb

lemma Ascending.nodup (h : Ascending f l) : l.Nodup :=
  List.Pairwise.imp (fun hlt heq => absurd (heq ▸ hlt) (lt_irrefl _)) h

/-- Along an ascending list the key determines the element. -/
lemma Ascending.eq_of_key_eq (h : Ascending f l) (ha : a ∈ l) (hb : b ∈ l) (heq : f a = f b) :
    a = b := by
  induction l with
  | nil => simp at ha
  | cons c l ih =>
      rcases List.mem_cons.mp ha with hac | hal
      · rcases List.mem_cons.mp hb with hbc | hbl
        · rw [hac, hbc]
        · exact absurd heq (hac ▸ h.head_lt hbl).ne
      · rcases List.mem_cons.mp hb with hbc | hbl
        · exact absurd heq (hbc ▸ h.head_lt hal).ne'
        · exact ih h.tail hal hbl

/-- Appending an element above all others. -/
lemma Ascending.append_singleton (h : Ascending f l) (ha : ∀ b ∈ l, f b < f a) :
    Ascending f (l ++ [a]) :=
  List.pairwise_append.mpr ⟨h, List.pairwise_singleton _ _, fun b hb c hc => by
    rw [List.mem_singleton.mp hc]
    exact ha b hb⟩

lemma ascending_common (h : Ascending f l₁) : Ascending f (common f p l₁ l₂) :=
  h.sublist List.filter_sublist

lemma mem_common : a ∈ common f p l₁ l₂ ↔ a ∈ l₁ ∧ f a ∈ l₂.map f ∧ p (f a) = true := by
  simp [common]

@[simp] lemma common_nil_left : common f p [] l₂ = [] := rfl

@[simp] lemma common_nil_right : common f p l₁ [] = [] := by simp [common]

/-- The first list's head is below everything in the second: skip it. -/
lemma common_cons_of_lt (h₂ : Ascending f (b :: l₂)) (hab : f a < f b) :
    common f p (a :: l₁) (b :: l₂) = common f p l₁ (b :: l₂) := by
  have hnot : f a ∉ (b :: l₂).map f := by
    intro hmem
    obtain ⟨c, hc, hca⟩ := List.mem_map.mp hmem
    rcases List.mem_cons.mp hc with rfl | hc
    · exact absurd (hca ▸ hab) (lt_irrefl _)
    · exact absurd (hab.trans (h₂.head_lt hc)) (hca ▸ lt_irrefl _)
  rw [common, List.filter_cons, if_neg (by simp only [hnot]; simp)]
  rfl

/-- The second list's head is below everything in the first: skip it. -/
lemma common_cons_of_gt (h₁ : Ascending f (a :: l₁)) (hba : f b < f a) :
    common f p (a :: l₁) (b :: l₂) = common f p (a :: l₁) l₂ := by
  refine List.filter_congr fun c hc => ?_
  have hbc : f c ≠ f b := by
    rcases List.mem_cons.mp hc with rfl | hc
    · exact hba.ne'
    · exact (hba.trans (h₁.head_lt hc)).ne'
  simp [hbc]

/-- The heads agree: keep the first if it passes, and step both. -/
lemma common_cons_of_eq (h₁ : Ascending f (a :: l₁)) (hab : f a = f b) :
    common f p (a :: l₁) (b :: l₂) =
      (if p (f a) = true then [a] else []) ++ common f p l₁ l₂ := by
  have htail : common f p l₁ (b :: l₂) = common f p l₁ l₂ := by
    refine List.filter_congr fun c hc => ?_
    have hbc : f c ≠ f b := hab ▸ (h₁.head_lt hc).ne'
    simp [hbc]
  rw [← htail, common, List.filter_cons]
  by_cases hp : p (f a) = true
  · simp [hab, hab ▸ hp, common]
  · simp [hab, hab ▸ hp, common]

/-- **Intersecting a list with several others, one after another.** -/
lemma mem_foldl_common {ls : List (List α)} :
    a ∈ ls.foldl (common f p) l ↔
      a ∈ l ∧ (∀ l' ∈ ls, f a ∈ l'.map f) ∧ (ls ≠ [] → p (f a) = true) := by
  induction ls generalizing l with
  | nil => simp
  | cons l' ls ih =>
      rw [List.foldl_cons, ih, mem_common]
      constructor
      · rintro ⟨⟨hl, hl', hp⟩, hls, -⟩
        exact ⟨hl, List.forall_mem_cons.mpr ⟨hl', hls⟩, fun _ => hp⟩
      · rintro ⟨hl, hls, hp⟩
        have hp := hp (by simp)
        exact ⟨⟨hl, hls l' (by simp), hp⟩, fun l'' h => hls l'' (by simp [h]), fun _ => hp⟩

/-- The iterated intersection is a sublist of the first list. -/
lemma foldl_common_sublist (ls : List (List α)) (l : List α) :
    (ls.foldl (common f p) l).Sublist l := by
  induction ls generalizing l with
  | nil => exact List.Sublist.refl l
  | cons l' ls ih => exact (ih _).trans List.filter_sublist

/-- Once the intersection is empty it stays empty. -/
lemma foldl_common_nil (ls : List (List α)) : ls.foldl (common f p) [] = [] :=
  List.eq_nil_of_subset_nil (foldl_common_sublist ls []).subset

/-- **The iterated intersection is a filter** of the list it starts from. -/
lemma foldl_common_eq_filter {ls : List (List α)} (hne : ls ≠ []) :
    ls.foldl (common f p) l = l.filter fun a => decide (∀ l' ∈ ls, f a ∈ l'.map f) && p (f a) := by
  induction ls generalizing l with
  | nil => exact absurd rfl hne
  | cons l' ls ih =>
      cases ls with
      | nil => simp [common]
      | cons l'' ls =>
          rw [List.foldl_cons, ih (by simp), common, List.filter_filter]
          refine List.filter_congr fun a _ => ?_
          rw [Bool.eq_iff_iff]
          simp only [Bool.and_eq_true, decide_eq_true_eq, List.forall_mem_cons]
          tauto

/-! ## Keys that leave no gap -/

section Nat

variable {g : α → ℕ} {m n s : ℕ}

lemma Ascending.length_le (h : Ascending g l) (hb : ∀ a ∈ l, m ≤ g a ∧ g a < n) :
    l.length ≤ n - m := by
  induction l generalizing m with
  | nil => simp
  | cons a l ih =>
      have ha := hb a List.mem_cons_self
      have hl := ih (m := g a + 1) h.tail fun b hbl =>
        ⟨h.head_lt hbl, (hb b (List.mem_cons_of_mem _ hbl)).2⟩
      rw [List.length_cons]
      omega

/-- **As many keys as there is room for** are all of them, in order. -/
lemma Ascending.map_eq_range' (h : Ascending g l) (hb : ∀ a ∈ l, s ≤ g a ∧ g a < s + l.length) :
    l.map g = List.range' s l.length := by
  induction l generalizing s with
  | nil => rfl
  | cons a l ih =>
      rw [List.length_cons] at hb
      have ha := hb a List.mem_cons_self
      have hrest : ∀ b ∈ l, g a + 1 ≤ g b ∧ g b < s + (l.length + 1) := fun b hbl =>
        ⟨h.head_lt hbl, (hb b (List.mem_cons_of_mem _ hbl)).2⟩
      have hlen := h.tail.length_le hrest
      have hs : g a = s := by omega
      rw [List.map_cons, List.length_cons, List.range'_succ, hs,
        ih (s := s + 1) h.tail fun b hbl => by have := hrest b hbl; omega]

end Nat

end Framework
