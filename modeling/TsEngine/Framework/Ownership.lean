import Mathlib.Tactic

/-!
# Exclusive ownership

Things of a type `P` lie at places `K`, which change hands: `Owned at live` says that what is at a
place is live, that what is live is at a place, and that nothing is at two places.  A step that
moves one thing, makes it or takes it away keeps this (`Owned.move`).
-/

namespace Framework

universe u v

variable {K : Type u} {P : Type v}

/-- Each live thing is at one place, and no other is at any. -/
structure Owned (at_ : K → P → Prop) (live : P → Prop) : Prop where
  lives : ∀ {k p}, at_ k p → live p
  placed : ∀ {p}, live p → ∃ k, at_ k p
  unique : ∀ {k k' p}, at_ k p → at_ k' p → k = k'

variable {at_ at' : K → P → Prop} {live live' : P → Prop} {p : P} {b : Option K}

/-- The thing `p` is at `b` afterwards, or gone, and the others are where they were. -/
def Moves (p : P) (b : Option K) (at_ at' : K → P → Prop) : Prop :=
  (∀ k, at' k p ↔ b = some k) ∧ ∀ k q, q ≠ p → (at' k q ↔ at_ k q)

/-- **One thing moves.** -/
lemma Owned.move (h : Owned at_ live) (hmove : Moves p b at_ at')
    (hp : live' p ↔ b.isSome = true) (hlive : ∀ q, q ≠ p → (live' q ↔ live q)) :
    Owned at' live' where
  lives {k q} hq := by
    by_cases heq : q = p
    · subst heq
      rw [hp, (hmove.1 k).mp hq]
      rfl
    · exact (hlive q heq).mpr (h.lives ((hmove.2 k q heq).mp hq))
  placed {q} hq := by
    by_cases heq : q = p
    · subst heq
      obtain ⟨k, hk⟩ := Option.isSome_iff_exists.mp (hp.mp hq)
      exact ⟨k, (hmove.1 k).mpr hk⟩
    · obtain ⟨k, hk⟩ := h.placed ((hlive q heq).mp hq)
      exact ⟨k, (hmove.2 k q heq).mpr hk⟩
  unique {k k' q} hk hk' := by
    by_cases heq : q = p
    · subst heq
      exact Option.some.inj (((hmove.1 k).mp hk).symm.trans ((hmove.1 k').mp hk'))
    · exact h.unique ((hmove.2 k q heq).mp hk) ((hmove.2 k' q heq).mp hk')

/-- A thing leaves its place for `b`. -/
lemma Owned.moves (h : Owned at_ live) {k₀ : K} (hp : at_ k₀ p)
    (hat : ∀ k q, at' k q ↔ at_ k q ∧ (k = k₀ → q ≠ p) ∨ b = some k ∧ q = p) :
    Moves p b at_ at' := by
  constructor
  · intro k
    rw [hat]
    constructor
    · rintro (⟨hk, hne⟩ | ⟨hb, -⟩)
      · exact absurd rfl (hne (h.unique hk hp))
      · exact hb
    · exact fun hb => .inr ⟨hb, rfl⟩
  · intro k q hne
    rw [hat]
    constructor
    · rintro (⟨hk, -⟩ | ⟨-, heq⟩)
      · exact hk
      · exact absurd heq hne
    · exact fun hk => .inl ⟨hk, fun _ => hne⟩

/-- A thing stays at its place. -/
lemma Owned.stays (h : Owned at_ live) {k₀ : K} (hp : at_ k₀ p)
    (hat : ∀ k q, at' k q ↔ at_ k q) : Moves p (some k₀) at_ at' := by
  refine ⟨fun k => ?_, fun k q _ => hat k q⟩
  rw [hat, Option.some.injEq]
  exact ⟨fun hk => h.unique hp hk, fun heq => heq ▸ hp⟩

end Framework
