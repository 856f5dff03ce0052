import TsEngine.Framework.Runs

/-!
# Critical sections under a test-and-set lock

Any number of threads share a state that they change in sections of code between the lock and the
unlock of a `TryLock`, one load or store after the other.  A thread that finds the lock held tests
it again and again.  Before it asks for the lock, a thread may set an unused resource aside, as an
allocator does; and there is a part of the state that threads read without the lock.

`Sections` is the code of such threads.  `Sections.locked` runs it step by step, with every
interleaving; `Sections.atomic` takes a whole section as one step.  The laws of `Sections` are about
one section by itself: it computes what `whole` says, and what is read without the lock changes at
its last step at the earliest.  `Sections.refines` derives that the threads cannot tell the two
systems apart: a run of the first is matched by a run of the second with the same events, provided
that no section faults when it is taken as a whole.
-/

namespace Framework

/-! ## The lock -/

/-- A lock that is free or held: the test that a waiting thread makes, its attempt to take the
lock, and the release. -/
structure TryLock (μ : Type) where
  free : μ
  held : μ
  test : μ → Bool
  attempt : μ → Bool × μ
  release : μ → μ
  test_free : test free = true
  attempt_free : attempt free = (true, held)
  attempt_held : attempt held = (false, held)
  release_held : release held = free

/-- From the position `k` a section ends in the state `s'` with the result `r`, and until its last
step nothing can be seen of it by `read`. -/
inductive Finishes {σ ω κ ρ ε : Type} (step : κ → σ → Except ε (σ × (κ ⊕ ρ))) (read : σ → ω) :
    κ → σ → σ → ρ → Prop
  | last {k : κ} {s s' : σ} {r : ρ} (hstep : step k s = .ok (s', .inr r)) :
      Finishes step read k s s' r
  | more {k k₁ : κ} {s s₁ s' : σ} {r : ρ} (hstep : step k s = .ok (s₁, .inl k₁))
      (hread : read s₁ = read s) (hrest : Finishes step read k₁ s₁ s' r) :
      Finishes step read k s s' r

/-! ## The code of the threads -/

/-- What threads with a state `ο` of their own do to a shared state `σ`: calls `ι` whose sections
have positions `κ` and results `ρ`, and steps `β` outside that see `ω` of the shared state.  A call
may hold a resource `π`. -/
structure Sections (σ ο ω ι κ ρ β π ε : Type) where
  /-- The section of a call, taken as a whole. -/
  whole : ι → σ → Except ε (σ × ρ)
  /-- What becomes of the shared state when the section is entered, and where it starts. -/
  enter : ι → σ → σ × κ
  /-- One load or store of a section. -/
  step : κ → σ → Except ε (σ × (κ ⊕ ρ))
  /-- The calls that a thread may make. -/
  ready : ι → ο → Prop
  /-- What a thread makes of the result. -/
  finish : ι → ρ → ο → ο
  read : σ → ω
  /-- A step outside, if the thread is where it can take it. -/
  outside : β → ο → ω → Option ο
  claims : ι → Option π
  unused : π → σ → Prop
  whole_finishes : ∀ {i s s' r}, whole i s = .ok (s', r) →
    Finishes step read (enter i s).2 (enter i s).1 s' r
  read_enter : ∀ i s, read (enter i s).1 = read s
  unused_enter : ∀ {i p s}, claims i ≠ some p → unused p s → unused p (enter i s).1
  unused_step : ∀ {k p s s₁ x}, step k s = .ok (s₁, x) → unused p s → unused p s₁

/-- What the threads can see happening: a call and its result, and a step outside with what the
thread was and what it read. -/
inductive SectionEvent (T ο ω ι ρ β : Type)
  | call (t : T) (i : ι) (r : ρ)
  | outside (t : T) (b : β) (o : ο) (v : ω)

/-! ## Step by step -/

/-- Where a thread is. -/
inductive Phase (ι κ : Type)
  /-- Between its calls. -/
  | out
  /-- About to test the lock. -/
  | waiting (i : ι)
  /-- About to attempt the lock, which its test found free. -/
  | attempting (i : ι)
  | inside (i : ι) (k : κ)
  /-- About to release the lock. -/
  | leaving

namespace Phase

variable {ι κ : Type}

/-- The call that the thread waits with. -/
def pending : Phase ι κ → Option ι
  | waiting i | attempting i => some i
  | _ => none

/-- The thread has the lock. -/
def Holds : Phase ι κ → Prop
  | inside .. | leaving => True
  | _ => False

instance (p : Phase ι κ) : Decidable (p = out) :=
  match p with
  | out => isTrue rfl
  | waiting _ | attempting _ | inside .. | leaving => isFalse (by simp)

instance (p : Phase ι κ) : Decidable (p = leaving) :=
  match p with
  | leaving => isTrue rfl
  | waiting _ | attempting _ | inside .. | out => isFalse (by simp)

instance (p : Phase ι κ) : Decidable (∃ i, p = waiting i) :=
  match p with
  | waiting i => isTrue ⟨i, rfl⟩
  | out | attempting _ | inside .. | leaving => isFalse (by simp)

instance (p : Phase ι κ) : Decidable (∃ i, p = attempting i) :=
  match p with
  | attempting i => isTrue ⟨i, rfl⟩
  | out | waiting _ | inside .. | leaving => isFalse (by simp)

instance (p : Phase ι κ) : Decidable (∃ i k, p = inside i k) :=
  match p with
  | inside i k => isTrue ⟨i, k, rfl⟩
  | out | waiting _ | attempting _ | leaving => isFalse (by simp)

end Phase

/-- The lock, the shared state, the resources that waiting calls have set aside, and each thread's
own state and phase. -/
structure LockState (μ σ ο ι κ π T : Type) where
  lock : μ
  shared : σ
  taken : π → Bool
  own : T → ο
  phase : T → Phase ι κ

/-- The steps of the threads. -/
inductive LockTurn (T ι β : Type)
  | call (t : T) (i : ι)
  | test (t : T)
  | attempt (t : T)
  | work (t : T)
  | release (t : T)
  | outside (t : T) (b : β)

/-- The thread that moves. -/
def LockTurn.thread {T ι β : Type} : LockTurn T ι β → T
  | .call t _ | .test t | .attempt t | .work t | .release t | .outside t _ => t

/-- Mark the resource of a call, if it has one. -/
def markTaken {π : Type} [DecidableEq π] (p : Option π) (b : Bool) (taken : π → Bool) : π → Bool :=
  match p with
  | none => taken
  | some p => Function.update taken p b

section Mark

variable {π : Type} [DecidableEq π] {p : Option π} {q : π} {b : Bool} {taken : π → Bool}

lemma markTaken_self (h : p = some q) : markTaken p b taken q = b := by
  subst h
  exact Function.update_self ..

lemma markTaken_of_ne (h : p ≠ some q) : markTaken p b taken q = taken q := by
  cases p with
  | none => rfl
  | some p => exact Function.update_of_ne (fun heq => h (by rw [heq])) _ _

end Mark

namespace Sections

variable {μ σ ο ω ι κ ρ β π ε T : Type} [DecidableEq T] [DecidableEq π]
  (C : Sections σ ο ω ι κ ρ β π ε) (L : TryLock μ)

/-- The effect of a step. -/
def exec : LockTurn T ι β → LockState μ σ ο ι κ π T → Except ε (LockState μ σ ο ι κ π T)
  | .call t i, s => .ok { s with
      taken := markTaken (C.claims i) true s.taken
      phase := Function.update s.phase t (.waiting i) }
  | .test t, s =>
      match s.phase t with
      | .waiting i =>
          if L.test s.lock then .ok { s with phase := Function.update s.phase t (.attempting i) }
          else .ok s
      | _ => .ok s
  | .attempt t, s =>
      match s.phase t with
      | .attempting i =>
          match L.attempt s.lock with
          | (true, lock) => .ok { s with
              lock
              shared := (C.enter i s.shared).1
              taken := markTaken (C.claims i) false s.taken
              phase := Function.update s.phase t (.inside i (C.enter i s.shared).2) }
          | (false, lock) => .ok { s with
              lock, phase := Function.update s.phase t (.waiting i) }
      | _ => .ok s
  | .work t, s =>
      match s.phase t with
      | .inside i k => do
          match ← C.step k s.shared with
          | (shared, .inl k) =>
              return { s with shared, phase := Function.update s.phase t (.inside i k) }
          | (shared, .inr r) => return { s with
              shared
              own := Function.update s.own t (C.finish i r (s.own t))
              phase := Function.update s.phase t .leaving }
      | _ => .ok s
  | .release t, s => .ok { s with
      lock := L.release s.lock, phase := Function.update s.phase t .out }
  | .outside t b, s =>
      match C.outside b (s.own t) (C.read s.shared) with
      | some o => .ok { s with own := Function.update s.own t o }
      | none => .ok s

/-- When a step may be taken.  A call sets a resource aside that is neither used nor taken. -/
def Enabled (s : LockState μ σ ο ι κ π T) : LockTurn T ι β → Prop
  | .call t i => s.phase t = .out ∧ C.ready i (s.own t) ∧
      ∀ p ∈ C.claims i, C.unused p s.shared ∧ s.taken p = false
  | .test t => ∃ i, s.phase t = .waiting i
  | .attempt t => ∃ i, s.phase t = .attempting i
  | .work t => ∃ i k, s.phase t = .inside i k
  | .release t => s.phase t = .leaving
  | .outside t b => s.phase t = .out ∧ (C.outside b (s.own t) (C.read s.shared)).isSome

instance [∀ i o, Decidable (C.ready i o)] [∀ p s, Decidable (C.unused p s)]
    (s : LockState μ σ ο ι κ π T) (b : LockTurn T ι β) : Decidable (C.Enabled s b) :=
  match b with
  | .call t i => inferInstanceAs (Decidable (s.phase t = .out ∧ C.ready i (s.own t) ∧
      ∀ p ∈ C.claims i, C.unused p s.shared ∧ s.taken p = false))
  | .test t => inferInstanceAs (Decidable (∃ i, s.phase t = .waiting i))
  | .attempt t => inferInstanceAs (Decidable (∃ i, s.phase t = .attempting i))
  | .work t => inferInstanceAs (Decidable (∃ i k, s.phase t = .inside i k))
  | .release t => inferInstanceAs (Decidable (s.phase t = .leaving))
  | .outside t b => inferInstanceAs (Decidable (s.phase t = .out ∧
      (C.outside b (s.own t) (C.read s.shared)).isSome))

/-- The threads, taking turns step by step. -/
def locked (s₀ : σ) (own : T → ο) :
    System (LockState μ σ ο ι κ π T) (LockTurn T ι β) ε where
  init := ⟨L.free, s₀, fun _ => false, own, fun _ => .out⟩
  enabled _ s a := C.Enabled s a
  exec := C.exec L

/-- The event that a step is: a section counts where it ends. -/
def event : LockState μ σ ο ι κ π T × LockTurn T ι β → Option (SectionEvent T ο ω ι ρ β)
  | (s, .work t) =>
      match s.phase t with
      | .inside i k =>
          match C.step k s.shared with
          | .ok (_, .inr r) => some (.call t i r)
          | .ok (_, .inl _) => none
          | .error _ => none
      | _ => none
  | (s, .outside t b) => some (.outside t b (s.own t) (C.read s.shared))
  | _ => none

end Sections

/-! ## Section by section -/

/-- The shared state and each thread's own. -/
structure AtomicState (σ ο T : Type) where
  shared : σ
  own : T → ο

/-- The steps of threads whose sections are not interrupted. -/
inductive AtomicTurn (T ι β : Type)
  | call (t : T) (i : ι)
  | outside (t : T) (b : β)

namespace Sections

variable {μ σ ο ω ι κ ρ β π ε T : Type} [DecidableEq T] [DecidableEq π]
  (C : Sections σ ο ω ι κ ρ β π ε) (L : TryLock μ)

def atomicExec : AtomicTurn T ι β → AtomicState σ ο T → Except ε (AtomicState σ ο T)
  | .call t i, a => do
      let (shared, r) ← C.whole i a.shared
      return ⟨shared, Function.update a.own t (C.finish i r (a.own t))⟩
  | .outside t b, a =>
      match C.outside b (a.own t) (C.read a.shared) with
      | some o => .ok { a with own := Function.update a.own t o }
      | none => .ok a

def AtomicEnabled (a : AtomicState σ ο T) : AtomicTurn T ι β → Prop
  | .call t i => C.ready i (a.own t) ∧ ∀ p ∈ C.claims i, C.unused p a.shared
  | .outside t b => (C.outside b (a.own t) (C.read a.shared)).isSome

/-- The threads, taking turns section by section. -/
def atomic (s₀ : σ) (own : T → ο) : System (AtomicState σ ο T) (AtomicTurn T ι β) ε where
  init := ⟨s₀, own⟩
  enabled _ a b := C.AtomicEnabled a b
  exec := C.atomicExec

/-- The event that a step is. -/
def atomicEvent : AtomicState σ ο T × AtomicTurn T ι β → Option (SectionEvent T ο ω ι ρ β)
  | (a, .call t i) =>
      match C.whole i a.shared with
      | .ok (_, r) => some (.call t i r)
      | .error _ => none
  | (a, .outside t b) => some (.outside t b (a.own t) (C.read a.shared))


/-! ## The two systems side by side -/

section Refinement

variable {C} {L} {s s' : LockState μ σ ο ι κ π T} {a : AtomicState σ ο T} {t : T} {i : ι}

/-- The waiting calls: they may still be made, and each has a resource of its own. -/
structure Waits (C : Sections σ ο ω ι κ ρ β π ε) (s : LockState μ σ ο ι κ π T) : Prop where
  ready : ∀ {t i}, (s.phase t).pending = some i → C.ready i (s.own t)
  claimed : ∀ {t i p}, (s.phase t).pending = some i → C.claims i = some p →
    C.unused p s.shared ∧ s.taken p = true
  apart : ∀ {t t' i i' p}, (s.phase t).pending = some i → (s.phase t').pending = some i' →
    C.claims i = some p → C.claims i' = some p → t = t'

/-- Who has the lock, and what is left of its section. -/
inductive Custody (C : Sections σ ο ω ι κ ρ β π ε) (L : TryLock μ)
    (s : LockState μ σ ο ι κ π T) (a : AtomicState σ ο T) : Prop
  | free (hlock : s.lock = L.free) (hnone : ∀ t, ¬(s.phase t).Holds)
      (hshared : s.shared = a.shared)
  | inside {t : T} {i : ι} {k : κ} {last : σ} {r : ρ} (hlock : s.lock = L.held)
      (hphase : s.phase t = .inside i k) (honly : ∀ t', (s.phase t').Holds → t' = t)
      (hen : C.AtomicEnabled a (.call t i)) (hwhole : C.whole i a.shared = .ok (last, r))
      (hrest : Finishes C.step C.read k s.shared last r)
  | leaving {t : T} (hlock : s.lock = L.held) (hphase : s.phase t = .leaving)
      (honly : ∀ t', (s.phase t').Holds → t' = t) (hshared : s.shared = a.shared)

/-- A thread's own state and what it can read are the same in both. -/
structure Matches (C : Sections σ ο ω ι κ ρ β π ε) (L : TryLock μ)
    (s : LockState μ σ ο ι κ π T) (a : AtomicState σ ο T) : Prop where
  own : s.own = a.own
  read : C.read s.shared = C.read a.shared
  waits : C.Waits s
  custody : C.Custody L s a

lemma matches_init (s₀ : σ) (own : T → ο) :
    C.Matches L (C.locked L s₀ own).init (C.atomic s₀ own).init where
  own := rfl
  read := rfl
  waits := ⟨by simp [locked, Phase.pending], by simp [locked, Phase.pending],
    by simp [locked, Phase.pending]⟩
  custody := .free rfl (fun _ => id) rfl

omit [DecidableEq T] [DecidableEq π] in
/-- The calls that go on waiting. -/
lemma Waits.of_le (h : C.Waits s) (hle : ∀ {t i}, (s'.phase t).pending = some i →
      (s.phase t).pending = some i ∧ s'.own t = s.own t ∧ ∀ p, C.claims i = some p →
        C.unused p s.shared ∧ s.taken p = true → C.unused p s'.shared ∧ s'.taken p = true) :
    C.Waits s' where
  ready ht := by
    obtain ⟨ht₀, hown, -⟩ := hle ht
    rw [hown]
    exact h.ready ht₀
  claimed ht hp := by
    obtain ⟨ht₀, -, hkeep⟩ := hle ht
    exact hkeep _ hp (h.claimed ht₀ hp)
  apart ht ht' hp hp' := h.apart (hle ht).1 (hle ht').1 hp hp'

/-- Who waits behind a change of one thread's phase. -/
lemma pending_update {phase : T → Phase ι κ} {t t' : T} {p : Phase ι κ} {i : ι}
    (h : (Function.update phase t p t').pending = some i)
    (hp : p.pending = none ∨ p.pending = (phase t).pending) :
    (phase t').pending = some i ∧ (p.pending = none → t' ≠ t) := by
  by_cases heq : t' = t
  · subst heq
    rw [Function.update_self] at h
    rcases hp with hp | hp
    · rw [hp] at h
      exact absurd h (by simp)
    · exact ⟨hp ▸ h, fun hnone => by rw [hnone] at h; exact absurd h (by simp)⟩
  · rw [Function.update_of_ne heq] at h
    exact ⟨h, fun _ => heq⟩

/-- Who has the lock behind a change of one thread's phase. -/
lemma holds_update {phase : T → Phase ι κ} {t t' : T} {p : Phase ι κ}
    (h : (Function.update phase t p t').Holds) : t' = t ∧ p.Holds ∨ t' ≠ t ∧ (phase t').Holds := by
  by_cases heq : t' = t
  · subst heq
    rw [Function.update_self] at h
    exact .inl ⟨rfl, h⟩
  · rw [Function.update_of_ne heq] at h
    exact .inr ⟨heq, h⟩

omit [DecidableEq π] in
/-- The custody of the lock is not changed by a thread that has not got it. -/
lemma Custody.of_others {a' : AtomicState σ ο T} {p : Phase ι κ} (h : C.Custody L s a)
    (ht : ¬(s.phase t).Holds) (hp : ¬p.Holds) (hphase : s'.phase = Function.update s.phase t p)
    (hlock : s'.lock = s.lock) (hshared : s'.shared = s.shared) (hsame : a'.shared = a.shared)
    (hown : ∀ t', t' ≠ t → a'.own t' = a.own t') : C.Custody L s' a' := by
  have hthere : ∀ {t'}, (s.phase t').Holds → s'.phase t' = s.phase t' := fun {t'} ht' => by
    rw [hphase, Function.update_of_ne]
    rintro rfl
    exact ht ht'
  have hback : ∀ {t'}, (s'.phase t').Holds → (s.phase t').Holds := fun {t'} ht' => by
    rw [hphase] at ht'
    rcases holds_update ht' with ⟨-, hp'⟩ | ⟨-, ht'⟩
    · exact absurd hp' hp
    · exact ht'
  cases h with
  | free hfree hnone hsame' =>
      exact .free (hlock.trans hfree) (fun t' ht' => hnone t' (hback ht'))
        ((hshared.trans hsame').trans hsame.symm)
  | @inside t' i k last r hheld hin honly hen hwhole hrest =>
      have hholds : (s.phase t').Holds := by rw [hin]; trivial
      have hne : t' ≠ t := fun heq => ht (heq ▸ hholds)
      refine .inside (hlock.trans hheld) ((hthere hholds).trans hin)
        (fun t'' ht'' => honly t'' (hback ht'')) ⟨?_, ?_⟩ (hsame ▸ hwhole) ?_
      · rw [hown t' hne]
        exact hen.1
      · rw [hsame]
        exact hen.2
      · rw [hshared]
        exact hrest
  | @leaving t' hheld hleave honly hsame' =>
      have hholds : (s.phase t').Holds := by rw [hleave]; trivial
      exact .leaving (hlock.trans hheld) ((hthere hholds).trans hleave)
        (fun t'' ht'' => honly t'' (hback ht'')) ((hshared.trans hsame').trans hsame.symm)

/-! ## One step -/

/-- What is to be shown of a step: it does not fault, and either nobody notices it or the atomic
system takes a step that looks the same. -/
def Simulated (C : Sections σ ο ω ι κ ρ β π ε) (L : TryLock μ) (s : LockState μ σ ο ι κ π T)
    (a : AtomicState σ ο T) (turn : LockTurn T ι β) : Prop :=
  ∃ s', C.exec L turn s = .ok s' ∧
    (C.event (s, turn) = none ∧ C.Matches L s' a ∨
      ∃ b a', C.AtomicEnabled a b ∧ C.atomicExec b a = .ok a' ∧
        C.event (s, turn) = C.atomicEvent (a, b) ∧ C.Matches L s' a')

lemma Matches.call (h : C.Matches L s a) (hen : C.Enabled s (.call t i)) :
    C.Simulated L s a (.call t i) := by
  obtain ⟨hout, hready, hunused⟩ := hen
  have hnot : ¬(s.phase t).Holds := by rw [hout]; exact id
  refine ⟨_, rfl, .inl ⟨rfl, h.own, h.read, ⟨?_, ?_, ?_⟩, h.custody.of_others hnot
    (p := .waiting i) id rfl rfl rfl rfl fun _ _ => rfl⟩⟩
  · intro t' i' hpending
    by_cases heq : t' = t
    · subst heq
      simp only [Function.update_self, Phase.pending, Option.some.injEq] at hpending
      exact hpending ▸ hready
    · simp only [Function.update_of_ne heq] at hpending
      exact h.waits.ready hpending
  · intro t' i' p hpending hp
    by_cases heq : t' = t
    · subst heq
      simp only [Function.update_self, Phase.pending, Option.some.injEq] at hpending
      subst hpending
      exact ⟨(hunused p hp).1, markTaken_self hp⟩
    · simp only [Function.update_of_ne heq] at hpending
      obtain ⟨hun, htaken⟩ := h.waits.claimed hpending hp
      refine ⟨hun, ?_⟩
      by_cases hclaim : C.claims i = some p
      · exact markTaken_self hclaim
      · exact (markTaken_of_ne hclaim).trans htaken
  · -- the new resource was not taken, so that it is nobody else's
    intro t₁ t₂ i₁ i₂ p h₁ h₂ hp₁ hp₂
    have hother : ∀ {t'} {i'}, t' ≠ t → (Function.update s.phase t (.waiting i) t').pending =
        some i' → C.claims i' = some p → ∀ q, C.claims i = some q → q ≠ p := by
      rintro t' i' hne hpending hp' q hq rfl
      rw [Function.update_of_ne hne] at hpending
      have htaken := (h.waits.claimed hpending hp').2
      exact absurd ((hunused q hq).2.symm.trans htaken) (by simp)
    by_cases heq₁ : t₁ = t <;> by_cases heq₂ : t₂ = t
    · exact heq₁.trans heq₂.symm
    · subst heq₁
      simp only [Function.update_self, Phase.pending, Option.some.injEq] at h₁
      exact absurd rfl (hother heq₂ h₂ hp₂ p (h₁ ▸ hp₁))
    · subst heq₂
      simp only [Function.update_self, Phase.pending, Option.some.injEq] at h₂
      exact absurd rfl (hother heq₁ h₁ hp₁ p (h₂ ▸ hp₂))
    · simp only [Function.update_of_ne heq₁] at h₁
      simp only [Function.update_of_ne heq₂] at h₂
      exact h.waits.apart h₁ h₂ hp₁ hp₂

omit [DecidableEq π] in
/-- A thread that waits moves on to another phase in which it waits with the same call. -/
lemma Matches.still_waiting (h : C.Matches L s a) {p : Phase ι κ} (hnot : ¬(s.phase t).Holds)
    (hp : ¬p.Holds) (hpending : p.pending = (s.phase t).pending) :
    C.Matches L { s with phase := Function.update s.phase t p } a where
  own := h.own
  read := h.read
  waits := h.waits.of_le fun ht' =>
    ⟨(pending_update ht' (.inr hpending)).1, rfl, fun _ _ hboth => hboth⟩
  custody := h.custody.of_others hnot hp rfl rfl rfl rfl fun _ _ => rfl

lemma Matches.test (h : C.Matches L s a) (hen : C.Enabled s (.test t)) :
    C.Simulated L s a (.test t) := by
  obtain ⟨i, hwait⟩ := hen
  have hnot : ¬(s.phase t).Holds := by rw [hwait]; exact id
  cases htest : L.test s.lock with
  | true =>
      refine ⟨{ s with phase := Function.update s.phase t (.attempting i) }, ?_, .inl ⟨rfl, ?_⟩⟩
      · simp only [exec, hwait, htest, if_true]
      · exact h.still_waiting hnot (p := .attempting i) id (by rw [hwait]; rfl)
  | false => exact ⟨s, by simp [exec, hwait, htest], .inl ⟨rfl, h⟩⟩

/-- The lock is free, so that a thread that attempts it enters its section. -/
lemma Matches.attempt (h : C.Matches L s a) (hen : C.Enabled s (.attempt t))
    (hsafe : ∀ t i, C.AtomicEnabled a (.call t i) → ∃ r, C.whole i a.shared = .ok r) :
    C.Simulated L s a (.attempt t) := by
  obtain ⟨i, hatt⟩ := hen
  have hnot : ¬(s.phase t).Holds := by rw [hatt]; exact id
  have hpend : (s.phase t).pending = some i := by rw [hatt]; rfl
  have hfails : s.lock = L.held → C.Simulated L s a (.attempt t) := by
    intro hheld
    have hlock : L.attempt s.lock = (false, s.lock) := by rw [hheld, L.attempt_held]
    refine ⟨{ s with phase := Function.update s.phase t (.waiting i) }, ?_, .inl ⟨rfl, ?_⟩⟩
    · simp only [exec, hatt, hlock]
    · exact h.still_waiting hnot (p := .waiting i) id (by rw [hatt]; rfl)
  cases h.custody with
  | inside hheld => exact hfails hheld
  | leaving hheld => exact hfails hheld
  | free hfree hnone hshared =>
      have hlock : L.attempt s.lock = (true, L.held) := by rw [hfree, L.attempt_free]
      refine ⟨{ s with
        lock := L.held
        shared := (C.enter i s.shared).1
        taken := markTaken (C.claims i) false s.taken
        phase := Function.update s.phase t (.inside i (C.enter i s.shared).2) }, ?_,
          .inl ⟨rfl, h.own, ?_, ?_, ?_⟩⟩
      · simp only [exec, hatt, hlock]
      · exact (C.read_enter i s.shared).trans h.read
      · refine h.waits.of_le fun {t' i'} ht' => ?_
        obtain ⟨hpend', hne⟩ := pending_update ht' (.inl rfl)
        refine ⟨hpend', rfl, fun p hp hboth => ?_⟩
        have hapart : C.claims i ≠ some p := fun hi =>
          hne rfl (h.waits.apart hpend' hpend hp hi)
        exact ⟨C.unused_enter hapart hboth.1, (markTaken_of_ne hapart).trans hboth.2⟩
      · have hen : C.AtomicEnabled a (.call t i) := by
          refine ⟨h.own ▸ h.waits.ready hpend, fun p hp => ?_⟩
          exact hshared ▸ (h.waits.claimed hpend hp).1
        obtain ⟨⟨last, r⟩, hwhole⟩ := hsafe t i hen
        refine .inside (t := t) rfl (Function.update_self ..) (fun t' ht' => ?_) hen hwhole ?_
        · rcases holds_update ht' with ⟨heq, -⟩ | ⟨-, ht'⟩
          · exact heq
          · exact absurd ht' (hnone t')
        · rw [hshared]
          exact C.whole_finishes hwhole

/-- Inside, a thread goes on with its section, and the last step is the atomic system's. -/
lemma Matches.work (h : C.Matches L s a) (hen : C.Enabled s (.work t)) :
    C.Simulated L s a (.work t) := by
  obtain ⟨i, k, hin⟩ := hen
  have hholds : (s.phase t).Holds := by rw [hin]; trivial
  cases h.custody with
  | free hfree hnone => exact absurd hholds (hnone t)
  | @leaving t' hheld hleave honly =>
      obtain rfl := honly t hholds
      exact absurd (hin.symm.trans hleave) (by simp)
  | @inside t' i' k' last r hheld hin' honly hen hwhole hrest =>
      obtain rfl := honly t hholds
      obtain ⟨rfl, rfl⟩ : i' = i ∧ k' = k := by simpa using hin'.symm.trans hin
      have honly' : ∀ {p : Phase ι κ} t', (Function.update s.phase t p t').Holds → t' = t := by
        intro p t' ht'
        rcases holds_update ht' with ⟨heq, -⟩ | ⟨-, ht'⟩
        · exact heq
        · exact honly t' ht'
      have hwaits : ∀ {x shared own p}, C.step k' s.shared = .ok (shared, x) →
          p.pending = none → (∀ t', t' ≠ t → own t' = s.own t') →
          C.Waits { s with
            shared := shared, own := own, phase := Function.update s.phase t p } := by
        intro x shared own p hstep hp hown
        refine h.waits.of_le fun {t' i'} ht' => ?_
        obtain ⟨hpend', hne⟩ := pending_update ht' (.inl hp)
        exact ⟨hpend', hown t' (hne hp), fun q _ hboth => ⟨C.unused_step hstep hboth.1, hboth.2⟩⟩
      cases hrest with
      | @more _ k₁ _ s₁ _ _ hstep hread hrest =>
          refine ⟨{ s with shared := s₁, phase := Function.update s.phase t (.inside i' k₁) }, ?_,
            .inl ⟨?_, h.own, hread.trans h.read, hwaits hstep rfl fun _ _ => rfl, ?_⟩⟩
          · simp only [exec, hin, hstep, bind, Except.bind]
            rfl
          · simp only [event, hin, hstep]
          · exact .inside hheld (Function.update_self ..) honly' hen hwhole hrest
      | last hstep =>
          refine ⟨{ s with
            shared := last
            own := Function.update s.own t (C.finish i' r (s.own t))
            phase := Function.update s.phase t .leaving }, ?_, .inr ⟨.call t i',
              ⟨last, Function.update a.own t (C.finish i' r (a.own t))⟩, hen, ?_, ?_, ?_⟩⟩
          · simp only [exec, hin, hstep, bind, Except.bind]
            rfl
          · simp only [atomicExec, hwhole, bind, Except.bind]
            rfl
          · simp only [event, atomicEvent, hin, hstep, hwhole]
          · exact ⟨by rw [h.own], rfl,
              hwaits hstep rfl fun t' hne => Function.update_of_ne hne _ _,
              .leaving hheld (Function.update_self ..) honly' rfl⟩

lemma Matches.release (h : C.Matches L s a) (hen : C.Enabled s (.release t)) :
    C.Simulated L s a (.release t) := by
  have hleaves : s.phase t = .leaving := hen
  have hholds : (s.phase t).Holds := by rw [hleaves]; trivial
  cases h.custody with
  | free hfree hnone => exact absurd hholds (hnone t)
  | @inside t' i' k' last r hheld hin honly =>
      obtain rfl := honly t hholds
      exact absurd (hin.symm.trans hleaves) (by simp)
  | leaving hheld hleave honly hshared =>
      obtain rfl := honly t hholds
      refine ⟨_, rfl, .inl ⟨rfl, h.own, h.read, ?_, ?_⟩⟩
      · exact h.waits.of_le fun ht' => ⟨(pending_update ht' (.inl rfl)).1, rfl, fun _ _ => id⟩
      · refine .free (by rw [hheld, L.release_held]) (fun t' ht' => ?_) hshared
        rcases holds_update ht' with ⟨-, hp⟩ | ⟨hne, ht'⟩
        · exact hp
        · exact hne (honly t' ht')

/-- A step outside sees what it would see between two sections. -/
lemma Matches.outside (h : C.Matches L s a) {b : β} (hen : C.Enabled s (.outside t b)) :
    C.Simulated L s a (.outside t b) := by
  obtain ⟨hout, hsome⟩ := hen
  obtain ⟨o, ho⟩ := Option.isSome_iff_exists.mp hsome
  have hoa : C.outside b (a.own t) (C.read a.shared) = some o := by
    rw [← h.own, ← h.read]
    exact ho
  refine ⟨{ s with own := Function.update s.own t o }, by simp only [exec, ho], .inr
    ⟨.outside t b, { a with own := Function.update a.own t o }, ?_, by simp only [atomicExec, hoa],
      ?_, by rw [h.own], h.read, ?_, ?_⟩⟩
  · exact Option.isSome_iff_exists.mpr ⟨o, hoa⟩
  · simp only [event, atomicEvent, h.own, h.read]
  · refine h.waits.of_le fun {t' i'} ht' => ⟨ht', Function.update_of_ne ?_ _ _, fun _ _ => id⟩
    rintro rfl
    rw [hout] at ht'
    exact absurd ht' (by simp [Phase.pending])
  · exact h.custody.of_others (t := t) (p := .out) (by rw [hout]; exact id) id
      (by rw [← hout, Function.update_eq_self]) rfl rfl rfl
      fun t' hne => Function.update_of_ne hne _ _

/-- **One step**, where no section faults as a whole. -/
lemma Matches.step (h : C.Matches L s a)
    (hsafe : ∀ t i, C.AtomicEnabled a (.call t i) → ∃ r, C.whole i a.shared = .ok r)
    {turn : LockTurn T ι β} (hen : C.Enabled s turn) : C.Simulated L s a turn := by
  cases turn with
  | call t i => exact h.call hen
  | test t => exact h.test hen
  | attempt t => exact h.attempt hen hsafe
  | work t => exact h.work hen
  | release t => exact h.release hen
  | outside t b => exact h.outside hen

omit [DecidableEq T] [DecidableEq π] in
/-- One thread at a time has the lock, and it is held exactly if one has it. -/
lemma Matches.exclusive (h : C.Matches L s a) :
    (∀ t t', (s.phase t).Holds → (s.phase t').Holds → t = t') ∧
    (s.lock = L.free ∧ (∀ t, ¬(s.phase t).Holds) ∧ s.shared = a.shared ∨
      s.lock = L.held ∧ ∃ t, (s.phase t).Holds) := by
  cases h.custody with
  | free hfree hnone hshared =>
      exact ⟨fun t _ ht => absurd ht (hnone t), .inl ⟨hfree, hnone, hshared⟩⟩
  | inside hheld hin honly =>
      exact ⟨fun t t' ht ht' => (honly t ht).trans (honly t' ht').symm,
        .inr ⟨hheld, _, by rw [hin]; trivial⟩⟩
  | leaving hheld hleave honly =>
      exact ⟨fun t t' ht ht' => (honly t ht).trans (honly t' ht').symm,
        .inr ⟨hheld, _, by rw [hleave]; trivial⟩⟩

/-! ## Every run -/

/-- **A run under the lock is a run of whole sections**, with the same events, if no section faults
as a whole in any state that the atomic system reaches. -/
lemma refines {s₀ : σ} {own : T → ο}
    (hsafe : ∀ {m a}, (C.atomic s₀ own).Run m a → ∀ (t : T) i, C.AtomicEnabled a (.call t i) →
      ∃ r, C.whole i a.shared = .ok r)
    {l : List (LockState μ σ ο ι κ π T × LockTurn T ι β)} (hrun : (C.locked L s₀ own).Run l s) :
    ∃ m a, (C.atomic s₀ own).Run m a ∧ C.Matches L s a ∧
      System.notes C.event l = System.notes C.atomicEvent m := by
  refine System.Run.invariant (M := C.locked L s₀ own)
    (fun l s => ∃ m a, (C.atomic s₀ own).Run m a ∧ C.Matches L s a ∧
      System.notes C.event l = System.notes C.atomicEvent m)
    ⟨[], _, .nil, matches_init s₀ own, rfl⟩ ?_ hrun
  rintro l s turn s' - ⟨m, a, hm, hmatch, hnotes⟩ hen hexec
  obtain ⟨s₁, hok, hsim⟩ := hmatch.step (hsafe hm) hen
  obtain rfl : s₁ = s' := Except.ok.inj (hok.symm.trans hexec)
  rcases hsim with ⟨hnone, hmatch'⟩ | ⟨b, a', hen', hexec', hevent, hmatch'⟩
  · refine ⟨m, a, hm, hmatch', ?_⟩
    rw [System.notes_cons, hnone, hnotes]
    exact List.append_nil _
  · refine ⟨(a, b) :: m, a', hm.step hen' hexec', hmatch', ?_⟩
    rw [System.notes_cons, System.notes_cons, hevent, hnotes]

/-! ## Progress -/

variable (s₀ : σ) (own : T → ο) (l₀ : List (LockState μ σ ο ι κ π T × LockTurn T ι β))

lemma path_of_exec {s₁ : LockState μ σ ο ι κ π T} {b : LockTurn T ι β} (hen : C.Enabled s b)
    (hexec : C.exec L b s = .ok s₁) : (C.locked L s₀ own).Path l₀ s [(s, b)] s₁ :=
  .cons .nil hen hexec

/-- A thread that goes through its section alone comes to its end. -/
lemma exists_leaving {k : κ} {last : σ} {r : ρ} (h : Finishes C.step C.read k s.shared last r)
    (hin : s.phase t = .inside i k) :
    ∃ p s', (C.locked L s₀ own).Path l₀ s p s' ∧ (∀ q ∈ p, q.2.thread = t) ∧
      s'.lock = s.lock ∧ s'.phase t = .leaving ∧ ∀ t', t' ≠ t → s'.phase t' = s.phase t' := by
  generalize hshared : s.shared = shared at h
  induction h generalizing s l₀ with
  | @last k shared last r hstep =>
      refine ⟨[(s, .work t)], { s with
        shared := last
        own := Function.update s.own t (C.finish i r (s.own t))
        phase := Function.update s.phase t .leaving }, path_of_exec _ _ _ ⟨i, k, hin⟩ ?_, by
          simp [LockTurn.thread], rfl, Function.update_self .., fun t' hne =>
          Function.update_of_ne hne _ _⟩
      simp only [exec, hin, hshared, hstep, bind, Except.bind]
      rfl
  | @more k k₁ shared shared₁ last r hstep hread hrest ih =>
      obtain ⟨p, s', hpath, hmoves, hlock, hleave, hothers⟩ := ih ((s, .work t) :: l₀)
        (s := { s with shared := shared₁, phase := Function.update s.phase t (.inside i k₁) })
        (Function.update_self ..) rfl
      have hone : C.exec L (.work t) s = .ok { s with
          shared := shared₁, phase := Function.update s.phase t (.inside i k₁) } := by
        simp only [exec, hin, hshared, hstep, bind, Except.bind]
        rfl
      have hen : C.Enabled s (.work t) := ⟨i, k, hin⟩
      have hpath' : (C.locked L s₀ own).Path l₀ s (p ++ [(s, .work t)]) s' :=
        System.Path.head (M := C.locked L s₀ own) (a := .work t) hen hone hpath
      refine ⟨_, s', hpath', fun q hq => ?_, hlock, hleave, fun t' hne =>
        (hothers t' hne).trans (Function.update_of_ne hne _ _)⟩
      rcases List.mem_append.mp hq with hq | hq
      · exact hmoves q hq
      · rw [List.mem_singleton.mp hq]
        rfl

/-- Whoever has the lock can give it back without anybody else moving. -/
lemma Matches.exists_free (h : C.Matches L s a) : ∃ p s',
    (C.locked L s₀ own).Path l₀ s p s' ∧ (∀ q ∈ p, (s.phase q.2.thread).Holds) ∧
      s'.lock = L.free ∧ ∀ t', ¬(s.phase t').Holds → s'.phase t' = s.phase t' := by
  have hrelease : ∀ {l₁} {s₁ : LockState μ σ ο ι κ π T} {t}, s₁.lock = L.held →
      s₁.phase t = .leaving →
      ∃ s', (C.locked L s₀ own).Path l₁ s₁ [(s₁, .release t)] s' ∧ s'.lock = L.free ∧
        ∀ t', t' ≠ t → s'.phase t' = s₁.phase t' := fun {l₁ s₁ t} hheld hleave =>
    ⟨{ s₁ with lock := L.release s₁.lock, phase := Function.update s₁.phase t .out },
      path_of_exec _ _ _ hleave rfl, by rw [hheld, L.release_held], fun t' hne =>
      Function.update_of_ne hne _ _⟩
  have hne : ∀ {t t'}, (s.phase t).Holds → ¬(s.phase t').Holds → t' ≠ t := by
    rintro t _ hholds hnot rfl
    exact hnot hholds
  cases h.custody with
  | free hfree hnone => exact ⟨[], s, .nil, by simp, hfree, fun _ _ => rfl⟩
  | @inside t i k last r hheld hin honly hen hwhole hrest =>
      have hholds : (s.phase t).Holds := by rw [hin]; trivial
      obtain ⟨p, s₁, hpath, hmoves, hlock, hleave, hothers⟩ := exists_leaving (L := L) s₀ own
        l₀ hrest hin
      obtain ⟨s', hpath', hfree, hothers'⟩ := hrelease (hlock.trans hheld) hleave
      refine ⟨_, s', System.Path.trans hpath hpath', fun q hq => ?_, hfree, fun t' hnot =>
        (hothers' t' (hne hholds hnot)).trans (hothers t' (hne hholds hnot))⟩
      rcases List.mem_append.mp hq with hq | hq
      · rw [List.mem_singleton.mp hq]
        exact hholds
      · rw [hmoves q hq]
        exact hholds
  | @leaving t hheld hleave honly hshared =>
      have hholds : (s.phase t).Holds := by rw [hleave]; trivial
      obtain ⟨s', hpath, hfree, hothers⟩ := hrelease hheld hleave
      refine ⟨_, s', hpath, fun q hq => ?_, hfree, fun t' hnot => hothers t' (hne hholds hnot)⟩
      rw [List.mem_singleton.mp hq]
      exact hholds

/-- A waiting thread that finds the lock free gets it. -/
lemma exists_inside (hfree : s.lock = L.free) (hpending : (s.phase t).pending = some i) :
    ∃ p s' k, (C.locked L s₀ own).Path l₀ s p s' ∧ (∀ q ∈ p, q.2.thread = t) ∧
      s'.phase t = .inside i k := by
  have hattempt : ∀ l₁ (s₁ : LockState μ σ ο ι κ π T), s₁.lock = L.free →
      s₁.phase t = .attempting i → ∃ s' k,
        (C.locked L s₀ own).Path l₁ s₁ [(s₁, .attempt t)] s' ∧ s'.phase t = .inside i k := by
    intro l₁ s₁ hfree hatt
    have hlock : L.attempt s₁.lock = (true, L.held) := by rw [hfree, L.attempt_free]
    exact ⟨{ s₁ with
      lock := L.held
      shared := (C.enter i s₁.shared).1
      taken := markTaken (C.claims i) false s₁.taken
      phase := Function.update s₁.phase t (.inside i (C.enter i s₁.shared).2) }, _,
      path_of_exec _ _ _ ⟨i, hatt⟩ (by simp only [exec, hatt, hlock]), Function.update_self ..⟩
  cases hphase : s.phase t with
  | waiting j =>
      obtain rfl : j = i := by simpa [hphase, Phase.pending] using hpending
      have htest : C.exec L (.test t) s =
          .ok { s with phase := Function.update s.phase t (.attempting j) } := by
        simp only [exec, hphase, hfree, L.test_free, if_true]
      obtain ⟨s', k, hpath, hin⟩ := hattempt ((s, .test t) :: l₀)
        { s with phase := Function.update s.phase t (.attempting j) } hfree
        (Function.update_self ..)
      have hen : C.Enabled s (.test t) := ⟨j, hphase⟩
      have hpath' : (C.locked L s₀ own).Path l₀ s ([(_, .attempt t)] ++ [(s, .test t)]) s' :=
        System.Path.head (M := C.locked L s₀ own) (a := .test t) hen htest hpath
      refine ⟨_, s', k, hpath', ?_, hin⟩
      simp [LockTurn.thread]
  | attempting j =>
      obtain rfl : j = i := by simpa [hphase, Phase.pending] using hpending
      obtain ⟨s', k, hpath, hin⟩ := hattempt l₀ s hfree hphase
      exact ⟨_, s', k, hpath, by simp [LockTurn.thread], hin⟩
  | out => simp [hphase, Phase.pending] at hpending
  | inside j k => simp [hphase, Phase.pending] at hpending
  | leaving => simp [hphase, Phase.pending] at hpending

/-- **No thread waits in vain**: it gets the lock if whoever has it goes on, and it itself. -/
lemma Matches.exists_entered (h : C.Matches L s a) (hpending : (s.phase t).pending = some i) :
    ∃ p s' k, (C.locked L s₀ own).Path l₀ s p s' ∧
      (∀ q ∈ p, (s.phase q.2.thread).Holds ∨ q.2.thread = t) ∧ s'.phase t = .inside i k := by
  have hnot : ¬(s.phase t).Holds := by
    cases hphase : s.phase t <;> simp_all [Phase.pending, Phase.Holds]
  obtain ⟨p, s₁, hpath, hmoves, hfree, hothers⟩ := h.exists_free s₀ own l₀
  obtain ⟨p', s', k, hpath', hmoves', hin⟩ := exists_inside (C := C) s₀ own (p ++ l₀) hfree
    ((congrArg Phase.pending (hothers t hnot)).trans hpending)
  refine ⟨p' ++ p, s', k, System.Path.trans hpath hpath', fun q hq => ?_, hin⟩
  rcases List.mem_append.mp hq with hq | hq
  · exact .inr (hmoves' q hq)
  · exact .inl (hmoves q hq)

end Refinement

end Sections

end Framework
