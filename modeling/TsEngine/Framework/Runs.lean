import Mathlib.Tactic

/-!
# Labelled systems and their runs

A run calculus for threads that take turns on a shared state: a `System` is an initial
state, an enabling condition and a possibly faulting transition, `System.Path` is a finite
sequence of its steps, and `System.Run` is a path from the initial state.

A path carries its whole history, newest step first, and every entry of the history is the
*pair* of the step's source state and its action.  This is what lets a property speak about
"the steps taken since the last state in which …" without any ghost component in the state:
it is a `takeWhile` of the history.

The proof rules are `System.Path.invariant` (what one step preserves, a path preserves),
`System.Run.invariant` (the same from the initial state, with reachability available in the
step; `System.Run.invariant_of_cases` where a step may fault, `System.Run.invariant_of_ok` where it
does not) and `System.Run.split` (a step in
the history of a run was taken at a reachable state).
`System.Run.map` takes the runs of a system to those of another.
`System.execAll` runs a list of actions, so that a concrete run is exhibited by evaluation.
A step is an `Except` computation; `bind_eq_ok` and `map_eq_ok` take one apart, and `foldlM_eq_ok`
and `foldlM_invariant` are the rules for its loops.
-/

namespace Framework

universe u v w

/-! ## Computations that may fault -/

lemma bind_eq_ok {ε : Type u} {α β : Type v} {x : Except ε α} {f : α → Except ε β} {b : β} :
    (x >>= f) = .ok b ↔ ∃ a, x = .ok a ∧ f a = .ok b := by
  cases x with
  | error err => simp [bind, Except.bind]
  | ok a => simp [bind, Except.bind]

lemma map_eq_ok {ε : Type u} {α β : Type v} {x : Except ε α} {f : α → β} {b : β} :
    x.map f = .ok b ↔ ∃ a, x = .ok a ∧ f a = b := by
  cases x with
  | error err => simp [Except.map]
  | ok a => simp [Except.map]

lemma mapError_eq_ok {ε ε' : Type u} {α : Type v} {x : Except ε α} {f : ε → ε'} {a : α} :
    x.mapError f = .ok a ↔ x = .ok a := by
  cases x with
  | error err => simp [Except.mapError]
  | ok a => simp [Except.mapError]

/-- **A fold that cannot fault**, and what it computes, by a property of the prefix already
visited. -/
lemma foldlM_eq_ok {ε : Type u} {α : Type w} {β : Type v} {f : β → α → Except ε β}
    (P : List α → β → Prop) {l : List α} (hstep : ∀ pre a post b, l = pre ++ a :: post → P pre b →
      ∃ b', f b a = .ok b' ∧ P (pre ++ [a]) b') {b : β} (hinit : P [] b) :
    ∃ b', l.foldlM f b = .ok b' ∧ P l b' := by
  suffices h : ∀ post pre, l = pre ++ post → ∀ b, P pre b →
      ∃ b', post.foldlM f b = .ok b' ∧ P l b' from h l [] rfl b hinit
  intro post
  induction post with
  | nil =>
      rintro pre rfl b hP
      exact ⟨b, rfl, by simpa using hP⟩
  | cons a post ih =>
      intro pre heq b hP
      obtain ⟨b', hf, hP'⟩ := hstep pre a post b heq hP
      obtain ⟨b'', hfold, hP''⟩ := ih (pre ++ [a]) (by simp [heq]) b' hP'
      exact ⟨b'', by rw [List.foldlM_cons, hf]; exact hfold, hP''⟩

/-- **What a fold has computed**, if it has not faulted, by a property of the prefix visited. -/
lemma foldlM_invariant {ε : Type u} {α : Type w} {β : Type v} {f : β → α → Except ε β}
    (P : List α → β → Prop) (hstep : ∀ {pre a b b'}, P pre b → f b a = .ok b' → P (pre ++ [a]) b')
    {l : List α} {b b' : β} (hinit : P [] b) (h : l.foldlM f b = .ok b') : P l b' := by
  induction l using List.reverseRecOn generalizing b' with
  | nil => exact Except.ok.inj h ▸ hinit
  | append_singleton l a ih =>
      rw [List.foldlM_append] at h
      obtain ⟨b₁, hfold, hlast⟩ := bind_eq_ok.mp h
      exact hstep (ih hfold) (by simpa using hlast)

/-! ## Systems -/

/-- A labelled transition system.  `enabled` may consult the history, newest step first;
`exec` is the effect of an enabled action and may fault, in which case there is no successor. -/
structure System (σ : Type u) (α : Type v) (ε : Type w) where
  init : σ
  enabled : List (σ × α) → σ → α → Prop
  exec : α → σ → Except ε σ

namespace System

variable {σ : Type u} {α : Type v} {ε : Type w} (M : System σ α ε)

/-- `M.Path h₀ s₀ l s`: the steps `l`, newest first, lead from `s₀`, itself reached by the
history `h₀`, to `s`. -/
inductive Path (h₀ : List (σ × α)) (s₀ : σ) : List (σ × α) → σ → Prop
  | nil : Path h₀ s₀ [] s₀
  | cons {l : List (σ × α)} {s s' : σ} {a : α} (hpath : Path h₀ s₀ l s)
      (hen : M.enabled (l ++ h₀) s a) (hexec : M.exec a s = .ok s') :
      Path h₀ s₀ ((s, a) :: l) s'

/-- A run is a path from the initial state. -/
abbrev Run (l : List (σ × α)) (s : σ) : Prop := M.Path [] M.init l s

variable {M}

/-- One more step of a run. -/
lemma Run.step {l : List (σ × α)} {s s' : σ} {a : α} (hrun : M.Run l s)
    (hen : M.enabled l s a) (hexec : M.exec a s = .ok s') : M.Run ((s, a) :: l) s' :=
  Path.cons hrun (by simpa using hen) hexec

/-- The last step of a run was enabled at a reachable state, and taken there. -/
lemma Run.of_cons {l : List (σ × α)} {s s' : σ} {a : α} (hrun : M.Run ((s, a) :: l) s') :
    M.Run l s ∧ M.enabled l s a ∧ M.exec a s = .ok s' := by
  cases hrun with
  | cons hpath hen hexec => exact ⟨hpath, by simpa using hen, hexec⟩

/-- A path continues a path. -/
lemma Path.trans {h₀ l l' : List (σ × α)} {s₀ s s' : σ} (h : M.Path h₀ s₀ l s)
    (h' : M.Path (l ++ h₀) s l' s') : M.Path h₀ s₀ (l' ++ l) s' := by
  induction h' with
  | nil => exact h
  | cons _ hen hexec ih => exact ih.cons (by simpa using hen) hexec

/-- A path behind a first step. -/
lemma Path.head {h₀ l : List (σ × α)} {s₀ s₁ s : σ} {a : α} (hen : M.enabled h₀ s₀ a)
    (hexec : M.exec a s₀ = .ok s₁) (h : M.Path ((s₀, a) :: h₀) s₁ l s) :
    M.Path h₀ s₀ (l ++ [(s₀, a)]) s :=
  Path.trans (.cons .nil hen hexec) h

/-- A path from a state reached by a run extends the run. -/
lemma Run.append {l l' : List (σ × α)} {s s' : σ} (h : M.Run l s)
    (h' : M.Path l s l' s') : M.Run (l' ++ l) s' :=
  Path.trans h (by simpa using h')

/-! ## What a history notes -/

/-- What the steps of a history note, oldest first. -/
def notes {β : Type*} (f : σ × α → Option β) (l : List (σ × α)) : List β :=
  (l.filterMap f).reverse

lemma notes_cons {β : Type*} (f : σ × α → Option β) (q : σ × α) (l : List (σ × α)) :
    notes f (q :: l) = notes f l ++ (f q).toList := by
  cases h : f q <;> simp [notes, h]

lemma mem_notes {β : Type*} {f : σ × α → Option β} {l : List (σ × α)} {b : β} :
    b ∈ notes f l ↔ ∃ q ∈ l, f q = some b := by
  simp [notes]

/-- What is noted of a renamed history. -/
lemma notes_map {σ' : Type*} {α' : Type*} {β : Type*} (f : σ' × α' → Option β)
    (g : σ × α → σ' × α') (l : List (σ × α)) : notes f (l.map g) = notes (f ∘ g) l := by
  simp [notes, List.filterMap_map]

/-- Some of what is noted. -/
lemma filterMap_notes {β γ : Type*} (f : σ × α → Option β) (g : β → Option γ)
    (l : List (σ × α)) : (notes f l).filterMap g = notes (fun q => (f q).bind g) l := by
  simp [notes, List.filterMap_reverse, List.filterMap_filterMap]

lemma notes_congr {β : Type*} {f g : σ × α → Option β} {l : List (σ × α)}
    (h : ∀ q ∈ l, f q = g q) : notes f l = notes g l := by
  rw [notes, notes, List.filterMap_congr h]

/-! ## Invariant rules -/

/-- **Invariant rule for paths.**  A property of history and state that every step taken
along the path preserves holds at its end. -/
lemma Path.invariant {h₀ : List (σ × α)} {s₀ : σ} (P : List (σ × α) → σ → Prop)
    (hbase : P [] s₀)
    (hstep : ∀ {l s a s'}, M.Path h₀ s₀ l s → P l s → M.enabled (l ++ h₀) s a →
      M.exec a s = .ok s' → P ((s, a) :: l) s')
    {l : List (σ × α)} {s : σ} (h : M.Path h₀ s₀ l s) : P l s := by
  induction h with
  | nil => exact hbase
  | cons hpath hen hexec ih => exact hstep hpath ih hen hexec

/-- **Invariant rule for runs.** -/
lemma Run.invariant (P : List (σ × α) → σ → Prop) (hinit : P [] M.init)
    (hstep : ∀ {l s a s'}, M.Run l s → P l s → M.enabled l s a →
      M.exec a s = .ok s' → P ((s, a) :: l) s')
    {l : List (σ × α)} {s : σ} (h : M.Run l s) : P l s :=
  Path.invariant P hinit (fun hpath hP hen hexec => hstep hpath hP (by simpa using hen) hexec) h

/-- **Invariant rule by cases**: where the invariant holds, a step keeps it or faults. -/
lemma Run.invariant_of_cases (P : List (σ × α) → σ → Prop) (hinit : P [] M.init)
    (hstep : ∀ {l s a}, P l s → M.enabled l s a →
      (∃ s', M.exec a s = .ok s' ∧ P ((s, a) :: l) s') ∨ ∃ e, M.exec a s = .error e)
    {l : List (σ × α)} {s : σ} (h : M.Run l s) : P l s := by
  refine Run.invariant P hinit (fun {l s a s'} _ hP hen hexec => ?_) h
  rcases hstep hP hen with ⟨s'', hexec', hP'⟩ | ⟨e, hexec'⟩
  · obtain rfl : s'' = s' := Except.ok.inj (hexec'.symm.trans hexec)
    exact hP'
  · exact absurd (hexec'.symm.trans hexec) (by simp)

/-- **Invariant rule for systems that do not fault** where the invariant holds. -/
lemma Run.invariant_of_ok (P : List (σ × α) → σ → Prop) (hinit : P [] M.init)
    (hstep : ∀ {l s a}, P l s → M.enabled l s a →
      ∃ s', M.exec a s = .ok s' ∧ P ((s, a) :: l) s')
    {l : List (σ × α)} {s : σ} (h : M.Run l s) : P l s :=
  Run.invariant_of_cases P hinit (fun hP hen => .inl (hstep hP hen)) h

/-! ## Taking a run apart -/

/-- A step in the history of a path was taken at a state that the older part of the path
reaches, and the rest of the path starts from its successor. -/
lemma Path.split {h₀ l₁ l₂ : List (σ × α)} {s₀ s t : σ} {a : α}
    (h : M.Path h₀ s₀ (l₂ ++ (s, a) :: l₁) t) :
    ∃ s', M.Path h₀ s₀ l₁ s ∧ M.enabled (l₁ ++ h₀) s a ∧ M.exec a s = .ok s' ∧
      M.Path ((s, a) :: l₁ ++ h₀) s' l₂ t := by
  induction l₂ generalizing t with
  | nil =>
      cases h with
      | cons hpath hen hexec => exact ⟨_, hpath, hen, hexec, .nil⟩
  | cons p l₂ ih =>
      cases h with
      | cons hpath hen hexec =>
          obtain ⟨s', hp, hen', hexec', hrest⟩ := ih hpath
          exact ⟨s', hp, hen', hexec', hrest.cons (by simpa using hen) hexec⟩

/-- Every step of a run was enabled at a reachable state, and taken there. -/
lemma Run.split {l : List (σ × α)} {s t : σ} {a : α} (h : M.Run l t) (hmem : (s, a) ∈ l) :
    ∃ l₁ l₂ s', l = l₂ ++ (s, a) :: l₁ ∧ M.Run l₁ s ∧ M.enabled l₁ s a ∧
      M.exec a s = .ok s' ∧ M.Path ((s, a) :: l₁) s' l₂ t := by
  obtain ⟨l₂, l₁, rfl⟩ := List.append_of_mem hmem
  obtain ⟨s', hp, hen, hexec, hrest⟩ := Path.split h
  exact ⟨l₁, l₂, s', rfl, hp, by simpa using hen, hexec, by simpa using hrest⟩

/-- The oldest step of a path was taken at its start. -/
lemma Path.fst_of_mem_getLast? {h₀ l : List (σ × α)} {s₀ s : σ} (h : M.Path h₀ s₀ l s) :
    ∀ q ∈ l.getLast?, q.1 = s₀ := by
  induction h with
  | nil => simp
  | @cons l s s' a hpath _ _ ih =>
      cases l with
      | nil => cases hpath; simp
      | cons q l => simpa using ih

/-! ## Runs of one system as runs of another -/

/-- A map of states and actions that takes the steps of a system to steps of another one takes
its runs to runs. -/
lemma Run.map {σ' : Type*} {α' : Type*} {ε' : Type*} {N : System σ' α' ε'} {f : σ → σ'}
    {g : α → α'} (hinit : f M.init = N.init)
    (hstep : ∀ {l s a s'}, M.Run l s → M.enabled l s a → M.exec a s = .ok s' →
      N.enabled (l.map (Prod.map f g)) (f s) (g a) ∧ N.exec (g a) (f s) = .ok (f s'))
    {l : List (σ × α)} {s : σ} (h : M.Run l s) : N.Run (l.map (Prod.map f g)) (f s) := by
  refine Run.invariant (fun l s => N.Run (l.map (Prod.map f g)) (f s)) (hinit ▸ .nil) ?_ h
  intro l s a s' hrun ih hen hexec
  obtain ⟨hen', hexec'⟩ := hstep hrun hen hexec
  exact ih.step hen' hexec'

/-! ## Executing a list of actions -/

/-- Execute a list of actions, oldest first, keeping the history they make; `none` as soon as
one of them is not enabled or faults. -/
def execAll (M : System σ α ε) [∀ l s a, Decidable (M.enabled l s a)] :
    List (σ × α) → σ → List α → Option (List (σ × α) × σ)
  | l, s, [] => some (l, s)
  | l, s, a :: as =>
      if M.enabled l s a then
        match M.exec a s with
        | .ok s' => execAll M ((s, a) :: l) s' as
        | .error _ => none
      else none

/-- What `execAll` computes from a reachable state is a run. -/
lemma Run.execAll [∀ l s a, Decidable (M.enabled l s a)] {l l' : List (σ × α)} {s s' : σ}
    {as : List α} (h : M.Run l s) (hexec : M.execAll l s as = some (l', s')) : M.Run l' s' := by
  induction as generalizing l s with
  | nil =>
      simp only [System.execAll, Option.some.injEq, Prod.mk.injEq] at hexec
      obtain ⟨rfl, rfl⟩ := hexec
      exact h
  | cons a as ih =>
      simp only [System.execAll] at hexec
      split_ifs at hexec with hen
      cases hs : M.exec a s with
      | error e => simp [hs] at hexec
      | ok s'' =>
          simp only [hs] at hexec
          exact ih (h.step hen hs) hexec

/-- The history that `execAll` makes lists the actions, newest first. -/
lemma map_snd_of_execAll [∀ l s a, Decidable (M.enabled l s a)] {l l' : List (σ × α)} {s s' : σ}
    {as : List α} (hexec : M.execAll l s as = some (l', s')) :
    l'.map Prod.snd = as.reverse ++ l.map Prod.snd := by
  induction as generalizing l s with
  | nil =>
      simp only [System.execAll, Option.some.injEq, Prod.mk.injEq] at hexec
      simp [hexec.1]
  | cons a as ih =>
      simp only [System.execAll] at hexec
      split_ifs at hexec
      cases hs : M.exec a s with
      | error e => simp [hs] at hexec
      | ok s'' =>
          simp only [hs] at hexec
          simp [ih hexec]

/-- A Boolean test that holds after executing a list of actions holds at the end of a run. -/
lemma exists_run_of_execAll [∀ l s a, Decidable (M.enabled l s a)] (p : List (σ × α) → σ → Bool)
    (as : List α) (h : (M.execAll [] M.init as).any (fun q => p q.1 q.2) = true) :
    ∃ l s, M.Run l s ∧ p l s = true := by
  cases hexec : M.execAll [] M.init as with
  | none => simp [hexec] at h
  | some q =>
      obtain ⟨l, s⟩ := q
      rw [hexec] at h
      exact ⟨l, s, Run.execAll .nil hexec, by simpa using h⟩

/-- The same, with the run taken apart at one of its actions. -/
lemma exists_path_of_execAll [∀ l s a, Decidable (M.enabled l s a)]
    (p : List (σ × α) → σ → List (σ × α) → σ → Bool) (as : List α) (a : α) (as' : List α)
    (h : (M.execAll [] M.init (as ++ a :: as')).any (fun q =>
      q.1[as'.length]?.any fun r => p (q.1.drop (as'.length + 1)) r.1
        (q.1.take as'.length) q.2) = true) :
    ∃ l s s' m t, M.Run ((s, a) :: l) s' ∧ M.Path ((s, a) :: l) s' m t ∧
      l.map Prod.snd = as.reverse ∧ m.map Prod.snd = as'.reverse ∧ p l s m t = true := by
  cases hexec : M.execAll [] M.init (as ++ a :: as') with
  | none => simp [hexec] at h
  | some q =>
      obtain ⟨h', t⟩ := q
      have hacts := map_snd_of_execAll hexec
      simp only [List.reverse_append, List.reverse_cons, List.append_assoc, List.map_nil,
        List.append_nil, List.cons_append, List.nil_append] at hacts
      obtain ⟨m, l₁, rfl, hm, hl₁⟩ := List.map_eq_append_iff.mp hacts
      obtain ⟨⟨s, a'⟩, l, rfl, rfl, hl⟩ := List.map_eq_cons_iff.mp hl₁
      obtain ⟨s', hrun, hen, hstep, hpath⟩ := Path.split (Run.execAll .nil hexec)
      have hlen : m.length = as'.length := by simpa using congrArg List.length hm
      refine ⟨l, s, s', m, t, hrun.cons hen hstep, by simpa using hpath, hl, hm, ?_⟩
      rw [hexec] at h
      simpa [← hlen, List.take_append, List.drop_append, List.drop_of_length_le] using h

end System

end Framework
