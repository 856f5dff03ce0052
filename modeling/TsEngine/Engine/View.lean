import Mathlib.Data.Set.Basic
import TsEngine.Engine.Model

/-!
# The engine as a clerk sees it

What clients of the engine rely on does not mention ids, bitmaps or hash tables: it is about
which documents each segment holds and which of these are deleted.  A `View` is that much of an
engine, and `View.Step` the effect of each action on it, with the merge seen as moving the live
documents of one segment into another.

The file then follows one document or one primary key through a run of steps:
`View.Alive` (a document is live, or waits in the new segment to become so), `View.Quiet` (a
primary key has no live document, up to what the merge in progress may still delete) and
`View.Outside` (a document is not part of the merge in progress).  Each comes with the lemma that
a step preserves it.  Nothing here looks at the code; `Inv.step` connects the two.
-/

namespace TsEngine

/-- What a clerk sees of an engine. -/
structure View where
  listed : Set SegPtr
  holds : SegPtr → Set DocPtr
  deleted : SegPtr → Set DocPtr
  stage : ℕ
  sources : Set SegPtr
  newseg : Option SegPtr
  pending : Set ℕ

namespace View

/-- The document is live: a listed segment holds it undeleted. -/
def Live (v : View) (x : DocPtr) : Prop := ∃ p ∈ v.listed, x ∈ v.holds p ∧ x ∉ v.deleted p

/-- A source that has been migrated and not yet replaced: its deletions cannot be trusted. -/
def Merging (v : View) (p : SegPtr) : Prop := v.stage = 2 ∧ p ∈ v.sources

/-! ## Steps -/

/-- Setting the deletions of the primary key `k` in every listed segment. -/
structure Removed (pk : DocPtr → ℕ) (k : ℕ) (v : View) (deleted' : SegPtr → Set DocPtr) :
    Prop where
  deleted : ∀ p ∈ v.listed, ∀ x ∈ v.holds p, x ∈ v.deleted p ∨ pk x = k → x ∈ deleted' p
  kept : ∀ p ∈ v.listed, ¬v.Merging p → ∀ x ∈ v.holds p, x ∈ deleted' p →
    x ∈ v.deleted p ∨ pk x = k

/-- The stages a procedure can lead to without touching a document. -/
inductive Move : ℕ → ℕ → Prop
  | stay (s : ℕ) : Move s s
  | check : Move 0 1
  | release : Move 3 4
  | discard : Move 3 6
  | redelete : Move 4 5
  | reset : Move 6 0

/-- The actions that change documents. -/
def Touches : Action → Prop
  | .add _ | .remove _ | .replaceSegs | .redelete => True
  | _ => False

/-- The effect of an action on the view. -/
inductive Step (pk : DocPtr → ℕ) : Action → View → View → Prop
  /-- A procedure or a lookup that moves pointers only. -/
  | neutral {a : Action} {v : View} {stage' : ℕ} {sources' : Set SegPtr} (ha : ¬Touches a)
      (hmove : Move v.stage stage')
      (hsources : v.stage = 1 ∨ v.stage = 2 → sources' = v.sources)
      (hdiscard : v.stage = 3 → stage' = 6 → ∀ n, v.newseg = some n → n ∉ v.listed) :
      Step pk a v { v with stage := stage', sources := sources' }
  | remove {k : ℕ} {v : View} {deleted' : SegPtr → Set DocPtr} (hrem : Removed pk k v deleted')
      (hunlisted : ∀ p ∉ v.listed, deleted' p = v.deleted p) :
      Step pk (.remove k) v { v with
        deleted := deleted', pending := {k' | k' ∈ v.pending ∨ v.stage ≠ 0 ∧ k' = k} }
  | add {d : DocPtr} {v : View} {active : SegPtr} {holds' deleted' : SegPtr → Set DocPtr}
      (hrem : Removed pk (pk d) v deleted')
      (hfresh : ∀ p, p ∈ v.listed ∨ v.stage = 2 ∧ v.newseg = some p → d ∉ v.holds p)
      (hactive : ∀ x, x ∈ holds' active ↔ active ∈ v.listed ∧ x ∈ v.holds active ∨ x = d)
      (hholds : ∀ p, p ≠ active → holds' p = v.holds p) (hnew : d ∉ deleted' active)
      (hsource : v.stage = 1 ∨ v.stage = 2 → active ∉ v.sources)
      (hmerged : 2 ≤ v.stage → v.stage ≤ 5 → v.newseg ≠ some active) :
      Step pk (.add d) v { v with
        listed := {p | p ∈ v.listed ∨ p = active}, holds := holds', deleted := deleted' }
  /-- The live documents of the source `m2` are copied to `n`; the other source has none. -/
  | migrate {v : View} {m1 m2 n : SegPtr} {holds' deleted' : SegPtr → Set DocPtr}
      (hstage : v.stage = 1) (hsources : v.sources = {m1, m2}) (hm1 : m1 ∈ v.listed)
      (hm2 : m2 ∈ v.listed) (hdead : v.holds m1 ⊆ v.deleted m1) (hn : n ∉ v.listed)
      (hcopied : holds' n = v.holds m2 \ v.deleted m2)
      (hholds : ∀ p, p ≠ n → holds' p = v.holds p)
      (hkept : ∀ p ∈ v.listed, p ≠ m2 → ∀ x ∈ v.holds p, x ∈ deleted' p ↔ x ∈ v.deleted p)
      (hdeleted : ∀ x ∈ v.holds m2, x ∈ v.deleted m2 → x ∈ deleted' m2) :
      Step pk .procMigrate v { v with
        holds := holds', deleted := deleted', stage := 2, newseg := some n }
  /-- The new segment takes the place of the sources, unless it is empty. -/
  | replace {v : View} {n : SegPtr} (hstage : v.stage = 2) (hnewseg : v.newseg = some n)
      (hn : n ∉ v.listed) (hclean : ∀ x ∈ v.holds n, x ∉ v.deleted n) :
      Step pk .replaceSegs v { v with
        listed := {p | p ∈ v.listed ∧ p ∉ v.sources ∨ p = n ∧ (v.holds n).Nonempty}
        stage := 3 }
  /-- What is pending is deleted from the new segment. -/
  | redelete {v : View} {n : SegPtr} {deleted' : SegPtr → Set DocPtr} (hstage : v.stage = 5)
      (hnewseg : v.newseg = some n) (hn : n ∈ v.listed)
      (hother : ∀ p, p ≠ n → deleted' p = v.deleted p)
      (hdeleted : ∀ x ∈ v.holds n, x ∈ deleted' n ↔ x ∈ v.deleted n ∨ pk x ∈ v.pending) :
      Step pk .redelete v { v with deleted := deleted', stage := 6 }

variable {pk : DocPtr → ℕ} {a : Action} {v v' : View} {p : SegPtr} {x d : DocPtr} {k : ℕ}

/-- What the listed segments hold after an addition to the active one. -/
lemma mem_holds_add {active : SegPtr} {holds' : SegPtr → Set DocPtr}
    (hactive : ∀ x, x ∈ holds' active ↔ active ∈ v.listed ∧ x ∈ v.holds active ∨ x = d)
    (hholds : ∀ p, p ≠ active → holds' p = v.holds p) (hp : p ∈ v.listed ∨ p = active) :
    x ∈ holds' p ↔ p ∈ v.listed ∧ x ∈ v.holds p ∨ p = active ∧ x = d := by
  by_cases hpa : p = active
  · subst hpa
    simpa using hactive x
  · simp [hholds p hpa, hpa, hp.resolve_right hpa]

/-- The action is an addition or a removal of the primary key `k`. -/
def OnKey (pk : DocPtr → ℕ) (k : ℕ) : Action → Prop
  | .add d => pk d = k
  | .remove k' => k' = k
  | _ => False

/-- A task leaves the merge stage alone. -/
lemma Step.stage_of_task (h : Step pk a v v') (ha : a.IsTask) : v'.stage = v.stage := by
  cases h with
  | neutral hna => cases a <;> first | exact absurd trivial hna | exact ha.elim
  | remove => rfl
  | add => rfl
  | migrate | replace | redelete => exact ha.elim

/-! ## What the two tasks do to the live documents -/

/-- **An addition** makes its document live and the other documents of its key not. -/
lemma Step.live_add (h : Step pk (.add d) v v') (hstage : v.stage ≠ 2) :
    v'.Live x ↔ x = d ∨ v.Live x ∧ pk x ≠ pk d := by
  cases h with
  | neutral ha => exact absurd trivial ha
  | @add _ _ active _ _ hrem hfresh hactive hholds hnew =>
      have hmem := fun p => mem_holds_add (p := p) (x := x) hactive hholds
      constructor
      · rintro ⟨p, hp, hx, hlive⟩
        rcases (hmem p hp).mp hx with ⟨hp, hx⟩ | ⟨-, rfl⟩
        · exact .inr ⟨⟨p, hp, hx, fun hdel => hlive (hrem.deleted p hp x hx (.inl hdel))⟩,
            fun hk => hlive (hrem.deleted p hp x hx (.inr hk))⟩
        · exact .inl rfl
      · rintro (rfl | ⟨⟨p, hp, hx, hlive⟩, hk⟩)
        · exact ⟨active, .inr rfl, (hactive x).mpr (.inr rfl), hnew⟩
        · refine ⟨p, .inl hp, (hmem p (.inl hp)).mpr (.inl ⟨hp, hx⟩), fun hdel => ?_⟩
          exact (hrem.kept p hp (fun hm => hstage hm.1) x hx hdel).elim hlive hk

/-- **A removal** makes the documents of its key not live, and no others. -/
lemma Step.live_remove (h : Step pk (.remove k) v v') (hstage : v.stage ≠ 2) :
    v'.Live x ↔ v.Live x ∧ pk x ≠ k := by
  cases h with
  | neutral ha => exact absurd trivial ha
  | remove hrem =>
      constructor
      · rintro ⟨p, hp, hx, hlive⟩
        exact ⟨⟨p, hp, hx, fun hdel => hlive (hrem.deleted p hp x hx (.inl hdel))⟩,
          fun hk => hlive (hrem.deleted p hp x hx (.inr hk))⟩
      · rintro ⟨⟨p, hp, hx, hlive⟩, hk⟩
        refine ⟨p, hp, hx, fun hdel => ?_⟩
        exact (hrem.kept p hp (fun hm => hstage hm.1) x hx hdel).elim hlive hk

/-! ## A live document -/

/-- The document is live in a segment that is not being merged, or has been copied to the new
segment. -/
def Alive (v : View) (x : DocPtr) : Prop :=
  (∃ p ∈ v.listed, ¬v.Merging p ∧ x ∈ v.holds p ∧ x ∉ v.deleted p) ∨
    v.stage = 2 ∧ ∃ n, v.newseg = some n ∧ n ∉ v.listed ∧ x ∈ v.holds n

lemma Alive.live (h : v.Alive x) (hstage : v.stage ≠ 2) : v.Live x := by
  rcases h with ⟨p, hp, -, hx⟩ | ⟨hstage', -⟩
  · exact ⟨p, hp, hx⟩
  · exact absurd hstage' hstage

lemma Live.alive (h : v.Live x) (hstage : v.stage ≠ 2) : v.Alive x := by
  obtain ⟨p, hp, hx⟩ := h
  exact .inl ⟨p, hp, fun hm => hstage hm.1, hx⟩

/-- A stage of 2 is only left, and only entered by a migration. -/
lemma Move.stage_eq_two {s s' : ℕ} (h : Move s s') : s' = 2 ↔ s = 2 := by
  cases h <;> simp

/-- A copy that waits in the new segment is kept by every step, whatever its key. -/
lemma Step.alive_of_copied (h : Step pk a v v') (hstage : v.stage = 2) {n : SegPtr}
    (hn : v.newseg = some n) (hnl : n ∉ v.listed) (hx : x ∈ v.holds n) : v'.Alive x := by
  cases h with
  | neutral ha hmove => exact .inr ⟨hmove.stage_eq_two.mpr hstage, n, hn, hnl, hx⟩
  | remove => exact .inr ⟨hstage, n, hn, hnl, hx⟩
  | @add _ _ active _ _ _ _ _ hholds _ _ hmerged =>
      have hne : n ≠ active := fun he => hmerged (by omega) (by omega) (he ▸ hn)
      exact .inr ⟨hstage, n, hn, fun hmem => hmem.elim hnl hne,
        (Set.ext_iff.mp (hholds n hne) x).mpr hx⟩
  | migrate h1 => omega
  | @replace _ n' _ hnewseg _ hclean =>
      obtain rfl : n = n' := Option.some.inj (hn.symm.trans hnewseg)
      exact .inl ⟨n, .inr ⟨rfl, x, hx⟩, fun hm' => by simp [Merging] at hm', hx, hclean x hx⟩
  | redelete h5 => omega

/-- **A live document stays live** under actions on other keys, unless the second deletion finds
it in the new segment with its key pending. -/
lemma Step.alive (h : Step pk a v v') (hx : v.Alive x) (hkey : ¬OnKey pk (pk x) a)
    (hred : a = .redelete → v.stage = 5 → ∀ n ∈ v.listed, v.newseg = some n → x ∈ v.holds n →
      pk x ∉ v.pending) :
    v'.Alive x := by
  rcases hx with ⟨p, hp, hm, hx, hlive⟩ | ⟨hstage, n, hn, hnl, hx⟩
  swap
  · exact h.alive_of_copied hstage hn hnl hx
  cases h with
  | neutral ha hmove hsources =>
      refine .inl ⟨p, hp, fun hm' => hm ?_, hx, hlive⟩
      have hstage := hmove.stage_eq_two.mp hm'.1
      exact ⟨hstage, hsources (.inr hstage) ▸ hm'.2⟩
  | remove hrem =>
      refine .inl ⟨p, hp, hm, hx, fun hdel => ?_⟩
      rcases hrem.kept p hp hm x hx hdel with hdel | hk
      · exact hlive hdel
      · exact hkey hk.symm
  | @add d _ active _ _ hrem _ hactive hholds _ _ hmerged =>
      refine .inl ⟨p, .inl hp, hm, (mem_holds_add hactive hholds (.inl hp)).mpr (.inl ⟨hp, hx⟩),
        fun hdel => ?_⟩
      rcases hrem.kept p hp hm x hx hdel with hdel | hk
      · exact hlive hdel
      · exact hkey hk.symm
  | @migrate _ m1 m2 n _ _ hstage hsources hm1 hm2 hdead hnl hcopied hholds hkept =>
      -- a live document of a source is one of `m2`, and has been copied
      have hpn : p ≠ n := fun he => hnl (he ▸ hp)
      by_cases hp2 : p = m2
      · subst hp2
        exact .inr ⟨rfl, n, rfl, hnl, (Set.ext_iff.mp hcopied x).mpr ⟨hx, hlive⟩⟩
      · have hp1 : p ≠ m1 := fun he => hlive (he ▸ hdead (he ▸ hx))
        refine .inl ⟨p, hp, fun hm => ?_, (Set.ext_iff.mp (hholds p hpn) x).mpr hx,
          fun hdel => hlive ((hkept p hp hp2 x hx).mp hdel)⟩
        have hmem : p ∈ v.sources := hm.2
        rw [hsources] at hmem
        exact hmem.elim hp1 hp2
  | replace hstage =>
      exact .inl ⟨p, .inl ⟨hp, fun hs => hm ⟨hstage, hs⟩⟩, fun hm' => by simp [Merging] at hm',
        hx, hlive⟩
  | @redelete _ n _ hstage hnewseg hn hother hdeleted =>
      refine .inl ⟨p, hp, fun hm' => by simp [Merging] at hm', hx, fun hdel => ?_⟩
      by_cases hpn : p = n
      · subst hpn
        rcases (hdeleted x hx).mp hdel with hdel | hpend
        · exact hlive hdel
        · exact hred rfl hstage p hn hnewseg hx hpend
      · exact hlive (hother p hpn ▸ hdel)

/-! ## A primary key without live documents -/

/-- Between replacement and second deletion, the new segment may still show what is pending. -/
def Showing (v : View) (p : SegPtr) : Prop :=
  (v.stage = 3 ∨ v.stage = 4 ∨ v.stage = 5) ∧ v.newseg = some p

/-- Except for the documents `keep`, the key `k` has no live document in any listed segment and
none that a merge is about to bring in, unless in the `window` in which the new segment may hold
one that the merge itself will delete. -/
structure Quiet (pk : DocPtr → ℕ) (k : ℕ) (keep : Set DocPtr) (window : Prop) (v : View) :
    Prop where
  listed : ∀ p ∈ v.listed, ∀ x ∈ v.holds p, pk x = k → x ∉ keep →
    x ∈ v.deleted p ∨ window ∧ v.Showing p
  newseg : v.stage = 2 → ∀ n, v.newseg = some n → ∀ x ∈ v.holds n, pk x = k → x ∉ keep → window
  pending : window → k ∈ v.pending

variable {keep : Set DocPtr} {window : Prop}

/-- Where the new segment is not showing, no document of the key is live. -/
lemma Quiet.deleted (h : Quiet pk k keep window v) (hp : p ∈ v.listed)
    (hshow : ¬(window ∧ v.Showing p)) (hx : x ∈ v.holds p) (hk : pk x = k) (hkeep : x ∉ keep) :
    x ∈ v.deleted p :=
  (h.listed p hp x hx hk hkeep).resolve_right hshow

/-- The exceptions are only showing between replacement and second deletion. -/
lemma not_showing_of_stage (h : v.stage ≠ 3 ∧ v.stage ≠ 4 ∧ v.stage ≠ 5) : ¬v.Showing p := by
  rintro ⟨hstage, -⟩
  omega

/-- **A key without live documents stays without** until a document of the key is added.  The
window closes when the merge cycle ends. -/
lemma Step.quiet (h : Step pk a v v') (hq : Quiet pk k keep window v)
    (hkey : ∀ d, a = .add d → pk d ≠ k) :
    Quiet pk k keep (window ∧ v.stage ≠ 0) v' := by
  cases h with
  | @neutral _ _ stage' _ ha hmove hsources hdiscard =>
      refine ⟨fun p hp x hx hk hkeep => ?_, fun hstage n hn x hx hk hkeep => ?_,
        fun hw => hq.pending hw.1⟩
      · rcases hq.listed p hp x hx hk hkeep with hdel | ⟨hw, hstage, hnew⟩
        · exact .inl hdel
        · refine .inr ⟨⟨hw, by omega⟩, ?_, hnew⟩
          -- leaving stages 3 to 5 by a procedure means that the new segment is not listed
          have hnot : v.stage = 3 → stage' ≠ 6 := fun h3 h6 => hdiscard h3 h6 p hnew hp
          show stage' = 3 ∨ stage' = 4 ∨ stage' = 5
          generalize v.stage = s at hmove hstage hnot
          cases hmove <;> simp_all
      · have hstage : v.stage = 2 := hmove.stage_eq_two.mp hstage
        exact ⟨hq.newseg hstage n hn x hx hk hkeep, by omega⟩
  | remove hrem =>
      refine ⟨fun p hp x hx hk hkeep => ?_, fun hstage n hn x hx hk hkeep => ?_,
        fun hw => .inl (hq.pending hw.1)⟩
      · rcases hq.listed p hp x hx hk hkeep with hdel | ⟨hw, hshow⟩
        · exact .inl (hrem.deleted p hp x hx (.inl hdel))
        · exact .inr ⟨⟨hw, by have := hshow.1; omega⟩, hshow⟩
      · have hstage : v.stage = 2 := hstage
        exact ⟨hq.newseg hstage n hn x hx hk hkeep, by omega⟩
  | @add d _ active _ _ hrem _ hactive hholds _ _ hmerged =>
      refine ⟨fun p hp x hx hk hkeep => ?_, fun hstage n hn x hx hk hkeep => ?_,
        fun hw => hq.pending hw.1⟩
      · rcases (mem_holds_add hactive hholds hp).mp hx with ⟨hp, hx⟩ | ⟨-, rfl⟩
        · rcases hq.listed p hp x hx hk hkeep with hdel | ⟨hw, hshow⟩
          · exact .inl (hrem.deleted p hp x hx (.inl hdel))
          · exact .inr ⟨⟨hw, by have := hshow.1; omega⟩, hshow⟩
        · exact absurd hk (hkey _ rfl)
      · have hstage : v.stage = 2 := hstage
        refine ⟨?_, by omega⟩
        have hne : n ≠ active := fun he => hmerged (by omega) (by omega) (he ▸ hn)
        exact hq.newseg hstage n hn x ((Set.ext_iff.mp (hholds n hne) x).mp hx) hk hkeep
  | @migrate _ m1 m2 n _ _ hstage hsources hm1 hm2 hdead hnl hcopied hholds hkept hdeleted =>
      have hnot : ∀ p, ¬v.Showing p := fun p => not_showing_of_stage (by omega)
      refine ⟨fun p hp x hx hk hkeep => .inl ?_, fun _ n' hn' x hx hk hkeep => ?_,
        fun hw => hq.pending hw.1⟩
      · have hpn : p ≠ n := fun he => hnl (he ▸ hp)
        have hx : x ∈ v.holds p := (Set.ext_iff.mp (hholds p hpn) x).mp hx
        have hdel := hq.deleted hp (fun hw => hnot p hw.2) hx hk hkeep
        by_cases hp2 : p = m2
        · subst hp2
          exact hdeleted x hx hdel
        · exact (hkept p hp hp2 x hx).mpr hdel
      · -- nothing of the key was live in the source, so nothing of it has been copied
        obtain rfl : n = n' := Option.some.inj hn'
        obtain ⟨hx, hlive⟩ := (Set.ext_iff.mp hcopied x).mp hx
        exact absurd (hq.deleted hm2 (fun hw => hnot m2 hw.2) hx hk hkeep) hlive
  | @replace _ n hstage hnewseg hnl hclean =>
      refine ⟨fun p hp x hx hk hkeep => ?_, fun h2 => absurd h2 (by simp),
        fun hw => hq.pending hw.1⟩
      rcases hp with ⟨hp, -⟩ | ⟨rfl, -⟩
      · exact .inl (hq.deleted hp (fun hw => not_showing_of_stage (by omega) hw.2) hx hk hkeep)
      · exact .inr ⟨⟨hq.newseg hstage p hnewseg x hx hk hkeep, by omega⟩, .inl rfl, hnewseg⟩
  | @redelete _ n _ hstage hnewseg hnl hother hdeleted =>
      refine ⟨fun p hp x hx hk hkeep => .inl ?_, fun h2 => absurd h2 (by simp),
        fun hw => hq.pending hw.1⟩
      by_cases hpn : p = n
      · subst hpn
        apply (hdeleted x hx).mpr
        rcases hq.listed p hp x hx hk hkeep with hdel | ⟨hw, -⟩
        · exact .inl hdel
        · exact .inr (hk ▸ hq.pending hw)
      · refine (Set.ext_iff.mp (hother p hpn) x).mpr (hq.deleted hp (fun hw => ?_) hx hk hkeep)
        exact hpn (Option.some.inj (hw.2.2.symm.trans hnewseg))

/-! ## A document that is not part of the merge in progress -/

/-- The sources of the merge in progress do not hold the document, and neither does the segment
it makes, from its migration to its second deletion. -/
structure Outside (v : View) (x : DocPtr) : Prop where
  sources : v.stage = 1 → ∀ p ∈ v.sources, p ∈ v.listed → x ∉ v.holds p
  newseg : 2 ≤ v.stage → v.stage ≤ 5 → ∀ n, v.newseg = some n → v.stage = 2 ∨ n ∈ v.listed →
    x ∉ v.holds n

/-- **A document outside the merge in progress stays outside**, until the cycle ends. -/
lemma Step.outside (h : Step pk a v v') (hx : v.Outside x) (hstage : v.stage ≠ 0)
    (hne : a ≠ .add x) : v'.Outside x := by
  cases h with
  | @neutral _ _ stage' _ ha hmove hsources =>
      refine ⟨fun h1 p hp hl => ?_, fun h2 h5 n hn hor => ?_⟩
      · have h1 : stage' = 1 := h1
        have hv : v.stage = 1 := by
          generalize v.stage = s at hmove hstage
          cases hmove <;> simp_all
        have hp : p ∈ v.sources := hsources (.inl hv) ▸ hp
        exact hx.sources hv p hp hl
      · have h2 : 2 ≤ stage' := h2
        have h5 : stage' ≤ 5 := h5
        have hv : 2 ≤ v.stage ∧ v.stage ≤ 5 := by
          generalize v.stage = s at hmove hstage
          cases hmove <;> simp_all
        exact hx.newseg hv.1 hv.2 n hn (hor.imp_left hmove.stage_eq_two.mp)
  | remove hrem => exact ⟨hx.sources, hx.newseg⟩
  | @add d _ active _ _ hrem _ hactive hholds _ hsource hmerged =>
      have hxd : x ≠ d := fun he => hne (he ▸ rfl)
      refine ⟨fun h1 p hp hl hmem => ?_, fun h2 h5 n hn hor hmem => ?_⟩
      · rcases (mem_holds_add hactive hholds hl).mp hmem with ⟨hl, hmem⟩ | ⟨-, he⟩
        · exact hx.sources h1 p hp hl hmem
        · exact hxd he
      · have hna : n ≠ active := fun he => hmerged h2 h5 (he ▸ hn)
        have hor : v.stage = 2 ∨ n ∈ v.listed := hor.imp_right fun hl => hl.resolve_right hna
        exact hx.newseg h2 h5 n hn hor ((Set.ext_iff.mp (hholds n hna) x).mp hmem)
  | @migrate _ m1 m2 n _ _ h1 hsources hm1 hm2 hdead hnl hcopied hholds =>
      refine ⟨fun h1' => absurd h1' (by simp), fun _ _ n' hn' _ hmem => ?_⟩
      obtain rfl : n = n' := Option.some.inj hn'
      have hm : m2 ∈ v.sources := by simp [hsources]
      exact hx.sources h1 m2 hm hm2 ((Set.ext_iff.mp hcopied x).mp hmem).1
  | @replace _ n h2 hnewseg =>
      exact ⟨fun h1 => absurd h1 (by simp),
        fun _ _ n' hn' _ => hx.newseg (by omega) (by omega) n' hn' (.inl h2)⟩
  | @redelete _ n _ h5 =>
      exact ⟨fun h1 => absurd h1 (by simp), fun _ h => absurd h (by simp)⟩

/-! ## Right after a task -/

/-- **Right after its removal** a key has no live document, but a removal between migration and
replacement leaves a window. -/
lemma Step.quiet_remove (h : Step pk (.remove k) v v') : Quiet pk k ∅ (v.stage = 2) v' := by
  cases h with
  | neutral ha => exact absurd trivial ha
  | remove hrem =>
      exact ⟨fun p hp x hx hk _ => .inl (hrem.deleted p hp x hx (.inr hk)),
        fun hstage _ _ _ _ _ _ => hstage, fun h2 => .inr ⟨by omega, rfl⟩⟩

/-- Right after its addition, a document is the only one of its key that is live or about to
become so, if the waiting new segment holds none or will lose it again. -/
lemma Step.quiet_add (h : Step pk (.add d) v v')
    (hnewseg : v.stage = 2 → ∀ n, v.newseg = some n → ∀ x ∈ v.holds n, pk x = pk d →
      pk d ∈ v.pending) : Quiet pk (pk d) {d} (pk d ∈ v.pending) v' := by
  cases h with
  | neutral ha => exact absurd trivial ha
  | @add _ _ active _ _ hrem _ hactive hholds _ _ hmerged =>
      refine ⟨fun p hp x hx hk hkeep => .inl ?_, fun hstage n hn x hx hk _ => ?_, id⟩
      · rcases (mem_holds_add hactive hholds hp).mp hx with ⟨hp, hx⟩ | ⟨-, rfl⟩
        · exact hrem.deleted p hp x hx (.inr hk)
        · exact absurd rfl hkeep
      · have hstage : v.stage = 2 := hstage
        have hne : n ≠ active := fun he => hmerged (by omega) (by omega) (he ▸ hn)
        exact hnewseg hstage n hn x ((Set.ext_iff.mp (hholds n hne) x).mp hx) hk

/-- Right after its addition a document is live, and outside any merge in progress. -/
lemma Step.alive_add (h : Step pk (.add d) v v') : v'.Alive d ∧ v'.Outside d := by
  cases h with
  | neutral ha => exact absurd trivial ha
  | @add _ _ active holds' _ hrem hfresh hactive hholds hnew hsource hmerged =>
      have hheld : ∀ p, p ≠ active → p ∈ v.listed ∨ v.stage = 2 ∧ v.newseg = some p →
          d ∉ holds' p := fun p hpa hp hd =>
        hfresh p hp ((Set.ext_iff.mp (hholds p hpa) d).mp hd)
      refine ⟨.inl ⟨active, .inr rfl, fun hm => hsource (.inr hm.1) hm.2,
        (hactive d).mpr (.inr rfl), hnew⟩, fun h1 p hp hl => ?_, fun h2 h5 n hn hor => ?_⟩
      · have hpa : p ≠ active := fun he => hsource (.inl h1) (he ▸ hp)
        exact hheld p hpa (.inl (hl.resolve_right hpa))
      · have hna : n ≠ active := fun he => hmerged h2 h5 (he ▸ hn)
        exact hheld n hna (hor.symm.imp (fun hl => hl.resolve_right hna) fun h2 => ⟨h2, hn⟩)

/-- What is pending after a step: what was, and the key of a removal during a merge. -/
lemma Step.mem_pending (h : Step pk a v v') :
    k ∈ v'.pending ↔ k ∈ v.pending ∨ a = .remove k ∧ v.stage ≠ 0 := by
  cases h with
  | neutral ha =>
      refine ⟨.inl, fun hor => hor.elim id ?_⟩
      rintro ⟨rfl, -⟩
      exact absurd trivial ha
  | @remove k' => exact or_congr_right ⟨fun ⟨h0, he⟩ => ⟨he ▸ rfl, h0⟩,
      fun ⟨he, h0⟩ => ⟨h0, (Action.remove.inj he).symm⟩⟩
  | add | migrate | replace | redelete => simp

/-- What the second deletion deletes. -/
lemma Step.redeleted (h : Step pk .redelete v v') : ∃ n ∈ v.listed, v.newseg = some n ∧
    ∀ x ∈ v.holds n, x ∈ v'.deleted n ↔ x ∈ v.deleted n ∨ pk x ∈ v.pending := by
  cases h with
  | neutral ha => exact absurd trivial ha
  | redelete _ hnewseg hn _ hdeleted => exact ⟨_, hn, hnewseg, hdeleted⟩

end View

end TsEngine
