import TsEngine.Engine.Reachable

/-!
# No document is freed twice

A migration sets the deleted documents of its sources aside, and the release frees them once the
sources are gone.  `Ledger` keeps the account: what has been freed is freed once and listed
nowhere, and what is set aside has not been freed and is listed by the sources only.
-/

namespace TsEngine

open Framework

/-- The account of the documents set aside and of those freed, after the actions `as`. -/
structure Ledger (as : List Action) (v : View) (deleted freed : List DocPtr) : Prop where
  nodup : freed.Nodup
  added : ∀ x ∈ freed, .add x ∈ as
  unlisted : ∀ x ∈ freed, ∀ p ∈ v.listed, x ∉ v.holds p
  waiting : v.stage = 2 ∨ v.stage = 3 → deleted.Nodup ∧ ∀ x ∈ deleted, x ∉ freed ∧ .add x ∈ as
  aside : v.stage = 2 → ∀ x ∈ deleted, (∃ p ∈ v.sources, x ∈ v.holds p) ∧
    ∀ n, v.newseg = some n → x ∉ v.holds n
  replaced : v.stage = 3 → ∀ x ∈ deleted, ∀ p ∈ v.listed, x ∉ v.holds p

/-- No procedure leads to stage 2 or 3 without touching a document. -/
lemma View.Move.eq_of_waiting {s s' : ℕ} (h : View.Move s s') (hs : s' = 2 ∨ s' = 3) : s = s' := by
  cases h <;> omega

namespace Ledger

variable {pk : DocPtr → ℕ} {as : List Action} {a : Action} {v v' : View}
  {deleted deleted' freed : List DocPtr} {x : DocPtr}

/-- What is set aside counts at stages 2 and 3 only. -/
lemma of_stage (h : Ledger as v deleted freed) (hstage : v.stage ≠ 2 ∧ v.stage ≠ 3) :
    Ledger as v deleted' freed where
  nodup := h.nodup
  added := h.added
  unlisted := h.unlisted
  waiting hs := by omega
  aside hs := absurd hs hstage.1
  replaced hs := absurd hs hstage.2

/-- The history of actions only ever supports more. -/
lemma cons (h : Ledger as v deleted freed) (a : Action) : Ledger (a :: as) v deleted freed :=
  { h with
    added := fun x hx => List.mem_cons_of_mem _ (h.added x hx)
    waiting := fun hs => ⟨(h.waiting hs).1, fun x hx => ⟨((h.waiting hs).2 x hx).1,
      List.mem_cons_of_mem _ ((h.waiting hs).2 x hx).2⟩⟩ }

/-- The release of what was set aside. -/
lemma release (h : Ledger as v deleted freed) (hstage : v.stage = 3)
    (hstep : View.Step pk .procRelease v v') (hstage' : v'.stage ≠ 2 ∧ v'.stage ≠ 3) :
    Ledger as v' deleted (deleted.reverse ++ freed) := by
  obtain ⟨hnodup, hwait⟩ := h.waiting (.inr hstage)
  obtain ⟨hlisted, hholds⟩ : v'.listed = v.listed ∧ v'.holds = v.holds := by
    cases hstep
    exact ⟨rfl, rfl⟩
  refine ⟨?_, fun x hx => ?_, fun x hx p hp => ?_, fun hs => by omega,
    fun hs => absurd hs hstage'.1, fun hs => absurd hs hstage'.2⟩
  · refine List.Nodup.append (List.nodup_reverse.mpr hnodup) h.nodup fun x hx hfreed => ?_
    exact (hwait x (List.mem_reverse.mp hx)).1 hfreed
  · rcases List.mem_append.mp hx with hx | hx
    · exact (hwait x (List.mem_reverse.mp hx)).2
    · exact h.added x hx
  · rw [hlisted] at hp
    rw [hholds]
    rcases List.mem_append.mp hx with hx | hx
    · exact h.replaced hstage x (List.mem_reverse.mp hx) p hp
    · exact h.unlisted x hx p hp

/-- What a step needs to know of the segments to keep the account. -/
structure Separate (v : View) : Prop where
  disjoint : ∀ p ∈ v.listed, ∀ q ∈ v.listed, p ≠ q → ∀ x ∈ v.holds p, x ∉ v.holds q
  sources : v.stage = 2 → ∀ p ∈ v.sources, p ∈ v.listed
  newseg : v.stage = 2 → ∀ n, v.newseg = some n → ∀ x ∈ v.holds n,
    ∃ p ∈ v.listed, x ∈ v.holds p

/-- **A step that neither sets aside nor frees** keeps the account. -/
lemma step (h : Ledger as v deleted freed) (hstep : View.Step pk a v v') (hsep : Separate v)
    (hfresh : ∀ d, a = .add d → .add d ∉ as) (ha : a = .procMigrate → v.stage ≠ 1) :
    Ledger (a :: as) v' deleted freed := by
  have hadded := (h.cons a).added
  have hwait := (h.cons a).waiting
  cases hstep with
  | @neutral _ _ stage' sources' hna hmove hsources hdiscard =>
      have hstay := hmove.eq_of_waiting
      refine ⟨h.nodup, hadded, h.unlisted, fun hs => hwait (hstay hs ▸ hs), fun hs => ?_,
        fun hs => h.replaced ((hstay (.inr hs)).trans hs)⟩
      have hv : v.stage = 2 := (hstay (.inl hs)).trans hs
      show ∀ x ∈ deleted, (∃ p ∈ sources', _) ∧ _
      rw [hsources (.inr hv)]
      exact h.aside hv
  | remove hrem hunlisted =>
      exact ⟨h.nodup, hadded, h.unlisted, hwait, h.aside, h.replaced⟩
  | @add d _ active holds' deleted' hrem hnot hactive hholds hnew hsource hmerged =>
      have hd : .add d ∉ as := hfresh d rfl
      -- the document added is neither freed nor set aside
      have hlisted : ∀ x, .add x ∈ as → (∀ p ∈ v.listed, x ∉ v.holds p) →
          ∀ p, p ∈ v.listed ∨ p = active → x ∉ holds' p := fun x hx hout p hp hmem => by
        rcases (View.mem_holds_add hactive hholds hp).mp hmem with ⟨hp, hmem⟩ | ⟨-, rfl⟩
        · exact hout p hp hmem
        · exact hd hx
      refine ⟨h.nodup, hadded, fun x hx => hlisted x (h.added x hx) (h.unlisted x hx), hwait,
        fun hs x hx => ?_, fun hs x hx =>
          hlisted x ((h.waiting (.inr hs)).2 x hx).2 (h.replaced hs x hx)⟩
      obtain ⟨⟨p, hp, hmem⟩, hout⟩ := h.aside hs x hx
      refine ⟨⟨p, hp, ?_⟩, fun n hn => ?_⟩
      · show x ∈ holds' p
        rwa [hholds p fun he => hsource (.inr hs) (he ▸ hp)]
      · show x ∉ holds' n
        have hn : v.newseg = some n := hn
        have hs : v.stage = 2 := hs
        rw [hholds n fun he => hmerged (by omega) (by omega) (he ▸ hn)]
        exact hout n hn
  | migrate hstage => exact absurd hstage (ha rfl)
  | @replace _ n hstage hnewseg hn hclean =>
      refine ⟨h.nodup, hadded, fun x hx p hp hmem => ?_, fun _ => hwait (.inl hstage),
        fun hs => absurd hs (by simp), fun _ x hx p hp hmem => ?_⟩
      · rcases hp with ⟨hp, -⟩ | ⟨rfl, -⟩
        · exact h.unlisted x hx p hp hmem
        · obtain ⟨q, hq, hmem⟩ := hsep.newseg hstage p hnewseg x hmem
          exact h.unlisted x hx q hq hmem
      · obtain ⟨⟨q, hq, hmemq⟩, hout⟩ := h.aside hstage x hx
        rcases hp with ⟨hp, hpq⟩ | ⟨rfl, -⟩
        · have hne : p ≠ q := fun he => hpq (he ▸ hq)
          exact hsep.disjoint p hp q (hsep.sources hstage q hq) hne x hmem hmemq
        · exact hout p hnewseg hmem
  | redelete hstage =>
      exact ⟨h.nodup, hadded, h.unlisted, fun hs => absurd hs (by simp),
        fun hs => absurd hs (by simp), fun hs => absurd hs (by simp)⟩

end Ledger

namespace Engine

variable {cap : ℕ} {heap : DocHeap} {as : List Action} {l : List (ListEngine × Action)}
  {e e' : ListEngine} {log : SegPtr → List DocPtr} {x : DocPtr}

/-! ## Tasks -/

/-- The step left the merger's segments, and what has been freed, alone. -/
structure Aside (e e' : ListEngine) : Prop where
  mseg1 : e'.merger.mseg1 = e.merger.mseg1
  mseg2 : e'.merger.mseg2 = e.merger.mseg2
  newseg : e'.merger.newseg = e.merger.newseg
  deleted : e'.merger.deleted = e.merger.deleted
  stage : e'.merger.mergeStage = e.merger.mergeStage
  freedSegs : e'.freedSegs = e.freedSegs
  freedDocs : e'.freedDocs = e.freedDocs
  mem : ∀ p < e.nextSeg, p ∈ e'.segments ↔ p ∈ e.segments
  next : e.nextSeg ≤ e'.nextSeg

lemma Aside.refl (e : ListEngine) : Aside e e :=
  ⟨rfl, rfl, rfl, rfl, rfl, rfl, rfl, fun _ _ => Iff.rfl, le_rfl⟩

lemma aside_rollOver (h : Inv cap heap as e log) : Aside e (e.rollOver cap) := by
  by_cases hfull : cap ≤ (e.segs e.segmentActive).numTotalDocs
  · rw [rollOver_of_le hfull (h.lt _ h.active)]
    exact ⟨rfl, rfl, rfl, rfl, rfl, rfl, rfl, fun p hp =>
      mem_rolledOver_segments.trans (or_iff_right hp.ne), Nat.le_succ _⟩
  · rw [rollOver_of_lt (by omega)]
    exact .refl e

lemma aside_add (h : Inv cap heap as e log) (hcap : 1 ≤ cap) (d : DocPtr) :
    Aside e (e.addDocumentHandler cap d) := by
  obtain ⟨log₁, h₁, -⟩ := h.rollOver hcap
  have hroll := aside_rollOver h
  unfold Engine.addDocumentHandler
  generalize e.rollOver cap = e₁ at h₁ hroll
  dsimp only
  rw [removeFromAll_list h₁.nodup]
  exact { hroll with }

lemma aside_remove (h : Inv cap heap as e log) (k : ℕ) : Aside e (e.removeDocumentHandler k) := by
  unfold Engine.removeDocumentHandler
  rw [removeFromAll_list h.nodup]
  dsimp only
  split_ifs
  · exact { Aside.refl e with }
  · exact { Aside.refl e with }

/-! ## Procedures -/

/-- The release frees what was set aside when it leaves stage 3, and nothing before. -/
lemma Inv.lists_release (h : Inv cap heap as e log) (hexec : e.mergeProcRelease = .ok e') :
    e'.merger.deleted = e.merger.deleted ∧
      (e'.freedDocs = e.freedDocs ∨ e.merger.mergeStage = 3 ∧
        (e'.merger.mergeStage = 4 ∨ e'.merger.mergeStage = 6) ∧
        e'.freedDocs = e.merger.deleted.reverse ++ e.freedDocs) := by
  unfold Engine.mergeProcRelease at hexec
  split_ifs at hexec with hstage
  · obtain rfl := Except.ok.inj hexec
    exact ⟨rfl, .inl rfl⟩
  have hstage : e.merger.mergeStage = 3 := by simpa using hstage
  obtain ⟨e₁, h1, hexec⟩ := bind_eq_ok.mp hexec
  obtain ⟨e₂, h2, hexec⟩ := bind_eq_ok.mp hexec
  obtain ⟨hinv₁, hstage₁⟩ := h.releaseMseg1 hstage h1
  obtain ⟨hinv₂, hstage₂⟩ := hinv₁.releaseMseg2 hstage₁ h2
  obtain ⟨-, -, hdel₁, hfreed₁⟩ := frame_releaseMseg1 h1
  obtain ⟨-, -, hdel₂, hfreed₂⟩ := frame_releaseMseg2 h2
  have hdel := hdel₂.trans hdel₁
  have hfreed := hfreed₂.trans hfreed₁
  split_ifs at hexec
  · obtain ⟨n, -, -, heq⟩ := hinv₂.releaseDocuments_spec hstage₂
    rw [heq, hdel, hfreed] at hexec
    split_ifs at hexec with hpos
    · obtain rfl := Except.ok.inj hexec
      exact ⟨hdel, .inr ⟨hstage, .inl rfl, rfl⟩⟩
    · obtain rfl := Except.ok.inj hexec
      exact ⟨hdel, .inr ⟨hstage, .inr rfl, rfl⟩⟩
  · obtain rfl := Except.ok.inj hexec
    exact ⟨hdel, .inl hfreed⟩

/-- Only a migration and a reset change what is set aside, and only a release frees documents. -/
lemma Inv.lists_exec (h : Inv cap heap as e log) (hcap : 1 ≤ cap) {a : Action}
    (hen : a.Enabled cap as e) (hexec : Engine.exec cap a e = .ok e')
    (hmigrate : a = .procMigrate → e.merger.mergeStage ≠ 1) (hrelease : a ≠ .procRelease)
    (hreset : a ≠ .procReset) :
    e'.merger.deleted = e.merger.deleted ∧ e'.freedDocs = e.freedDocs := by
  cases a with
  | add d =>
      have haside := aside_add h hcap d
      exact Except.ok.inj hexec ▸ ⟨haside.deleted, haside.freedDocs⟩
  | remove k =>
      have haside := aside_remove h k
      exact Except.ok.inj hexec ▸ ⟨haside.deleted, haside.freedDocs⟩
  | replaceSegs =>
      obtain ⟨m1, m2, n, -, -, -, heq⟩ := h.replaceSegs_spec hen
      obtain rfl := Except.ok.inj (heq.symm.trans hexec)
      exact ⟨rfl, rfl⟩
  | redelete =>
      obtain ⟨n, -, -, -, heq⟩ := h.redelete_spec hen
      obtain rfl := Except.ok.inj (heq.symm.trans hexec)
      exact ⟨rfl, rfl⟩
  | procCheck =>
      have hexec : e.mergeProcCheck = .ok e' := hexec
      unfold Engine.mergeProcCheck at hexec
      split_ifs at hexec
      · exact Except.ok.inj hexec ▸ ⟨rfl, rfl⟩
      obtain ⟨r, -, hexec⟩ := bind_eq_ok.mp hexec
      match r, hexec with
      | none, hexec => exact Except.ok.inj hexec ▸ ⟨rfl, rfl⟩
      | some (m1, m2), hexec => exact Except.ok.inj hexec ▸ ⟨rfl, rfl⟩
  | procMigrate =>
      have hexec : e.mergeProcMigrate = .ok e' := hexec
      rw [Engine.mergeProcMigrate, if_pos (hmigrate rfl)] at hexec
      exact Except.ok.inj hexec ▸ ⟨rfl, rfl⟩
  | procRelease => exact absurd rfl hrelease
  | procRedelete =>
      obtain rfl := Except.ok.inj hexec
      unfold Engine.mergeProcRedelete
      split_ifs
      · exact ⟨rfl, rfl⟩
      · exact ⟨rfl, rfl⟩
  | procReset => exact absurd rfl hreset
  | lookupEnter seg => exact Except.ok.inj hexec ▸ ⟨rfl, rfl⟩
  | lookupLeave seg => exact Except.ok.inj hexec ▸ ⟨rfl, rfl⟩

/-! ## The account along a run -/

lemma Inv.separate (h : Inv cap heap as e log) : Ledger.Separate e.view where
  disjoint p hp q hq hne x hxp hxq :=
    h.disjoint p hp q hq hne ((h.mem_docPtrs hp).mp hxp) ((h.mem_docPtrs hq).mp hxq)
  sources hstage p hp := by
    cases h.phase with
    | migrated m1 m2 n _ _ hsrc _ => exact hsrc.mem hp
    | _ =>
        have hstage : e.merger.mergeStage = 2 := hstage
        omega
  newseg hstage n hn x hx := by
    obtain ⟨m2, hmem, hnew⟩ := h.unlinked hstage hn
    exact ⟨m2, hmem, (h.mem_docPtrs hmem).mpr
      (hnew.fromSource x (hnew.sound.mem_docPtrs.mp hx))⟩

/-- The migration opens the account of its cycle. -/
lemma Inv.ledger_migrate (h : Inv cap heap as e log)
    (hledger : Ledger as e.view e.merger.deleted e.freedDocs) (hstage : e.merger.mergeStage = 1)
    (hexec : e.mergeProcMigrate = .ok e') :
    Ledger as e'.view e'.merger.deleted e'.freedDocs := by
  obtain ⟨m1, m2, s, hsrc, hcopied, haside, heq⟩ := h.mergeProcMigrate_eq hstage
  obtain rfl := Except.ok.inj (heq.symm.trans hexec)
  have hrep1 := h.represents m1 hsrc.mem1
  have hrep2 := h.represents m2 hsrc.mem2
  have hin : ∀ x ∈ s.2.2, ∃ p ∈ e.segments, (p = m1 ∨ p = m2) ∧ x ∈ (e.segs p).docPtrs := by
    intro x hx
    rw [haside, List.mem_append, List.mem_filter] at hx
    rcases hx with hx | ⟨hx, -⟩
    · exact ⟨m1, hsrc.mem1, .inl rfl, hx⟩
    · exact ⟨m2, hsrc.mem2, .inr rfl, hx⟩
  have hdisjoint : ∀ x ∈ (e.segs m1).docPtrs, x ∉ (e.segs m2).docPtrs := fun x hx1 hx2 =>
    h.disjoint m1 hsrc.mem1 m2 hsrc.mem2 hsrc.ne (hrep1.mem_docPtrs.mp hx1)
      (hrep2.mem_docPtrs.mp hx2)
  refine ⟨hledger.nodup, hledger.added, fun x hx p hp => ?_, fun _ => ⟨?_, fun x hx => ?_⟩,
    fun _ x hx => ⟨?_, fun n hn => ?_⟩, fun hs => absurd hs (by simp [view, migrated])⟩
  · show x ∉ ((e.migrated s).segs p).docPtrs
    rw [h.migrated_segs hp]
    exact hledger.unlisted x hx p hp
  · show s.2.2.Nodup
    rw [haside]
    refine List.Nodup.append (hrep1.walk.nodup_iff.mpr hrep1.nodup)
      ((hrep2.walk.nodup_iff.mpr hrep2.nodup).filter _) fun x hx1 hx2 => ?_
    exact hdisjoint x hx1 (List.mem_filter.mp hx2).1
  · obtain ⟨p, hp, -, hmem⟩ := hin x hx
    exact ⟨fun hfreed => hledger.unlisted x hfreed p hp hmem,
      h.added p hp x ((h.mem_docPtrs hp).mp hmem)⟩
  · obtain ⟨p, hp, hor, hmem⟩ := hin x hx
    refine ⟨p, ?_, ?_⟩
    · rcases hor with rfl | rfl
      · exact .inl hsrc.mseg1
      · exact .inr hsrc.mseg2
    · show x ∈ ((e.migrated s).segs p).docPtrs
      rwa [h.migrated_segs hp]
  · -- what is copied is live in the second source, and so not set aside
    obtain rfl : e.nextSeg = n := Option.some.inj hn
    show x ∉ ((e.migrated s).segs e.nextSeg).docPtrs
    rw [migrated_segs_nextSeg, hcopied.sound.mem_docPtrs, List.nil_append, Segment.mem_livePtrs]
    rintro ⟨hx2, hlive⟩
    have hx : x ∈ s.2.2 := hx
    rw [haside, List.mem_append, List.mem_filter] at hx
    rcases hx with hx1 | ⟨-, hdel⟩
    · exact hdisjoint x hx1 hx2
    · rw [hlive] at hdel
      exact absurd hdel (by simp)

/-- **The account is kept** in every reachable state. -/
lemma ledger_of_run (hcap : 1 ≤ cap) (hrun : (engineSystem (List SegPtr) cap heap).Run l e) :
    Ledger (actions l) e.view e.merger.deleted e.freedDocs := by
  refine System.Run.invariant (fun l e => Ledger (actions l) e.view e.merger.deleted e.freedDocs)
    ?_ (fun {l s a s'} hrun ih hen hexec => ?_) hrun
  · exact ⟨List.nodup_nil, by simp [engineSystem, new], by simp [engineSystem, new],
      by simp [engineSystem, new, view, Merger.new], by simp [engineSystem, new, view, Merger.new],
      by simp [engineSystem, new, view, Merger.new]⟩
  · obtain ⟨log, hinv⟩ := inv_of_run hcap hrun
    have hstep := hinv.step hcap hen hexec
    have hfresh : ∀ d, a = .add d → .add d ∉ actions l := by
      rintro d rfl
      exact hen.2.1
    have hkeep := fun ha => ih.step hstep hinv.separate hfresh ha
    by_cases hmigrate : a = .procMigrate ∧ s.merger.mergeStage = 1
    · obtain ⟨rfl, hstage⟩ := hmigrate
      exact (hinv.ledger_migrate ih hstage hexec).cons _
    have hkeep := hkeep fun ha hstage => hmigrate ⟨ha, hstage⟩
    by_cases hrelease : a = .procRelease
    · subst hrelease
      obtain ⟨hdel, hfreed | ⟨hstage, hstage', hfreed⟩⟩ := hinv.lists_release hexec
      · rw [hdel, hfreed]
        exact hkeep
      · rw [hdel, hfreed]
        exact (ih.release hstage hstep (by simp only [view]; omega)).cons _
    by_cases hreset : a = .procReset
    · subst hreset
      obtain rfl := Except.ok.inj hexec
      by_cases hstage : s.merger.mergeStage = 6
      · have heq : s.mergeProcReset =
            { s with merger := { s.merger with deleted := [], mergeStage := 0 } } :=
          if_neg (by simpa using hstage)
        rw [heq] at hkeep ⊢
        exact hkeep.of_stage (by simp [view])
      · rw [show s.mergeProcReset = s from if_pos hstage] at hkeep ⊢
        exact hkeep
    · obtain ⟨hdel, hfreed⟩ := hinv.lists_exec hcap hen hexec (fun ha hstage =>
        hmigrate ⟨ha, hstage⟩) hrelease hreset
      rw [hdel, hfreed]
      exact hkeep

end Engine

end TsEngine
