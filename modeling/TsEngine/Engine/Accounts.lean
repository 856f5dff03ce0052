import TsEngine.Engine.LookupSafety

/-!
# Nothing leaks

Each segment that has been allocated, and each document that has been added, is in one of three
hands: it is listed, or the merger keeps it until the merge is over, or it has been freed.
`Ledger` says that no document is in the last two at once; this file says that none is in no hand
at all (`Tally`, `SegsKept`), and that the same holds of segments.

A migration divides the documents of its sources between the new segment and those set aside
(`Tally.split`), and this is what the replace handler relies on when it unlinks the sources.
-/

namespace TsEngine

open Framework

/-- Every document added is listed, set aside, or freed. -/
structure Tally (as : List Action) (v : View) (deleted freed : List DocPtr) : Prop where
  kept : ∀ x, .add x ∈ as →
    (∃ p ∈ v.listed, x ∈ v.holds p) ∨ v.stage = 3 ∧ x ∈ deleted ∨ x ∈ freed
  split : v.stage = 2 → ∀ p ∈ v.sources, ∀ x ∈ v.holds p,
    (∃ n, v.newseg = some n ∧ x ∈ v.holds n) ∨ x ∈ deleted

namespace Tally

variable {pk : DocPtr → ℕ} {as : List Action} {a : Action} {v v' : View}
  {deleted deleted' freed : List DocPtr}

/-- What is set aside counts at stages 2 and 3 only. -/
lemma of_stage (h : Tally as v deleted freed) (hstage : v.stage ≠ 2 ∧ v.stage ≠ 3) :
    Tally as v deleted' freed where
  kept x hx := (h.kept x hx).imp id (Or.imp (fun hs => absurd hs.1 hstage.2) id)
  split hs := absurd hs hstage.1

/-- An action that adds nothing. -/
lemma cons (h : Tally as v deleted freed) (ha : ∀ d, a ≠ .add d) :
    Tally (a :: as) v deleted freed :=
  { h with
    kept := fun x hx => h.kept x ((List.mem_cons.mp hx).resolve_left fun he => ha x he.symm) }

/-- The release of what was set aside. -/
lemma release (h : Tally as v deleted freed)
    (hstep : View.Step pk .procRelease v v') (hstage' : v'.stage ≠ 2) :
    Tally as v' deleted (deleted.reverse ++ freed) := by
  obtain ⟨hlisted, hholds⟩ : v'.listed = v.listed ∧ v'.holds = v.holds := by
    cases hstep
    exact ⟨rfl, rfl⟩
  refine ⟨fun x hx => ?_, fun hs => absurd hs hstage'⟩
  rw [hlisted, hholds]
  rcases h.kept x hx with hlist | ⟨-, hdel⟩ | hfreed
  · exact .inl hlist
  · exact .inr (.inr (List.mem_append_left _ (List.mem_reverse.mpr hdel)))
  · exact .inr (.inr (List.mem_append_right _ hfreed))

/-- **A step that neither sets aside nor frees** keeps the account complete. -/
lemma step (h : Tally as v deleted freed) (hstep : View.Step pk a v v')
    (hstay : v.stage = 3 → v'.stage = 3) (ha : a = .procMigrate → v.stage ≠ 1) :
    Tally (a :: as) v' deleted freed := by
  cases hstep with
  | @neutral _ _ stage' sources' hna hmove hsources hdiscard =>
      have hcons := h.cons (a := a) fun d he => hna (he ▸ trivial)
      refine ⟨fun x hx => (hcons.kept x hx).imp id (Or.imp (And.imp_left hstay) id), fun hs => ?_⟩
      have hv : v.stage = 2 := (hmove.eq_of_waiting (.inl hs)).trans hs
      show ∀ p ∈ sources', _
      rw [hsources (.inr hv)]
      exact h.split hv
  | @remove k _ _ hrem hunlisted =>
      have hcons := h.cons (a := .remove k) fun d he => by cases he
      exact ⟨hcons.kept, h.split⟩
  | @add d _ active holds' deleted' hrem hnot hactive hholds hnew hsource hmerged =>
      refine ⟨fun x hx => ?_, fun hs p hp x hx => ?_⟩
      · rcases List.mem_cons.mp hx with he | hx
        · cases he
          exact .inl ⟨active, .inr rfl, (hactive _).mpr (.inr rfl)⟩
        · refine (h.kept x hx).imp (fun ⟨p, hp, hmem⟩ => ⟨p, .inl hp, ?_⟩) id
          exact (View.mem_holds_add hactive hholds (.inl hp)).mpr (.inl ⟨hp, hmem⟩)
      · -- neither a source nor the new segment is the active one
        have hs : v.stage = 2 := hs
        have hx : x ∈ holds' p := hx
        rw [hholds p fun he => hsource (.inr hs) (he ▸ hp)] at hx
        refine (h.split hs p hp x hx).imp (fun ⟨n, hn, hmem⟩ => ⟨n, hn, ?_⟩) id
        show x ∈ holds' n
        rwa [hholds n fun he => hmerged (by omega) (by omega) (he ▸ hn)]
  | migrate hstage => exact absurd hstage (ha rfl)
  | @replace _ n hstage hnewseg hn hclean =>
      have hcons := h.cons (a := .replaceSegs) fun d he => by cases he
      refine ⟨fun x hx => ?_, fun hs => absurd hs (by simp)⟩
      rcases hcons.kept x hx with ⟨p, hp, hmem⟩ | ⟨h3, -⟩ | hfreed
      · by_cases hsource : p ∈ v.sources
        · rcases h.split hstage p hsource x hmem with ⟨n', hn', hmem'⟩ | hdel
          · obtain rfl : n = n' := Option.some.inj (hnewseg.symm.trans hn')
            exact .inl ⟨n, .inr ⟨rfl, x, hmem'⟩, hmem'⟩
          · exact .inr (.inl ⟨rfl, hdel⟩)
        · exact .inl ⟨p, .inl ⟨hp, hsource⟩, hmem⟩
      · omega
      · exact .inr (.inr hfreed)
  | redelete hstage =>
      have hcons := h.cons (a := .redelete) fun d he => by cases he
      refine ⟨fun x hx => (hcons.kept x hx).imp id (Or.imp (fun h3 => ?_) id),
        fun hs => absurd hs (by simp)⟩
      omega

end Tally

namespace Engine

variable {cap : ℕ} {heap : DocHeap} {as : List Action} {l : List (ListEngine × Action)}
  {e e' : ListEngine} {log : SegPtr → List DocPtr} {p : SegPtr} {x : DocPtr}

/-! ## Documents along a run -/

/-- Only the release leaves stage 3. -/
lemma Inv.stage_stays (h : Inv cap heap as e log) (hcap : 1 ≤ cap) {a : Action}
    (hen : a.Enabled cap as e) (hexec : Engine.exec cap a e = .ok e') (ha : a ≠ .procRelease)
    (hstage : e.merger.mergeStage = 3) : e'.merger.mergeStage = 3 :=
  (h.aside hcap hstage hen hexec ha).stage.trans hstage

/-- The migration divides the documents of its sources. -/
lemma Inv.tally_migrate (h : Inv cap heap as e log)
    (htally : Tally as e.view e.merger.deleted e.freedDocs)
    (hstage : e.merger.mergeStage = 1) (hexec : e.mergeProcMigrate = .ok e') :
    Tally as e'.view e'.merger.deleted e'.freedDocs := by
  obtain ⟨m1, m2, s, hsrc, hcopied, haside, heq⟩ := h.mergeProcMigrate_eq hstage
  obtain rfl := Except.ok.inj (heq.symm.trans hexec)
  refine ⟨fun x hx => ?_, fun _ q hq x hx => ?_⟩
  · rcases htally.kept x hx with ⟨p, hp, hmem⟩ | ⟨h3, -⟩ | hfreed
    · refine .inl ⟨p, hp, ?_⟩
      show x ∈ ((e.migrated s).segs p).docPtrs
      rwa [h.migrated_segs hp]
    · have h3 : e.merger.mergeStage = 3 := h3
      omega
    · exact .inr (.inr hfreed)
  · have hmem : x ∈ (e.segs q).docPtrs := by
      have hx : x ∈ ((e.migrated s).segs q).docPtrs := hx
      rwa [h.migrated_segs (hsrc.mem hq)] at hx
    show (∃ n, some e.nextSeg = some n ∧ x ∈ ((e.migrated s).segs n).docPtrs) ∨ x ∈ s.2.2
    rw [haside, List.mem_append, List.mem_filter]
    rcases hsrc.eq_or_eq hq with rfl | rfl
    · exact .inr (.inl hmem)
    · by_cases hdel : (e.segs q).isDeleted e.docs x = true
      · exact .inr (.inr ⟨hmem, hdel⟩)
      · refine .inl ⟨e.nextSeg, rfl, ?_⟩
        rw [migrated_segs_nextSeg, hcopied.sound.mem_docPtrs, List.nil_append,
          Segment.mem_livePtrs]
        exact ⟨hmem, by simpa using hdel⟩

/-- The parts of a release at stage 3: the two sources, and the rest once both are gone. -/
lemma Inv.release_parts (h : Inv cap heap as e log) (hstage : e.merger.mergeStage = 3)
    (hexec : e.mergeProcRelease = .ok e') : ∃ e₁ e₂, e.releaseMseg1 = .ok e₁ ∧
      e₁.releaseMseg2 = .ok e₂ ∧ Inv cap heap as e₁ log ∧ Inv cap heap as e₂ log ∧
      e₁.merger.mergeStage = 3 ∧ e₂.merger.mergeStage = 3 ∧
      (e' = e₂ ∨ e₂.merger.mseg1 = none ∧ e₂.merger.mseg2 = none ∧
        e₂.releaseDocuments = .ok e') := by
  unfold Engine.mergeProcRelease at hexec
  rw [if_neg (by simpa using hstage)] at hexec
  obtain ⟨e₁, h1, hexec⟩ := bind_eq_ok.mp hexec
  obtain ⟨e₂, h2, hexec⟩ := bind_eq_ok.mp hexec
  obtain ⟨hinv₁, hstage₁⟩ := h.releaseMseg1 hstage h1
  obtain ⟨hinv₂, hstage₂⟩ := hinv₁.releaseMseg2 hstage₁ h2
  refine ⟨e₁, e₂, h1, h2, hinv₁, hinv₂, hstage₁, hstage₂, ?_⟩
  split_ifs at hexec with hnone
  · exact .inr ⟨hnone.1, hnone.2, hexec⟩
  · exact .inl (Except.ok.inj hexec).symm

/-- A release frees what is set aside when it leaves stage 3, and nothing before. -/
lemma Inv.tally_release (h : Inv cap heap as e log) (hcap : 1 ≤ cap)
    (htally : Tally as e.view e.merger.deleted e.freedDocs)
    (hexec : e.mergeProcRelease = .ok e') :
    Tally as e'.view e'.merger.deleted e'.freedDocs := by
  have hstep : View.Step (pkOf heap) .procRelease e.view e'.view := h.step hcap trivial hexec
  by_cases hstage : e.merger.mergeStage = 3
  swap
  · rw [Engine.mergeProcRelease, if_pos hstage] at hexec
    exact Except.ok.inj hexec ▸ htally
  obtain ⟨e₁, e₂, h1, h2, -, hinv₂, -, hstage₂, hlast⟩ := h.release_parts hstage hexec
  obtain ⟨-, -, hdel₁, hfreed₁⟩ := frame_releaseMseg1 h1
  obtain ⟨-, -, hdel₂, hfreed₂⟩ := frame_releaseMseg2 h2
  rcases hlast with rfl | ⟨-, -, hlast⟩
  · rw [hdel₂.trans hdel₁, hfreed₂.trans hfreed₁]
    have hkeep := htally.step hstep (fun _ => hstage₂) fun he => by cases he
    exact { hkeep with kept := fun x hx => hkeep.kept x (List.mem_cons_of_mem _ hx) }
  · obtain ⟨n, -, -, heq⟩ := hinv₂.releaseDocuments_spec hstage₂
    rw [heq] at hlast
    have hfreed : e'.freedDocs = e.merger.deleted.reverse ++ e.freedDocs ∧
        e'.merger.deleted = e.merger.deleted ∧ e'.merger.mergeStage ≠ 2 := by
      rw [← hdel₁, ← hdel₂, ← hfreed₁, ← hfreed₂]
      split_ifs at hlast
      · exact Except.ok.inj hlast ▸ ⟨rfl, rfl, by simp [setStage]⟩
      · exact Except.ok.inj hlast ▸ ⟨rfl, rfl, by simp [setStage]⟩
    rw [hfreed.1, hfreed.2.1]
    exact htally.release hstep hfreed.2.2

/-- **The account is complete** in every reachable state. -/
lemma tally_of_run (hcap : 1 ≤ cap) (hrun : (engineSystem (List SegPtr) cap heap).Run l e) :
    Tally (actions l) e.view e.merger.deleted e.freedDocs := by
  refine System.Run.invariant (fun l e => Tally (actions l) e.view e.merger.deleted e.freedDocs)
    ?_ (fun {l s a s'} hrun ih hen hexec => ?_) hrun
  · exact ⟨by simp [actions], by simp [engineSystem, new, view, Merger.new]⟩
  · obtain ⟨log, hinv⟩ := inv_of_run hcap hrun
    have hstep := hinv.step hcap hen hexec
    by_cases hmigrate : a = .procMigrate ∧ s.merger.mergeStage = 1
    · obtain ⟨rfl, hstage⟩ := hmigrate
      exact (hinv.tally_migrate ih hstage hexec).cons fun d he => by cases he
    by_cases hrelease : a = .procRelease
    · subst hrelease
      exact (hinv.tally_release hcap ih hexec).cons fun d he => by cases he
    have hkeep := ih.step hstep (hinv.stage_stays hcap hen hexec hrelease)
      fun ha hstage => hmigrate ⟨ha, hstage⟩
    by_cases hreset : a = .procReset
    · subst hreset
      obtain rfl := Except.ok.inj hexec
      by_cases hstage : s.merger.mergeStage = 6
      · have heq : s.mergeProcReset =
            { s with merger := { s.merger with deleted := [], mergeStage := 0 } } :=
          if_neg (by simpa using hstage)
        rw [heq] at hkeep ⊢
        exact hkeep.of_stage (by simp [view])
      · rw [show s.mergeProcReset = s from if_pos hstage] at hkeep ⊢
        exact hkeep
    · obtain ⟨hdel, hfreed⟩ := hinv.lists_exec hcap hen hexec (fun ha hstage =>
        hmigrate ⟨ha, hstage⟩) hrelease hreset
      rw [hdel, hfreed]
      exact hkeep

/-! ## Segments -/

/-- Only the merger knows the segment: it is the new one before it is linked, or a source between
its replacement and its release. -/
def HeldByMerger (e : ListEngine) (p : SegPtr) : Prop :=
  (e.merger.mergeStage = 2 ∨ e.merger.mergeStage = 3) ∧ e.merger.newseg = some p ∧
      p ∉ e.segments ∨ e.Detached p

/-- Every segment allocated is listed, held by the merger, or freed; and none is freed twice. -/
structure SegsKept (e : ListEngine) : Prop where
  nodup : e.freedSegs.Nodup
  kept : ∀ p < e.nextSeg, p ∈ e.segments ∨ e.HeldByMerger p ∨ p ∈ e.freedSegs

namespace SegsKept

/-- The merger holds nothing outside stages 2 and 3. -/
lemma not_held (hstage : e.merger.mergeStage ≠ 2 ∧ e.merger.mergeStage ≠ 3) :
    ¬e.HeldByMerger p := by
  rintro (⟨h2 | h3, -⟩ | ⟨h3, -⟩)
  · exact hstage.1 h2
  · exact hstage.2 h3
  · exact hstage.2 h3

/-- A step that leaves the segments where they are. -/
lemma same (h : SegsKept e) (hsegments : e'.segments = e.segments)
    (hfreed : e'.freedSegs = e.freedSegs) (hnext : e'.nextSeg = e.nextSeg)
    (hheld : ∀ p, e.HeldByMerger p → e'.HeldByMerger p) : SegsKept e' where
  nodup := hfreed ▸ h.nodup
  kept p hp := by
    rw [hsegments, hfreed]
    exact (h.kept p (hnext ▸ hp)).imp id (Or.imp (hheld p) id)

/-- A step that leaves the merger's pointers alone. -/
lemma held_of_eq (hmerger : e'.merger.mergeStage = e.merger.mergeStage ∧
      e'.merger.newseg = e.merger.newseg ∧ e'.merger.sources = e.merger.sources)
    (hmem : p ∈ e'.segments ↔ p ∈ e.segments) (h : e.HeldByMerger p) : e'.HeldByMerger p := by
  unfold HeldByMerger Detached at h ⊢
  rwa [hmerger.1, hmerger.2.1, hmerger.2.2, hmem]

/-- **One of the two sources** is freed, or left for later. -/
lemma releaseSource {source : Merger → Option SegPtr} {forget : Merger → Merger}
    (h : SegsKept e) (hstage : e.merger.mergeStage = 3)
    (hforget : (forget e.merger).mergeStage = 3 ∧ (forget e.merger).newseg = e.merger.newseg)
    (hsources : ∀ q ∈ e.merger.sources, source e.merger = some q ∨ q ∈ (forget e.merger).sources)
    (hexec : e.releaseSource source forget = .ok e') : SegsKept e' := by
  obtain ⟨m, hm, hfreed, ⟨-, rfl⟩ | ⟨-, rfl⟩⟩ := releaseSource_cases hexec
  · exact h
  · refine ⟨List.nodup_cons.mpr ⟨hfreed, h.nodup⟩, fun p hp => ?_⟩
    rcases h.kept p hp with hlist | (⟨-, hnew, hnot⟩ | ⟨-, hq⟩) | hp
    · exact .inl hlist
    · exact .inr (.inl (.inl ⟨.inr hforget.1, hforget.2.trans hnew, hnot⟩))
    · rcases hsources p hq with hsource | hq
      · obtain rfl : m = p := Option.some.inj (hm.symm.trans hsource)
        exact .inr (.inr List.mem_cons_self)
      · exact .inr (.inl (.inr ⟨hforget.1, hq⟩))
    · exact .inr (.inr (List.mem_cons_of_mem _ hp))

/-- **The release.** -/
lemma release (h : SegsKept e) (hinv : Inv cap heap as e log)
    (hexec : e.mergeProcRelease = .ok e') : SegsKept e' := by
  by_cases hstage : e.merger.mergeStage = 3
  swap
  · rw [Engine.mergeProcRelease, if_pos hstage] at hexec
    exact Except.ok.inj hexec ▸ h
  obtain ⟨e₁, e₂, h1, h2, -, hinv₂, hstage₁, hstage₂, hlast⟩ := hinv.release_parts hstage hexec
  have hkept₁ : SegsKept e₁ := by
    refine h.releaseSource hstage ⟨hstage, rfl⟩ (fun q hq => ?_) h1
    exact (mem_sources.mp hq).imp id fun hq => mem_sources.mpr (.inr hq)
  have hkept₂ : SegsKept e₂ := by
    refine hkept₁.releaseSource hstage₁ ⟨hstage₁, rfl⟩ (fun q hq => ?_) h2
    exact (mem_sources.mp hq).symm.imp id fun hq => mem_sources.mpr (.inl hq)
  rcases hlast with rfl | ⟨hnone1, hnone2, hlast⟩
  · exact hkept₂
  -- the sources are gone, and the new segment is listed or freed
  obtain ⟨n, hnew, -, heq⟩ := hinv₂.releaseDocuments_spec hstage₂
  have hheld : ∀ p, e₂.HeldByMerger p → p = n ∧ n ∉ e₂.segments := by
    rintro p (⟨-, hp, hnot⟩ | ⟨-, hp⟩)
    · obtain rfl : n = p := Option.some.inj (hnew.newseg.symm.trans hp)
      exact ⟨rfl, hnot⟩
    · simp [mem_sources, hnone1, hnone2] at hp
  rw [heq] at hlast
  split_ifs at hlast with hpos
  · obtain rfl := Except.ok.inj hlast
    refine ⟨hkept₂.nodup, fun p hp => (hkept₂.kept p hp).imp id (Or.imp (fun hheldp => ?_) id)⟩
    exact absurd (hnew.mem_iff.mpr hpos.ne') (hheld p hheldp).2
  · obtain rfl := Except.ok.inj hlast
    refine ⟨List.nodup_cons.mpr ⟨hnew.notFreed, hkept₂.nodup⟩, fun p hp => ?_⟩
    rcases hkept₂.kept p hp with hlist | hheldp | hfreed
    · exact .inl hlist
    · exact .inr (.inr ((hheld p hheldp).1 ▸ List.mem_cons_self))
    · exact .inr (.inr (List.mem_cons_of_mem _ hfreed))

/-- **The replace handler** turns the sources over to the merger, and takes the new segment from
it. -/
lemma replace (h : SegsKept e) (hinv : Inv cap heap as e log) (hqueue : .replace ∈ e.inputQueue)
    (hexec : Engine.exec cap .replaceSegs e = .ok e') : SegsKept e' := by
  obtain ⟨m1, m2, n, hstage, hsrc, hnew, heq⟩ := hinv.replaceSegs_spec hqueue
  obtain rfl := Except.ok.inj (heq.symm.trans hexec)
  refine ⟨h.nodup, fun p hp => ?_⟩
  rcases h.kept p hp with hlist | (⟨-, hp, hnot⟩ | ⟨h3, -⟩) | hfreed
  · by_cases hsource : p = m1 ∨ p = m2
    · refine .inr (.inl (.inr ⟨rfl, mem_sources.mpr ?_⟩))
      rcases hsource with rfl | rfl
      · exact .inl hsrc.mseg1
      · exact .inr hsrc.mseg2
    · exact .inl (hinv.mem_replacedSegments.mpr (.inr ⟨hlist, not_or.mp hsource⟩))
  · by_cases hmem : p ∈ (e.replaced m1 m2 n).segments
    · exact .inl hmem
    · exact .inr (.inl (.inl ⟨.inr rfl, hp, hmem⟩))
  · omega
  · exact .inr (.inr hfreed)

/-- What an addition allocates is listed. -/
lemma mem_of_add (h : Inv cap heap as e log) (hcap : 1 ≤ cap) {d : DocPtr}
    (hlt : p < (e.addDocumentHandler cap d).nextSeg) (hnew : e.nextSeg ≤ p) :
    p ∈ (e.addDocumentHandler cap d).segments := by
  obtain ⟨log₁, h₁, -⟩ := h.rollOver hcap
  unfold Engine.addDocumentHandler at hlt ⊢
  dsimp only at hlt ⊢
  rw [removeFromAll_list h₁.nodup] at hlt ⊢
  have hlt : p < (e.rollOver cap).nextSeg := hlt
  show p ∈ (e.rollOver cap).segments
  by_cases hfull : cap ≤ (e.segs e.segmentActive).numTotalDocs
  · rw [rollOver_of_le hfull (h.lt _ h.active)] at hlt ⊢
    exact mem_rolledOver_segments.mpr (.inl (Nat.le_antisymm (Nat.lt_succ_iff.mp hlt) hnew))
  · rw [rollOver_of_lt (by omega)] at hlt
    exact absurd hlt (Nat.not_lt.mpr hnew)

/-- **One step.** -/
lemma step (h : SegsKept e) (hinv : Inv cap heap as e log) (hcap : 1 ≤ cap) {a : Action}
    (hen : a.Enabled cap as e) (hexec : Engine.exec cap a e = .ok e') : SegsKept e' := by
  cases a with
  | add d =>
      obtain rfl := Except.ok.inj hexec
      have haside := aside_add hinv hcap d
      have hsources : (e.addDocumentHandler cap d).merger.sources = e.merger.sources := by
        rw [Merger.sources, Merger.sources, haside.mseg1, haside.mseg2]
      refine ⟨haside.freedSegs ▸ h.nodup, fun p hp => ?_⟩
      rw [haside.freedSegs]
      by_cases hold : p < e.nextSeg
      · refine (h.kept p hold).imp (haside.mem p hold).mpr (Or.imp (fun hheld => ?_) id)
        exact held_of_eq ⟨haside.stage, haside.newseg, hsources⟩ (haside.mem p hold) hheld
      · exact .inl (mem_of_add hinv hcap hp (Nat.not_lt.mp hold))
  | remove k =>
      obtain rfl := Except.ok.inj hexec
      have haside := aside_remove hinv k
      have hsame : (e.removeDocumentHandler k).segments = e.segments ∧
          (e.removeDocumentHandler k).nextSeg = e.nextSeg := by
        unfold Engine.removeDocumentHandler
        rw [removeFromAll_list hinv.nodup]
        dsimp only
        split_ifs <;> exact ⟨rfl, rfl⟩
      refine h.same hsame.1 haside.freedSegs hsame.2 fun p hp =>
        held_of_eq ⟨haside.stage, haside.newseg, ?_⟩ (by rw [hsame.1]) hp
      rw [Merger.sources, Merger.sources, haside.mseg1, haside.mseg2]
  | replaceSegs => exact h.replace hinv hen hexec
  | redelete =>
      obtain ⟨n, hstage, -, -, heq⟩ := hinv.redelete_spec hen
      obtain rfl := Except.ok.inj (heq.symm.trans hexec)
      exact h.same rfl rfl rfl fun p hp => absurd hp (not_held (by omega))
  | procCheck =>
      have hexec : e.mergeProcCheck = .ok e' := hexec
      unfold Engine.mergeProcCheck at hexec
      split_ifs at hexec with hstage
      · exact Except.ok.inj hexec ▸ h
      obtain ⟨r, -, hexec⟩ := bind_eq_ok.mp hexec
      cases r with
      | none => exact Except.ok.inj hexec ▸ h
      | some ms =>
          obtain rfl := Except.ok.inj hexec
          exact h.same rfl rfl rfl fun p hp => absurd hp (not_held (by omega))
  | procMigrate =>
      by_cases hstage : e.merger.mergeStage = 1
      swap
      · obtain rfl := Except.ok.inj ((if_pos hstage).symm.trans hexec)
        exact h
      obtain ⟨m1, m2, s, hsrc, -, -, heq⟩ := hinv.mergeProcMigrate_eq hstage
      obtain rfl := Except.ok.inj (heq.symm.trans hexec)
      refine ⟨h.nodup, fun p hp => ?_⟩
      rcases Nat.lt_succ_iff_lt_or_eq.mp hp with hp | rfl
      · exact (h.kept p hp).imp id (Or.imp (fun hp => absurd hp (not_held (by omega))) id)
      · refine .inr (.inl (.inl ⟨.inl rfl, rfl, fun hmem => ?_⟩))
        exact lt_irrefl _ (hinv.lt _ hmem)
  | procRelease => exact h.release hinv hexec
  | procRedelete =>
      obtain rfl := Except.ok.inj hexec
      unfold mergeProcRedelete
      split_ifs with hstage
      · exact h
      · exact h.same rfl rfl rfl fun p hp => absurd hp (not_held (by omega))
  | procReset =>
      obtain rfl := Except.ok.inj hexec
      unfold mergeProcReset
      split_ifs with hstage
      · exact h
      · exact h.same rfl rfl rfl fun p hp => absurd hp (not_held (by omega))
  | lookupEnter seg => exact Except.ok.inj hexec ▸ h.same rfl rfl rfl fun p hp => hp
  | lookupLeave seg => exact Except.ok.inj hexec ▸ h.same rfl rfl rfl fun p hp => hp

end SegsKept

/-- **Every run.** -/
lemma segsKept_of_run (hcap : 1 ≤ cap) (hrun : (engineSystem (List SegPtr) cap heap).Run l e) :
    SegsKept e := by
  refine System.Run.invariant (fun _ e => SegsKept e) ⟨List.nodup_nil, fun p hp => ?_⟩
    (fun {l s a s'} hrun ih hen hexec => ?_) hrun
  · exact .inl (List.mem_singleton.mpr (Nat.lt_one_iff.mp hp))
  · obtain ⟨log, hinv⟩ := inv_of_run hcap hrun
    exact ih.step hinv hcap hen hexec

/-! ## The accounts -/

/-- Whose hands something is in. -/
inductive Keeper
  | list
  | merger
  | freed
  deriving DecidableEq

/-- Who has a segment. -/
def KeepsSeg (e : ListEngine) (p : SegPtr) : Keeper → Prop
  | .list => p ∈ e.segments
  | .merger => e.HeldByMerger p
  | .freed => p ∈ e.freedSegs

/-- Who has a document: a segment that is listed, the merger, which has set it aside and unlinked
its segment, or nobody any more. -/
def KeepsDoc (e : ListEngine) (x : DocPtr) : Keeper → Prop
  | .list => ∃ p ∈ e.segments, x ∈ (e.segs p).docPtrs
  | .merger => e.merger.mergeStage = 3 ∧ x ∈ e.merger.deleted
  | .freed => x ∈ e.freedDocs

/-- Three exclusive cases, one of which holds. -/
lemma existsUnique_keeper {P : Keeper → Prop} (hsome : P .list ∨ P .merger ∨ P .freed)
    (hlist : P .list → ¬P .merger ∧ ¬P .freed) (hmerger : P .merger → ¬P .freed) : ∃! k, P k := by
  rcases hsome with h | h | h
  · refine ⟨.list, h, fun k hk => ?_⟩
    cases k with
    | list => rfl
    | merger => exact absurd hk (hlist h).1
    | freed => exact absurd hk (hlist h).2
  · refine ⟨.merger, h, fun k hk => ?_⟩
    cases k with
    | list => exact absurd h (hlist hk).1
    | merger => rfl
    | freed => exact absurd hk (hmerger h)
  · refine ⟨.freed, h, fun k hk => ?_⟩
    cases k with
    | list => exact absurd h (hlist hk).2
    | merger => exact absurd h (hmerger hk)
    | freed => rfl

/-- What the merger holds is neither listed nor freed, and has been allocated. -/
lemma Inv.held (h : Inv cap heap as e log) (hp : e.HeldByMerger p) :
    p ∉ e.segments ∧ p ∉ e.freedSegs ∧ p < e.nextSeg := by
  rcases hp with ⟨hstage, hnew, hnot⟩ | hp
  · refine ⟨hnot, ?_⟩
    cases h.phase with
    | migrated m1 m2 n _ _ _ hn =>
        obtain rfl : n = p := Option.some.inj (hn.newseg.symm.trans hnew)
        exact ⟨hn.notFreed, hn.lt⟩
    | replaced n _ _ hn _ =>
        obtain rfl : n = p := Option.some.inj (hn.newseg.symm.trans hnew)
        exact ⟨hn.notFreed, hn.lt⟩
    | _ => omega
  · obtain ⟨hnot, hlt, hfreed⟩ := h.unlisted hp
    exact ⟨hnot, hfreed, hlt⟩

/-- The document that an action adds. -/
def added? : Action → Option DocPtr
  | .add d => some d
  | .remove _ | .replaceSegs | .redelete | .procCheck | .procMigrate | .procRelease
  | .procRedelete | .procReset | .lookupEnter _ | .lookupLeave _ => none

lemma mem_added {as : List Action} : x ∈ as.filterMap added? ↔ .add x ∈ as := by
  rw [List.mem_filterMap]
  constructor
  · rintro ⟨a, ha, hx⟩
    cases a with
    | add d => exact Option.some.inj hx ▸ ha
    | _ => cases hx
  · exact fun hx => ⟨.add x, hx, rfl⟩

/-- Each document is added once. -/
lemma nodup_added (hrun : (engineSystem (List SegPtr) cap heap).Run l e) :
    ((actions l).filterMap added?).Nodup := by
  refine System.Run.invariant (fun l _ => ((actions l).filterMap added?).Nodup) List.nodup_nil
    (fun {l s a s'} _ ih hen _ => ?_) hrun
  cases a with
  | add d => exact List.nodup_cons.mpr ⟨fun hd => hen.2.1 (mem_added.mp hd), ih⟩
  | _ => exact ih

/-- With nothing in the merger's hands, the segments listed and those freed are all there are. -/
lemma SegsKept.perm (h : SegsKept e) (hinv : Inv cap heap as e log)
    (hstage : e.merger.mergeStage ≠ 2 ∧ e.merger.mergeStage ≠ 3) :
    (e.segments ++ e.freedSegs).Perm (List.range e.nextSeg) := by
  have hnodup : (e.segments ++ e.freedSegs).Nodup :=
    hinv.toListShape.nodup.append h.nodup fun p hp hfreed => hinv.notFreed p hp hfreed
  refine (List.perm_ext_iff_of_nodup hnodup List.nodup_range).mpr fun p => ?_
  rw [List.mem_append, List.mem_range]
  refine ⟨fun hp => hp.elim (hinv.lt p) (hinv.freedLt p), fun hp => ?_⟩
  exact (h.kept p hp).imp id fun hp => hp.resolve_left (not_held hstage)

/-- A document that a listed segment records has been added. -/
lemma Inv.added_of_listed (h : Inv cap heap as e log)
    (hx : ∃ p ∈ e.segments, x ∈ (e.segs p).docPtrs) : .add x ∈ as := by
  obtain ⟨p, hp, hx⟩ := hx
  exact h.added p hp x ((h.mem_docPtrs hp).mp hx)

/-- The documents of the listed segments are all different. -/
lemma Inv.nodup_listed (h : Inv cap heap as e log) :
    (e.segments.flatMap fun p => (e.segs p).docPtrs).Nodup := by
  refine List.nodup_flatMap.mpr ⟨fun p hp => ?_, ?_⟩
  · have hrep := h.represents p hp
    exact hrep.walk.nodup_iff.mpr hrep.nodup
  · refine h.toListShape.nodup.imp_of_mem fun {p q} hp hq hne x hxp hxq => ?_
    exact h.disjoint p hp q hq hne ((h.mem_docPtrs hp).mp hxp) ((h.mem_docPtrs hq).mp hxq)

/-- With nothing in the merger's hands, the documents that the listed segments record and those
freed are all that have been added. -/
lemma docs_perm (hcap : 1 ≤ cap) (hrun : (engineSystem (List SegPtr) cap heap).Run l e)
    (hstage : e.merger.mergeStage ≠ 3) :
    ((e.segments.flatMap fun p => (e.segs p).docPtrs) ++ e.freedDocs).Perm
      ((actions l).filterMap added?) := by
  obtain ⟨log, hinv⟩ := inv_of_run hcap hrun
  have hledger := ledger_of_run hcap hrun
  have hnodup : ((e.segments.flatMap fun p => (e.segs p).docPtrs) ++ e.freedDocs).Nodup := by
    refine hinv.nodup_listed.append hledger.nodup fun x hx hfreed => ?_
    obtain ⟨p, hp, hmem⟩ := List.mem_flatMap.mp hx
    exact hledger.unlisted x hfreed p hp hmem
  refine (List.perm_ext_iff_of_nodup hnodup (nodup_added hrun)).mpr fun x => ?_
  rw [List.mem_append, List.mem_flatMap, mem_added]
  refine ⟨fun hx => hx.elim hinv.added_of_listed (hledger.added x), fun hx => ?_⟩
  exact ((tally_of_run hcap hrun).kept x hx).imp id fun hx => hx.resolve_left fun h3 => hstage h3.1

/-- **Nothing leaks, and nothing is freed twice.**  In every reachable state, each segment that has
been allocated is listed, or held by the merger, or freed, and only one of these; the same is true
of each document that has been added; and nothing else is in any of these hands.  Whenever the
merger is not between its migration and the end of its release, the segments and documents that
are listed are those that have been allocated and added, less those that have been freed. -/
theorem accounts_balance (hcap : 1 ≤ cap)
    (hrun : (engineSystem (List SegPtr) cap heap).Run l e) :
    (∀ p, (p < e.nextSeg → ∃! k, e.KeepsSeg p k) ∧ (e.nextSeg ≤ p → ∀ k, ¬e.KeepsSeg p k)) ∧
    (∀ x, (.add x ∈ actions l → ∃! k, e.KeepsDoc x k) ∧
      (.add x ∉ actions l → ∀ k, ¬e.KeepsDoc x k)) ∧
    e.freedSegs.Nodup ∧ e.freedDocs.Nodup ∧
    (e.merger.mergeStage ≠ 2 ∧ e.merger.mergeStage ≠ 3 →
      (e.segments ++ e.freedSegs).Perm (List.range e.nextSeg) ∧
      ((e.segments.flatMap fun p => (e.segs p).docPtrs) ++ e.freedDocs).Perm
        ((actions l).filterMap added?)) := by
  obtain ⟨log, hinv⟩ := inv_of_run hcap hrun
  have hkept := segsKept_of_run hcap hrun
  have hledger := ledger_of_run hcap hrun
  have hwait := fun h3 => hledger.waiting (.inr h3)
  refine ⟨fun p => ⟨fun hp => ?_, fun hp k hk => ?_⟩, fun x => ⟨fun hx => ?_, fun hx k hk => ?_⟩,
    hkept.nodup, hledger.nodup, fun hstage =>
      ⟨hkept.perm hinv hstage, docs_perm hcap hrun hstage.2⟩⟩
  · refine existsUnique_keeper (P := e.KeepsSeg p) (hkept.kept p hp) (fun hlist => ⟨fun hheld => ?_,
      hinv.notFreed p hlist⟩) fun hheld => (hinv.held hheld).2.1
    exact (hinv.held hheld).1 hlist
  · refine absurd hp (Nat.not_le.mpr ?_)
    cases k with
    | list => exact hinv.lt p hk
    | merger => exact (hinv.held hk).2.2
    | freed => exact hinv.freedLt p hk
  · refine existsUnique_keeper (P := e.KeepsDoc x) ((tally_of_run hcap hrun).kept x hx) ?_ ?_
    · rintro ⟨p, hp, hmem⟩
      exact ⟨fun ⟨h3, hdel⟩ => hledger.replaced h3 x hdel p hp hmem,
        fun hfreed => hledger.unlisted x hfreed p hp hmem⟩
    · exact fun ⟨h3, hdel⟩ => ((hwait h3).2 x hdel).1
  · refine hx ?_
    cases k with
    | list => exact hinv.added_of_listed hk
    | merger => exact ((hwait hk.1).2 x hk.2).2
    | freed => exact hledger.added x hk

/-- After a whole merge cycle, in which three documents are freed with the two sources. -/
theorem accounts_balance_sample :
    ∃ l, ∃ e : ListEngine, (engineSystem (List SegPtr) 2 sampleHeap).Run l e ∧
      e.merger.mergeStage = 0 ∧ e.freedSegs = [1, 0] ∧
      (e.segments ++ e.freedSegs).Perm (List.range e.nextSeg) ∧
      ((e.segments.flatMap fun p => (e.segs p).docPtrs) ++ e.freedDocs).Perm [5, 4, 3, 2, 1] := by
  obtain ⟨l, e, hrun, htest⟩ := System.exists_run_of_execAll
    (M := engineSystem (List SegPtr) 2 sampleHeap)
    (fun l e => decide (e.merger.mergeStage = 0 ∧ e.freedSegs = [1, 0] ∧
      (actions l).filterMap added? = [5, 4, 3, 2, 1]))
    [.add 1, .add 2, .add 3, .add 4, .add 5, .remove 1, .remove 2, .remove 3, .procCheck,
      .procMigrate, .replaceSegs, .procRelease, .procRedelete, .redelete, .procReset]
    (by decide +kernel)
  obtain ⟨hstage, hfreed, hadded⟩ := of_decide_eq_true htest
  obtain ⟨-, -, -, -, hperm⟩ := accounts_balance (by norm_num) hrun
  obtain ⟨hsegs, hdocs⟩ := hperm (by omega)
  exact ⟨l, e, hrun, hstage, hfreed, hsegs, hadded ▸ hdocs⟩

end Engine

end TsEngine
