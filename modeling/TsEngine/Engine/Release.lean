import TsEngine.Engine.Ledger

/-!
# The release of the merged segments

At stage 3 the merger frees its two sources, each at a tick that finds no lookup in it, and then
the documents left behind.  The procedure is entered anew at every tick and reads both counters
each time, also when one of the two sources is gone: a tick that frees exactly one of them makes
the next one read through a null pointer.  `release_protocol_iff` shows that this is the one way
in which the protocol fails.
-/

namespace TsEngine

open Framework

/-- The procedures that have nothing to do at stage 3. -/
def Action.waits : Action → Bool
  | .procCheck | .procMigrate | .procRedelete | .procReset => true
  | _ => false

namespace Engine

variable {cap : ℕ} {heap : DocHeap} {as : List Action} {l m : List (ListEngine × Action)}
  {e e₀ e' s s' : ListEngine} {log : SegPtr → List DocPtr} {m1 m2 n p : SegPtr}

/-! ## What is not a tick -/

lemma exec_of_waits (hstage : e.merger.mergeStage = 3) {a : Action} (ha : a.waits = true) :
    Engine.exec cap a e = .ok e := by
  have hstay : ∀ {s : ℕ}, s ≠ 3 → e.merger.mergeStage ≠ s := by omega
  cases a with
  | procCheck => exact if_pos (hstay (by omega))
  | procMigrate => exact if_pos (hstay (by omega))
  | procRedelete => exact congrArg Except.ok (if_pos (hstay (by omega)))
  | procReset => exact congrArg Except.ok (if_pos (hstay (by omega)))
  | _ => cases ha

/-- At stage 3 only the release touches what the merger holds. -/
lemma Inv.aside (h : Inv cap heap as e log) (hcap : 1 ≤ cap) (hstage : e.merger.mergeStage = 3)
    {a : Action} (hen : a.Enabled cap as e) (hexec : Engine.exec cap a e = .ok e')
    (ha : a ≠ .procRelease) : Aside e e' := by
  obtain ⟨n, hqueue, -, -⟩ := h.phase_replaced hstage
  have hidle : a.waits = true → e' = e := fun hw =>
    Except.ok.inj (hexec.symm.trans (exec_of_waits hstage hw))
  cases a with
  | add d => exact Except.ok.inj hexec ▸ aside_add h hcap d
  | remove k => exact Except.ok.inj hexec ▸ aside_remove h k
  | replaceSegs => simp [Action.Enabled, hqueue] at hen
  | redelete => simp [Action.Enabled, hqueue] at hen
  | procRelease => exact absurd rfl ha
  | procCheck | procMigrate | procRedelete | procReset => exact hidle rfl ▸ .refl e
  | lookupEnter seg => exact Except.ok.inj hexec ▸ { Aside.refl e with }
  | lookupLeave seg => exact Except.ok.inj hexec ▸ { Aside.refl e with }

/-! ## One tick -/

lemma releaseSource_eq {source : Merger → Option SegPtr} (forget : Merger → Merger)
    (hm : source e.merger = some p) (hf : p ∉ e.freedSegs) :
    e.releaseSource source forget = .ok (if (e.segs p).processes = 0 then
      { e with freedSegs := p :: e.freedSegs, merger := forget e.merger }
    else e) := by
  have hderef : e.deref (source e.merger) = .ok p := hm ▸ deref_of_not_freed hf
  simp only [releaseSource, hderef, bind, Except.bind, freeSegment]
  split_ifs <;> rfl

lemma releaseMseg1_eq (h1 : e.merger.mseg1 = some m1) (hf1 : m1 ∉ e.freedSegs) :
    e.releaseMseg1 = .ok (if (e.segs m1).processes = 0 then
      { e with freedSegs := m1 :: e.freedSegs, merger := { e.merger with mseg1 := none } }
    else e) :=
  releaseSource_eq _ h1 hf1

lemma releaseMseg2_eq (h2 : e.merger.mseg2 = some m2) (hf2 : m2 ∉ e.freedSegs) :
    e.releaseMseg2 = .ok (if (e.segs m2).processes = 0 then
      { e with freedSegs := m2 :: e.freedSegs, merger := { e.merger with mseg2 := none } }
    else e) :=
  releaseSource_eq _ h2 hf2

lemma releaseDocuments_eq (hnew : e.merger.newseg = some n) (hfn : n ∉ e.freedSegs) :
    e.releaseDocuments = .ok { e with
      freedSegs := (if 0 < (e.segs n).numTotalDocs then [] else [n]) ++ e.freedSegs
      freedDocs := e.merger.deleted.reverse ++ e.freedDocs
      merger := { e.merger with mergeStage := if 0 < (e.segs n).numTotalDocs then 4 else 6 } } := by
  have hd : ({ e with freedDocs := e.merger.deleted.reverse ++ e.freedDocs } : ListEngine).deref
      e.merger.newseg = .ok n := hnew ▸ deref_of_not_freed hfn
  simp only [releaseDocuments, hd, bind, Except.bind]
  split_ifs <;> rfl

lemma mergeProcRelease_of {e₁ e₂ : ListEngine} (hstage : e.merger.mergeStage = 3)
    (hr1 : e.releaseMseg1 = .ok e₁) (hr2 : e₁.releaseMseg2 = .ok e₂) :
    e.mergeProcRelease =
      if e₂.merger.mseg1 = none ∧ e₂.merger.mseg2 = none then e₂.releaseDocuments else .ok e₂ := by
  simp [Engine.mergeProcRelease, hstage, hr1, hr2, bind, Except.bind]

/-- What a tick does that finds both sources in place, by what it reads in their counters. -/
lemma mergeProcRelease_eq (hstage : e.merger.mergeStage = 3) (h1 : e.merger.mseg1 = some m1)
    (h2 : e.merger.mseg2 = some m2) (hnew : e.merger.newseg = some n) (hf1 : m1 ∉ e.freedSegs)
    (hf2 : m2 ∉ e.freedSegs) (hfn : n ∉ e.freedSegs) (hne : m1 ≠ m2) (hn1 : n ≠ m1)
    (hn2 : n ≠ m2) :
    e.mergeProcRelease = .ok (
      if (e.segs m1).processes = 0 then
        if (e.segs m2).processes = 0 then { e with
          freedSegs := (if 0 < (e.segs n).numTotalDocs then [] else [n]) ++ m2 :: m1 :: e.freedSegs
          freedDocs := e.merger.deleted.reverse ++ e.freedDocs
          merger := { e.merger with
            mseg1 := none
            mseg2 := none
            mergeStage := if 0 < (e.segs n).numTotalDocs then 4 else 6 } }
        else { e with freedSegs := m1 :: e.freedSegs, merger := { e.merger with mseg1 := none } }
      else if (e.segs m2).processes = 0 then
        { e with freedSegs := m2 :: e.freedSegs, merger := { e.merger with mseg2 := none } }
      else e) := by
  have hr1 := releaseMseg1_eq h1 hf1
  by_cases hp1 : (e.segs m1).processes = 0
  · rw [if_pos hp1] at hr1 ⊢
    have hr2 := releaseMseg2_eq (e := { e with
      freedSegs := m1 :: e.freedSegs, merger := { e.merger with mseg1 := none } }) h2
      (by simp [hne.symm, hf2])
    rw [mergeProcRelease_of hstage hr1 hr2]
    by_cases hp2 : (e.segs m2).processes = 0
    · simp only [hp2, if_true, and_self]
      exact releaseDocuments_eq hnew (by simp [hn1, hn2, hfn])
    · simp [hp2, h2]
  · rw [if_neg hp1] at hr1 ⊢
    have hr2 := releaseMseg2_eq h2 hf2
    rw [mergeProcRelease_of hstage hr1 hr2]
    by_cases hp2 : (e.segs m2).processes = 0
    · simp [hp2, h1]
    · simp [hp2, h1]

/-- A tick that finds one of its sources gone faults. -/
lemma mergeProcRelease_fault (hstage : e.merger.mergeStage = 3)
    (hgone : e.merger.mseg1 = none ∨ e.merger.mseg2 = none) :
    e.mergeProcRelease ≠ .ok e' := by
  intro hexec
  rw [Engine.mergeProcRelease, if_neg (by simpa using hstage)] at hexec
  obtain ⟨e₁, hr1, hexec⟩ := bind_eq_ok.mp hexec
  obtain ⟨e₂, hr2, -⟩ := bind_eq_ok.mp hexec
  obtain ⟨q1, hq1, -, hcase⟩ := releaseSource_cases hr1
  obtain ⟨q2, hq2, -⟩ := releaseSource_cases hr2
  have h2 : e₁.merger.mseg2 = e.merger.mseg2 := by
    rcases hcase with ⟨-, rfl⟩ | ⟨-, rfl⟩ <;> rfl
  rcases hgone with h | h
  · simp [h] at hq1
  · simp [h2, h] at hq2

/-! ## A sequence of ticks -/

/-- What the ticks of a history read in the lookup counters of the two sources, newest first. -/
def observed (m1 m2 : SegPtr) (m : List (ListEngine × Action)) : List (ℕ × ℕ) :=
  (m.filter fun q => q.2 = .procRelease).map fun q =>
    ((q.1.segs m1).processes, (q.1.segs m2).processes)

/-- Some tick found no lookup in the first source. -/
def Idle1 (obs : List (ℕ × ℕ)) : Prop := ∃ o ∈ obs, o.1 = 0

/-- Some tick found no lookup in the second source. -/
def Idle2 (obs : List (ℕ × ℕ)) : Prop := ∃ o ∈ obs, o.2 = 0

instance (obs : List (ℕ × ℕ)) : Decidable (Idle1 obs) :=
  inferInstanceAs (Decidable (∃ o ∈ obs, o.1 = 0))

instance (obs : List (ℕ × ℕ)) : Decidable (Idle2 obs) :=
  inferInstanceAs (Decidable (∃ o ∈ obs, o.2 = 0))

@[simp] lemma idle1_cons (o : ℕ × ℕ) (obs : List (ℕ × ℕ)) :
    Idle1 (o :: obs) ↔ o.1 = 0 ∨ Idle1 obs := List.exists_mem_cons_iff _ _ _

@[simp] lemma idle2_cons (o : ℕ × ℕ) (obs : List (ℕ × ℕ)) :
    Idle2 (o :: obs) ↔ o.2 = 0 ∨ Idle2 obs := List.exists_mem_cons_iff _ _ _

/-- The state of the protocol after ticks that read `obs`, from `e`, the state right after
replacement.  Only the newest tick can have found a counter at zero. -/
structure Releasing (e e' : ListEngine) (m1 m2 n : SegPtr) (obs : List (ℕ × ℕ)) : Prop where
  mseg1 : e'.merger.mseg1 = if Idle1 obs then none else some m1
  mseg2 : e'.merger.mseg2 = if Idle2 obs then none else some m2
  newseg : e'.merger.newseg = some n
  deleted : e'.merger.deleted = e.merger.deleted
  stage : e'.merger.mergeStage = 3 ↔ ¬(Idle1 obs ∧ Idle2 obs)
  freed1 : e'.freedSegs.count m1 = if Idle1 obs then 1 else 0
  freed2 : e'.freedSegs.count m2 = if Idle2 obs then 1 else 0
  freedNew : n ∈ e'.freedSegs ↔ e'.merger.mergeStage ≠ 3 ∧ n ∉ e.segments
  freedDocs : e'.freedDocs =
    (if e'.merger.mergeStage = 3 then [] else e.merger.deleted.reverse) ++ e.freedDocs
  lt : n < e'.nextSeg
  mem : n ∈ e'.segments ↔ n ∈ e.segments
  earlier : ∀ o ∈ obs.tail, o.1 ≠ 0 ∧ o.2 ≠ 0

lemma Releasing.aside {obs : List (ℕ × ℕ)} (h : Releasing e s m1 m2 n obs) (haside : Aside s s') :
    Releasing e s' m1 m2 n obs where
  mseg1 := haside.mseg1.trans h.mseg1
  mseg2 := haside.mseg2.trans h.mseg2
  newseg := haside.newseg.trans h.newseg
  deleted := haside.deleted.trans h.deleted
  stage := haside.stage ▸ h.stage
  freed1 := haside.freedSegs ▸ h.freed1
  freed2 := haside.freedSegs ▸ h.freed2
  freedNew := by rw [haside.freedSegs, haside.stage]; exact h.freedNew
  freedDocs := by rw [haside.freedDocs, haside.stage]; exact h.freedDocs
  lt := h.lt.trans_le haside.next
  mem := (haside.mem n h.lt).trans h.mem
  earlier := h.earlier

/-- With both sources in place, a tick does what `mergeProcRelease_eq` says. -/
lemma Releasing.tick {obs : List (ℕ × ℕ)} (h : Releasing e s m1 m2 n obs) (hne : m1 ≠ m2)
    (hn1 : n ≠ m1) (hn2 : n ≠ m2) (hlinked : n ∈ s.segments ↔ (s.segs n).numTotalDocs ≠ 0)
    (h1 : ¬Idle1 obs) (h2 : ¬Idle2 obs) :
    ∃ s', s.mergeProcRelease = .ok s' ∧
      Releasing e s' m1 m2 n (((s.segs m1).processes, (s.segs m2).processes) :: obs) := by
  have hstage : s.merger.mergeStage = 3 := h.stage.mpr fun hz => h1 hz.1
  have hc1 : s.freedSegs.count m1 = 0 := h.freed1.trans (if_neg h1)
  have hc2 : s.freedSegs.count m2 = 0 := h.freed2.trans (if_neg h2)
  have hfn : n ∉ s.freedSegs := fun hn => (h.freedNew.mp hn).1 hstage
  have hdocs : s.freedDocs = e.freedDocs := h.freedDocs.trans (by simp [hstage])
  have hbusy : ∀ o ∈ obs, o.1 ≠ 0 ∧ o.2 ≠ 0 := fun o ho =>
    ⟨fun hz => h1 ⟨o, ho, hz⟩, fun hz => h2 ⟨o, ho, hz⟩⟩
  rw [mergeProcRelease_eq hstage (h.mseg1.trans (if_neg h1)) (h.mseg2.trans (if_neg h2)) h.newseg
    (List.count_eq_zero.mp hc1) (List.count_eq_zero.mp hc2) hfn hne hn1 hn2]
  refine ⟨_, rfl, ?_⟩
  have hlinked : n ∉ e.segments ↔ ¬0 < (s.segs n).numTotalDocs := by
    rw [← h.mem, hlinked, Nat.pos_iff_ne_zero]
  have hs1 := h.mseg1.trans (if_neg h1)
  have hs2 := h.mseg2.trans (if_neg h2)
  by_cases hp1 : (s.segs m1).processes = 0 <;> by_cases hp2 : (s.segs m2).processes = 0 <;>
    simp only [hp1, hp2, if_true, if_false]
  · -- both are freed, and the stage is left
    refine ⟨by simp, by simp, h.newseg, h.deleted, ?_, ?_, ?_, ?_, ?_, h.lt, h.mem, hbusy⟩
    · simp only [idle1_cons, idle2_cons]
      split_ifs <;> simp
    · simp only [List.count_append, List.count_cons, hc1]
      split_ifs <;> simp_all
    · simp only [List.count_append, List.count_cons, hc2]
      split_ifs <;> simp_all
    · rw [hlinked]
      split_ifs with hpos <;> simp [hpos, hn1, hn2, hfn]
    · rw [hdocs, h.deleted]
      split_ifs <;> simp_all
  · refine ⟨by simp, by simp [hs2, hp2, h2], h.newseg, h.deleted, by simp [hstage, hp2, h2],
      by simp [hc1], by simp [hc2, hp2, h2, hne], ?_, by simp [hstage, hdocs], h.lt, h.mem, hbusy⟩
    simp [hstage, hn1, hfn]
  · refine ⟨by simp [hs1, hp1, h1], by simp, h.newseg, h.deleted, by simp [hstage, hp1, h1],
      by simp [hc1, hp1, h1, hne.symm], by simp [hc2], ?_, by simp [hstage, hdocs], h.lt, h.mem,
      hbusy⟩
    simp [hstage, hn2, hfn]
  · exact ⟨by simp [hs1, hp1, h1], by simp [hs2, hp2, h2], h.newseg, h.deleted,
      by simp [hstage, hp1, h1], by simp [hc1, hp1, h1], by simp [hc2, hp2, h2], h.freedNew,
      h.freedDocs, h.lt, h.mem, hbusy⟩

/-- What the replacement leaves to the release. -/
structure Replaced (e : ListEngine) (m1 m2 n : SegPtr) : Prop where
  mseg1 : e.merger.mseg1 = some m1
  mseg2 : e.merger.mseg2 = some m2
  newseg : e.merger.newseg = some n
  ne : m1 ≠ m2
  ne1 : n ≠ m1
  ne2 : n ≠ m2

/-- **The protocol along a path** from the state right after replacement, as long as the stage
is 3. -/
lemma releasing_of_path (hcap : 1 ≤ cap)
    (hrun : (engineSystem (List SegPtr) cap heap).Run ((e₀, .replaceSegs) :: l) e) :
    ∃ m1 m2 n, Replaced e m1 m2 n ∧ ∀ {m e'},
      (engineSystem (List SegPtr) cap heap).Path ((e₀, .replaceSegs) :: l) e m e' →
      (∀ q ∈ m, q.1.merger.mergeStage = 3) → Releasing e e' m1 m2 n (observed m1 m2 m) := by
  obtain ⟨hrun₀, hqueue, hexec⟩ := hrun.of_cons
  obtain ⟨log₀, hinv₀⟩ := inv_of_run hcap hrun₀
  obtain ⟨m1, m2, n, hstage, hsrc, hnew, heq⟩ := hinv₀.replaceSegs_spec hqueue
  have hinv := hinv₀.replaced hsrc hnew
  obtain rfl := Except.ok.inj (heq.symm.trans hexec)
  obtain ⟨n', -, hlinked, hold⟩ := hinv.phase_replaced rfl
  obtain rfl : n = n' := Option.some.inj (hnew.newseg.symm.trans hlinked.newseg)
  have hrep : Replaced (e₀.replaced m1 m2 n) m1 m2 n :=
    ⟨hsrc.mseg1, hsrc.mseg2, hnew.newseg, hsrc.ne, (hold.neNew m1 (.inl hsrc.mseg1)).symm,
      (hold.neNew m2 (.inr hsrc.mseg2)).symm⟩
  have hbase : Releasing (e₀.replaced m1 m2 n) (e₀.replaced m1 m2 n) m1 m2 n [] :=
    ⟨hrep.mseg1, hrep.mseg2, hrep.newseg, rfl, by simp [Idle1, replaced],
      List.count_eq_zero.mpr (hold.notFreed m1 (.inl hsrc.mseg1)),
      List.count_eq_zero.mpr (hold.notFreed m2 (.inr hsrc.mseg2)),
      ⟨fun hn => absurd hn hlinked.notFreed, fun hn => absurd rfl hn.1⟩, rfl, hlinked.lt, Iff.rfl,
      by simp⟩
  refine ⟨m1, m2, n, hrep, fun {m e'} hpath hstage => ?_⟩
  refine path_invariant hcap hrun (fun m e' => (∀ q ∈ m, q.1.merger.mergeStage = 3) →
    Releasing (e₀.replaced m1 m2 n) e' m1 m2 n (observed m1 m2 m)) (fun _ => hbase)
    (fun {m s a s'} hpath ih hinv hen hexec _ hstage => ?_) hpath hstage
  obtain ⟨hs, hstage⟩ := List.forall_mem_cons.mp hstage
  have hs : s.merger.mergeStage = 3 := hs
  have hih := ih hstage
  obtain ⟨log, hinv⟩ := hinv
  by_cases ha : a = .procRelease
  · subst ha
    obtain ⟨n', -, hlink, -⟩ := hinv.phase_replaced hs
    obtain rfl : n = n' := Option.some.inj (hih.newseg.symm.trans hlink.newseg)
    -- had one of the two been freed before, this tick would have faulted
    have h1 : ¬Idle1 (observed m1 m2 m) := fun hz =>
      mergeProcRelease_fault hs (.inl (hih.mseg1.trans (if_pos hz))) hexec
    have h2 : ¬Idle2 (observed m1 m2 m) := fun hz =>
      mergeProcRelease_fault hs (.inr (hih.mseg2.trans (if_pos hz))) hexec
    obtain ⟨s₁, heq, htick⟩ := hih.tick hrep.ne hrep.ne1 hrep.ne2 hlink.mem_iff h1 h2
    obtain rfl := Except.ok.inj (heq.symm.trans hexec)
    simpa [observed] using htick
  · have haside := hinv.aside hcap hs hen hexec ha
    simpa [observed, ha] using hih.aside haside

/-! ## The protocol -/

/-- **The release protocol**, for the state `e` right after replacement and the state `e'` after
ticks that read `obs`: the next tick does not fault; a source has been freed once if some tick
found no lookup in it, and otherwise not at all; stage 3 is left, and the documents set aside are
freed, each of them once, when both have been; and the new segment is freed with them unless it
was linked. -/
structure ReleaseProtocol (e e' : ListEngine) (m1 m2 n : SegPtr) (obs : List (ℕ × ℕ)) : Prop where
  noFault : ∃ e'', e'.mergeProcRelease = .ok e''
  freed1 : e'.freedSegs.count m1 = if Idle1 obs then 1 else 0
  freed2 : e'.freedSegs.count m2 = if Idle2 obs then 1 else 0
  leaves : e'.merger.mergeStage ≠ 3 ↔ m1 ∈ e'.freedSegs ∧ m2 ∈ e'.freedSegs
  freedDocs : e'.freedDocs =
    (if e'.merger.mergeStage = 3 then [] else e.merger.deleted.reverse) ++ e.freedDocs
  freedOnce : ∀ x ∈ e.merger.deleted,
    e'.freedDocs.count x = if e'.merger.mergeStage = 3 then 0 else 1
  freedNew : n ∈ e'.freedSegs ↔ e'.merger.mergeStage ≠ 3 ∧ n ∉ e.listed

/-- What keeps the protocol: every tick finds both sources busy or both free. -/
def Together (obs : List (ℕ × ℕ)) : Prop := ∀ o ∈ obs, o.1 = 0 ↔ o.2 = 0

/-- As long as the ticks find the sources busy or free together, both are in place or none. -/
lemma Releasing.together_iff {obs : List (ℕ × ℕ)} (h : Releasing e e' m1 m2 n obs) :
    Together obs ↔ (Idle1 obs ↔ Idle2 obs) := by
  cases obs with
  | nil => simp [Together, Idle1, Idle2]
  | cons o obs =>
      have h1 : ¬Idle1 obs := fun ⟨o', ho, hz⟩ => (h.earlier o' ho).1 hz
      have h2 : ¬Idle2 obs := fun ⟨o', ho, hz⟩ => (h.earlier o' ho).2 hz
      have hrest : ∀ o' ∈ obs, o'.1 = 0 ↔ o'.2 = 0 := fun o' ho =>
        iff_of_false (h.earlier o' ho).1 (h.earlier o' ho).2
      simp only [Together, List.forall_mem_cons, idle1_cons, idle2_cons, h1, h2, or_false]
      exact and_iff_left hrest

/-- **When the release protocol is kept.**  From the state right after replacement, through any
interleaving of tasks, lookups and ticks at stage 3, the protocol holds if and only if no tick so
far has found exactly one of the two lookup counters at zero. -/
theorem release_protocol_iff (hcap : 1 ≤ cap)
    (hrun : (engineSystem (List SegPtr) cap heap).Run ((e₀, .replaceSegs) :: l) e)
    (hpath : (engineSystem (List SegPtr) cap heap).Path ((e₀, .replaceSegs) :: l) e m e')
    (hstage : ∀ q ∈ m, q.1.merger.mergeStage = 3) :
    ∃ m1 m2 n, e.merger.mseg1 = some m1 ∧ e.merger.mseg2 = some m2 ∧ e.merger.newseg = some n ∧
      (ReleaseProtocol e e' m1 m2 n (observed m1 m2 m) ↔ Together (observed m1 m2 m)) := by
  obtain ⟨m1, m2, n, hrep, hpaths⟩ := releasing_of_path hcap hrun
  have h := hpaths hpath hstage
  obtain ⟨log, hinv⟩ := inv_of_run hcap (hrun.append hpath)
  refine ⟨m1, m2, n, hrep.mseg1, hrep.mseg2, hrep.newseg, Iff.trans ?_ h.together_iff.symm⟩
  constructor
  · rintro ⟨⟨e'', hok⟩, -⟩
    by_contra hhalf
    have h3 : e'.merger.mergeStage = 3 :=
      h.stage.mpr fun hboth => hhalf (iff_of_true hboth.1 hboth.2)
    refine mergeProcRelease_fault h3 ?_ hok
    by_cases hz : Idle1 (observed m1 m2 m)
    · exact .inl (h.mseg1.trans (if_pos hz))
    · exact .inr (h.mseg2.trans (if_pos (by_contra fun hz2 => hhalf (iff_of_false hz hz2))))
  · intro hboth
    have hmem1 : m1 ∈ e'.freedSegs ↔ Idle1 (observed m1 m2 m) := by
      rw [← List.count_pos_iff, h.freed1]
      split_ifs with hz <;> simp [hz]
    have hmem2 : m2 ∈ e'.freedSegs ↔ Idle2 (observed m1 m2 m) := by
      rw [← List.count_pos_iff, h.freed2]
      split_ifs with hz <;> simp [hz]
    refine ⟨?_, h.freed1, h.freed2, ?_, h.freedDocs, fun x hx => ?_, h.freedNew⟩
    · by_cases h3 : e'.merger.mergeStage = 3
      · obtain ⟨n', -, hlink, -⟩ := hinv.phase_replaced h3
        obtain rfl : n = n' := Option.some.inj (h.newseg.symm.trans hlink.newseg)
        have hnot := h.stage.mp h3
        obtain ⟨e'', hok, -⟩ := h.tick hrep.ne hrep.ne1 hrep.ne2 hlink.mem_iff
          (fun hz => hnot ⟨hz, hboth.mp hz⟩) (fun hz => hnot ⟨hboth.mpr hz, hz⟩)
        exact ⟨e'', hok⟩
      · exact ⟨e', if_pos h3⟩
    · rw [ne_eq, h.stage, not_not, hmem1, hmem2]
    · have h3 : e.merger.mergeStage = 3 :=
        (hpaths .nil (by simp)).stage.mpr (by simp [observed, Idle1])
      obtain ⟨hnodup, hwait⟩ := (ledger_of_run hcap hrun).waiting (.inr h3)
      have hfreed : e.freedDocs.count x = 0 := List.count_eq_zero.mpr (hwait x hx).1
      rw [h.freedDocs, List.count_append, hfreed]
      split_ifs
      · rfl
      · rw [List.count_reverse, List.count_eq_one_of_mem hnodup hx]

/-- `release_protocol_iff` for a tick that finds both sources busy, and one that finds them
free. -/
theorem release_protocol_iff_sample :
    ∃ l e₀ e m e', (engineSystem (List SegPtr) 1 sampleHeap).Run ((e₀, .replaceSegs) :: l) e ∧
      (engineSystem (List SegPtr) 1 sampleHeap).Path ((e₀, .replaceSegs) :: l) e m e' ∧
      actions m = [.procRelease, .lookupLeave 1, .lookupLeave 0, .procRelease, .lookupEnter 1,
        .lookupEnter 0] ∧ ReleaseProtocol e e' 0 1 3 (observed 0 1 m) := by
  obtain ⟨l, e₀, e, m, e', hrun, hpath, -, hm, htest⟩ := System.exists_path_of_execAll
    (M := engineSystem (List SegPtr) 1 sampleHeap)
    (fun _ _ m _ => decide ((∀ q ∈ m, q.1.merger.mergeStage = 3) ∧
      (∃ q ∈ m.getLast?, q.1.merger.mseg1 = some 0 ∧ q.1.merger.mseg2 = some 1 ∧
        q.1.merger.newseg = some 3) ∧ observed 0 1 m = [(0, 0), (1, 1)]))
    [.add 1, .add 2, .add 3, .remove 1, .procCheck, .procMigrate] .replaceSegs
    [.lookupEnter 0, .lookupEnter 1, .procRelease, .lookupLeave 0, .lookupLeave 1, .procRelease]
    (by decide +kernel)
  obtain ⟨hstage, ⟨q, hq, h1, h2, hn⟩, hobs⟩ := of_decide_eq_true htest
  rw [hpath.fst_of_mem_getLast? q hq] at h1 h2 hn
  obtain ⟨m1, m2, n, hm1, hm2, hnew, hiff⟩ := release_protocol_iff le_rfl hrun hpath hstage
  obtain rfl := Option.some.inj (h1.symm.trans hm1)
  obtain rfl := Option.some.inj (h2.symm.trans hm2)
  obtain rfl := Option.some.inj (hn.symm.trans hnew)
  exact ⟨l, e₀, e, m, e', hrun, hpath, hm, hiff.mpr (by simp [hobs, Together])⟩

/-- **A tick that frees one source only** makes the next one read through a null pointer. -/
theorem release_null :
    ∃ l e₀ e m e', (engineSystem (List SegPtr) 1 sampleHeap).Run ((e₀, .replaceSegs) :: l) e ∧
      (engineSystem (List SegPtr) 1 sampleHeap).Path ((e₀, .replaceSegs) :: l) e m e' ∧
      (∀ q ∈ m, q.1.merger.mergeStage = 3) ∧ actions m = [.procRelease, .lookupEnter 1] ∧
      e'.mergeProcRelease = .error .nullDereference := by
  obtain ⟨l, e₀, e, m, e', hrun, hpath, -, hm, htest⟩ := System.exists_path_of_execAll
    (M := engineSystem (List SegPtr) 1 sampleHeap)
    (fun _ _ m e' => decide (∀ q ∈ m, q.1.merger.mergeStage = 3) &&
      match e'.mergeProcRelease with
      | .error .nullDereference => true
      | _ => false)
    [.add 1, .add 2, .add 3, .remove 1, .procCheck, .procMigrate] .replaceSegs
    [.lookupEnter 1, .procRelease] (by decide +kernel)
  obtain ⟨hstage, hfault⟩ := Bool.and_eq_true_iff.mp htest
  refine ⟨l, e₀, e, m, e', hrun, hpath, of_decide_eq_true hstage, hm, ?_⟩
  revert hfault
  cases e'.mergeProcRelease with
  | error fault => cases fault <;> simp
  | ok _ => simp

end Engine

end TsEngine
