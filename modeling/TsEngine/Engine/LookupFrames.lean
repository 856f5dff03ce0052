import TsEngine.Engine.Lookup
import TsEngine.Engine.Release

/-!
# What the threads of the engine leave to a lookup

Three facts about the steps that are not part of a lookup.  None of them changes a lookup counter
(`processes_exec`).  Only the replace handler changes the `next` pointer of a segment that exists
(`next_exec`), and the pointers of the two sources then lead to segments that stay listed
(`next_replaceSegs`), which rests on the order in which `ts_merger_get_segments` finds them.  And a
segment that is not listed keeps its tables (`Inv.segs_exec`).
-/

namespace TsEngine

open Framework

/-! ## Counters -/

namespace Segment

variable (docs : DocHeap) (seg : Segment)

/-- Removing a key touches the bitmap and its counter only. -/
lemma removeDocument_frame (pk : ℕ) : ∃ deletion n, (seg.removeDocument docs pk).2 =
    { seg with deletion := deletion, numTotalDeleted := n } := by
  unfold removeDocument
  cases Keyed.find PkMapping.pk seg.pkMapping pk with
  | none => exact ⟨_, _, rfl⟩
  | some mp =>
      dsimp only
      induction mp.docIds.toList generalizing seg with
      | nil => exact ⟨_, _, rfl⟩
      | cons x xs ih =>
          obtain ⟨deletion, n, hrest⟩ := ih (seg.deleteId (docs x).docId)
          refine ⟨deletion, n, ?_⟩
          rw [List.foldl_cons, hrest]
          unfold deleteId
          split_ifs <;> rfl

lemma processes_removeDocument (pk : ℕ) :
    (seg.removeDocument docs pk).2.processes = seg.processes := by
  obtain ⟨_, _, heq⟩ := seg.removeDocument_frame docs pk
  rw [heq]

lemma processes_addDocument (d : DocPtr) :
    (seg.addDocument docs d).2.2.processes = seg.processes := by
  by_cases hcheck : (docs d).check = true
  · exact (addDocument_added docs seg hcheck).processes
  · rw [addDocument_of_not_check docs seg (by simpa using hcheck)]

end Segment

namespace Engine

section Counters

variable {L : Type} {e e' : Engine L}

/-- The lookup counters. -/
def processes (e : Engine L) (p : SegPtr) : ℕ := (e.segs p).processes

lemma processes_modifySeg (e : Engine L) (seg : SegPtr) {f : Segment → Segment}
    (hf : (f (e.segs seg)).processes = (e.segs seg).processes) :
    (e.modifySeg seg f).processes = e.processes := by
  funext p
  unfold processes modifySeg
  by_cases hp : p = seg
  · subst hp
    simp [hf]
  · simp [hp]

/-- A new segment starts at zero. -/
lemma processes_new (segs : SegPtr → Segment) (p : SegPtr) {seg : Segment}
    (hseg : seg.processes = 0) : (fun q => (Function.update segs p seg q).processes) =
      Function.update (fun q => (segs q).processes) p 0 := by
  rw [← hseg]
  exact Function.comp_update Segment.processes segs p seg

lemma processes_update {segs : SegPtr → Segment} {p : SegPtr} {seg : Segment}
    (hseg : seg.processes = (segs p).processes) :
    (fun q => (Function.update segs p seg q).processes) = fun q => (segs q).processes := by
  funext q
  by_cases hq : q = p
  · subst hq
    simp [hseg]
  · simp [hq]

lemma processes_segmentMigrate (old : Segment) (s : DocHeap × Segment × List DocPtr) :
    (segmentMigrate old s).2.1.processes = s.2.1.processes := by
  unfold segmentMigrate
  induction old.docPtrs generalizing s with
  | nil => rfl
  | cons d ds ih =>
      rw [List.foldl_cons, ih]
      unfold migrateDocument
      split_ifs
      · rfl
      · exact Segment.processes_addDocument _ _ d

lemma processes_migrateAndEnqueue (hexec : e.migrateAndEnqueue = .ok e') :
    e'.processes = Function.update e.processes e.nextSeg 0 := by
  obtain ⟨mseg1, -, hexec⟩ := bind_eq_ok.mp hexec
  obtain ⟨mseg2, -, hexec⟩ := bind_eq_ok.mp hexec
  obtain rfl := Except.ok.inj hexec
  refine (processes_new _ _ ?_)
  rw [processes_segmentMigrate, processes_segmentMigrate]
  rfl

lemma processes_redeleteHandler (hexec : e.redeleteHandler = .ok e') :
    e'.processes = e.processes := by
  unfold redeleteHandler at hexec
  split_ifs at hexec
  · exact Except.ok.inj hexec ▸ rfl
  obtain ⟨newseg, -, hexec⟩ := bind_eq_ok.mp hexec
  have hfold : ∀ (pks : List ℕ) (seg : Segment),
      (pks.foldl (fun seg pk => (seg.removeDocument e.docs pk).2) seg).processes =
        seg.processes := by
    intro pks
    induction pks with
    | nil => exact fun _ => rfl
    | cons pk pks ih =>
        intro seg
        rw [List.foldl_cons, ih]
        exact seg.processes_removeDocument _ pk
  have hcount := e.processes_modifySeg newseg (f := fun seg =>
    e.merger.mergingDeletion.foldl (fun seg pk => (seg.removeDocument e.docs pk).2) seg)
    (hfold _ _)
  obtain rfl := Except.ok.inj hexec
  exact hcount

variable [SegmentList L] {cap : ℕ}

lemma processes_rollOver : (e.rollOver cap).processes = e.processes ∨
    (e.rollOver cap).processes = Function.update e.processes e.nextSeg 0 := by
  unfold rollOver
  split_ifs
  · have hactive := e.processes_modifySeg e.segmentActive
      (f := fun seg => { seg with state := seg.state + 1 }) rfl
    exact .inr ((processes_new _ _ rfl).trans (congrArg (Function.update · e.nextSeg 0) hactive))
  · exact .inl rfl

lemma processes_removeFromAll (pk : ℕ) : (e.removeFromAll pk).processes = e.processes := by
  unfold removeFromAll
  generalize e.listed = ps
  induction ps generalizing e with
  | nil => rfl
  | cons p ps ih =>
      rw [List.foldl_cons, ih]
      exact e.processes_modifySeg p (Segment.processes_removeDocument _ _ pk)

/-- What a replace handler that does not fault has done. -/
lemma replaceSegsHandler_cases (hexec : e.replaceSegsHandler = .ok e') :
    ∃ m1 m2 n l₁ l₂, e.merger.mseg1 = some m1 ∧ e.merger.mseg2 = some m2 ∧
      e.merger.newseg = some n ∧ SegmentList.dlDelete m1 e.segments = .ok l₁ ∧
      SegmentList.dlDelete m2 l₁ = .ok l₂ ∧ e'.processes = e.processes ∧
      (e'.segments = l₂ ∨ e'.segments = SegmentList.dlPrepend n l₂) := by
  obtain ⟨m1, h1, hexec⟩ := bind_eq_ok.mp hexec
  obtain ⟨m2, h2, hexec⟩ := bind_eq_ok.mp hexec
  obtain ⟨n, hn, hexec⟩ := bind_eq_ok.mp hexec
  obtain ⟨l₁, hl₁, hexec⟩ := bind_eq_ok.mp hexec
  obtain ⟨l₂, hl₂, hexec⟩ := bind_eq_ok.mp hexec
  refine ⟨m1, m2, n, l₁, l₂, (deref_eq_ok.mp h1).1, (deref_eq_ok.mp h2).1, (deref_eq_ok.mp hn).1,
    hl₁, hl₂, ?_⟩
  dsimp only at hexec
  split_ifs at hexec
  · have hcount := e.processes_modifySeg n (f := fun seg => { seg with state := seg.state + 1 }) rfl
    obtain rfl := Except.ok.inj hexec
    exact ⟨hcount, .inr rfl⟩
  · obtain rfl := Except.ok.inj hexec
    exact ⟨rfl, .inl rfl⟩

lemma segs_releaseSource {source : Merger → Option SegPtr} {forget : Merger → Merger}
    (hexec : e.releaseSource source forget = .ok e') : e'.segs = e.segs := by
  obtain ⟨m, -, -, ⟨-, rfl⟩ | ⟨-, rfl⟩⟩ := releaseSource_cases hexec
  · rfl
  · rfl

lemma segs_mergeProcRelease (hexec : e.mergeProcRelease = .ok e') : e'.segs = e.segs := by
  unfold mergeProcRelease at hexec
  split_ifs at hexec
  · exact Except.ok.inj hexec ▸ rfl
  obtain ⟨e₁, h1, hexec⟩ := bind_eq_ok.mp hexec
  obtain ⟨e₂, h2, hexec⟩ := bind_eq_ok.mp hexec
  have hsegs := (segs_releaseSource h2).trans (segs_releaseSource h1)
  split_ifs at hexec
  · obtain ⟨newseg, -, hexec⟩ := bind_eq_ok.mp hexec
    split_ifs at hexec
    · exact Except.ok.inj hexec ▸ hsegs
    · exact Except.ok.inj hexec ▸ hsegs
  · exact Except.ok.inj hexec ▸ hsegs

/-- **Only a lookup changes a lookup counter**, other than that of a new segment. -/
lemma processes_exec_cases {a : Action} (ha : a.isLookup = false) (hexec : exec cap a e = .ok e') :
    e'.processes = e.processes ∨ e'.processes = Function.update e.processes e.nextSeg 0 := by
  cases a with
  | add d =>
      obtain rfl := Except.ok.inj hexec
      have hroll := (e.rollOver cap).processes_removeFromAll ((e.rollOver cap).docs d).pk
      have hcount : (e.addDocumentHandler cap d).processes = (e.rollOver cap).processes :=
        Eq.trans (processes_update (Segment.processes_addDocument _ _ d)) hroll
      rw [hcount]
      exact processes_rollOver
  | remove k =>
      obtain rfl := Except.ok.inj hexec
      left
      unfold removeDocumentHandler
      dsimp only
      split_ifs
      · exact e.processes_removeFromAll k
      · exact e.processes_removeFromAll k
  | replaceSegs =>
      obtain ⟨_, _, _, _, _, -, -, -, -, -, hcount, -⟩ := replaceSegsHandler_cases hexec
      exact .inl hcount
  | redelete =>
      have hcount := processes_redeleteHandler (e := e.dequeue .redelete) hexec
      exact .inl hcount
  | procCheck =>
      left
      have hexec : e.mergeProcCheck = .ok e' := hexec
      unfold mergeProcCheck at hexec
      split_ifs at hexec
      · exact Except.ok.inj hexec ▸ rfl
      obtain ⟨r, -, hexec⟩ := bind_eq_ok.mp hexec
      match r, hexec with
      | none, hexec => exact Except.ok.inj hexec ▸ rfl
      | some (m1, m2), hexec => exact Except.ok.inj hexec ▸ rfl
  | procMigrate =>
      have hexec : e.mergeProcMigrate = .ok e' := hexec
      unfold mergeProcMigrate at hexec
      split_ifs at hexec
      · exact .inl (Except.ok.inj hexec ▸ rfl)
      obtain ⟨e₁, hmigrate, hexec⟩ := bind_eq_ok.mp hexec
      have hcount := processes_migrateAndEnqueue hmigrate
      exact .inr (Except.ok.inj hexec ▸ hcount)
  | procRelease =>
      left
      funext p
      exact congrArg Segment.processes (congrFun (segs_mergeProcRelease hexec) p)
  | procRedelete =>
      obtain rfl := Except.ok.inj hexec
      left
      unfold mergeProcRedelete
      split_ifs <;> rfl
  | procReset =>
      obtain rfl := Except.ok.inj hexec
      left
      unfold mergeProcReset
      split_ifs <;> rfl
  | lookupEnter seg => cases ha
  | lookupLeave seg => cases ha

/-- An unused address that counts zero goes on counting zero. -/
lemma processes_exec {a : Action} (ha : a.isLookup = false)
    (hfresh : (e.segs e.nextSeg).processes = 0) (hexec : exec cap a e = .ok e') :
    e'.processes = e.processes := by
  rcases processes_exec_cases ha hexec with hcount | hcount
  · exact hcount
  · rw [hcount]
    exact Function.update_eq_self_iff.mpr hfresh.symm

end Counters

/-! ## Pointers -/

section Pointers

variable {cap : ℕ} {pe pe' : PtrEngine} {p : SegPtr}

/-- **Only the replace handler changes the `next` pointer** of a segment that exists. -/
lemma next_exec {a : Action} (ha : a ≠ .replaceSegs) (hp : p ≠ pe.nextSeg)
    (hexec : exec cap a pe = .ok pe') : pe'.segments.next p = pe.segments.next p := by
  have hsame : pe'.segments = pe.segments → pe'.segments.next p = pe.segments.next p :=
    fun heq => by rw [heq]
  cases a with
  | add d =>
      obtain rfl := Except.ok.inj hexec
      show ((pe.rollOver cap).removeFromAll _).segments.next p = _
      rw [segments_removeFromAll]
      unfold rollOver
      split_ifs
      · exact Utlist.next_dlPrepend hp
      · rfl
  | remove k =>
      exact hsame (Except.ok.inj hexec ▸ segments_removeDocumentHandler pe k)
  | replaceSegs => exact absurd rfl ha
  | redelete =>
      exact hsame (segments_of_relist (pe.dequeue .redelete)
        (relist_redeleteHandler _ (pe.dequeue .redelete)) hexec)
  | procCheck => exact hsame (segments_of_relist _ (relist_mergeProcCheck _ _ rfl) hexec)
  | procMigrate => exact hsame (segments_of_relist _ (relist_mergeProcMigrate _ _) hexec)
  | procRelease => exact hsame (segments_of_relist _ (relist_mergeProcRelease _ _) hexec)
  | procRedelete =>
      obtain rfl := Except.ok.inj hexec
      unfold mergeProcRedelete
      split_ifs <;> rfl
  | procReset =>
      obtain rfl := Except.ok.inj hexec
      unfold mergeProcReset
      split_ifs <;> rfl
  | lookupEnter seg => exact hsame (Except.ok.inj hexec ▸ rfl)
  | lookupLeave seg => exact hsame (Except.ok.inj hexec ▸ rfl)

end Pointers

/-! ## A release at stage 3 -/

lemma mem_sources {merger : Merger} {p : SegPtr} :
    p ∈ merger.sources ↔ merger.mseg1 = some p ∨ merger.mseg2 = some p := by
  simp [Merger.sources]

/-- What a release does at stage 3: it frees the sources whose counters it finds at zero, and what
the merge has set aside if these are all. -/
structure Released {L : Type} (e e' : Engine L) : Prop where
  segs : e'.segs = e.segs
  segments : e'.segments = e.segments
  stage : e'.merger.mergeStage = 3 ∧ e'.freedDocs = e.freedDocs ∨
    e'.merger.mergeStage = 4 ∨ e'.merger.mergeStage = 6
  sources : ∀ p ∈ e'.merger.sources, p ∈ e.merger.sources
  freed : ∀ p ∈ e.merger.sources, (e.segs p).processes = 0 → p ∈ e'.freedSegs
  kept : ∀ p ∈ e.merger.sources, (e.segs p).processes ≠ 0 →
    e'.merger.mergeStage = 3 ∧ p ∈ e'.merger.sources

lemma released_of_exec {L : Type} [SegmentList L] {e e' : Engine L}
    (hstage : e.merger.mergeStage = 3) (hexec : e.mergeProcRelease = .ok e') : Released e e' := by
  unfold mergeProcRelease at hexec
  rw [if_neg (by simpa using hstage)] at hexec
  obtain ⟨e₁, hr1, hrest⟩ := bind_eq_ok.mp hexec
  obtain ⟨e₂, hr2, hlast⟩ := bind_eq_ok.mp hrest
  obtain ⟨m1, h1, -, hcase1⟩ := releaseSource_cases hr1
  obtain ⟨m2, hm2, -, hcase2⟩ := releaseSource_cases hr2
  have h2 : e.merger.mseg2 = some m2 := by
    rcases hcase1 with ⟨-, rfl⟩ | ⟨-, rfl⟩ <;> exact hm2
  have hsource : ∀ p ∈ e.merger.sources, p = m1 ∨ p = m2 := fun p hp =>
    (mem_sources.mp hp).imp (fun hp => Option.some.inj (hp.symm.trans h1))
      fun hp => Option.some.inj (hp.symm.trans h2)
  rcases hcase1 with ⟨hp1, rfl⟩ | ⟨hp1, rfl⟩ <;> rcases hcase2 with ⟨hp2, rfl⟩ | ⟨hp2, rfl⟩
  · -- both sources are busy
    rw [if_neg (by simp [h1])] at hlast
    obtain rfl := Except.ok.inj hlast
    refine ⟨rfl, rfl, .inl ⟨hstage, rfl⟩, fun _ => id, fun p hp hzero => ?_,
      fun p hp _ => ⟨hstage, hp⟩⟩
    rcases hsource p hp with rfl | rfl
    · exact absurd hzero hp1
    · exact absurd hzero hp2
  · -- only the second one is free
    rw [if_neg (by simp [h1])] at hlast
    obtain rfl := Except.ok.inj hlast
    refine ⟨rfl, rfl, .inl ⟨hstage, rfl⟩, fun p hp => ?_, fun p hp hzero => ?_,
      fun p hp hbusy => ⟨hstage, ?_⟩⟩
    · exact mem_sources.mpr (.inl (by simpa [mem_sources] using hp))
    · rcases hsource p hp with rfl | rfl
      · exact absurd hzero hp1
      · exact List.mem_cons_self
    · rcases hsource p hp with rfl | rfl
      · exact mem_sources.mpr (.inl h1)
      · exact absurd hp2 hbusy
  · -- only the first one is free
    rw [if_neg (by simp [h2])] at hlast
    obtain rfl := Except.ok.inj hlast
    refine ⟨rfl, rfl, .inl ⟨hstage, rfl⟩, fun p hp => ?_, fun p hp hzero => ?_,
      fun p hp hbusy => ⟨hstage, ?_⟩⟩
    · exact mem_sources.mpr (.inr (by simpa [mem_sources] using hp))
    · rcases hsource p hp with rfl | rfl
      · exact List.mem_cons_self
      · exact absurd hzero hp2
    · rcases hsource p hp with rfl | rfl
      · exact absurd hp1 hbusy
      · exact mem_sources.mpr (.inr h2)
  · -- both are free, and the stage is left
    have hidle : ∀ p ∈ e.merger.sources, (e.segs p).processes = 0 := fun p hp => by
      rcases hsource p hp with rfl | rfl
      · exact hp1
      · exact hp2
    rw [if_pos ⟨rfl, rfl⟩] at hlast
    obtain ⟨n, -, hlast⟩ := bind_eq_ok.mp hlast
    dsimp only at hlast
    split_ifs at hlast
    · obtain rfl := Except.ok.inj hlast
      refine ⟨rfl, rfl, .inr (.inl rfl), fun p hp => absurd hp (by simp [Merger.sources, setStage]),
        fun p hp _ => ?_, fun p hp hbusy => absurd (hidle p hp) hbusy⟩
      rcases hsource p hp with rfl | rfl <;> simp [setStage]
    · obtain rfl := Except.ok.inj hlast
      refine ⟨rfl, rfl, .inr (.inr rfl), fun p hp => absurd hp (by
        simp [Merger.sources, setStage, freeSegment]), fun p hp _ => ?_,
        fun p hp hbusy => absurd (hidle p hp) hbusy⟩
      rcases hsource p hp with rfl | rfl <;> simp [setStage, freeSegment]

/-! ## The order of the sources -/

/-- What an iteration of the loop of `ts_merger_get_segments` does to the candidates. -/
lemma considerSegment_cases {segs : SegPtr → Segment} {c c' : Candidates} {p : SegPtr}
    (h : considerSegment segs c p = .ok c') :
    c' = c ∨ c.mseg1 = none ∧ c' = { c with mseg1 := some p } ∨
      ∃ m, c.mseg1 = some m ∧ c' = ⟨some p, some m, true⟩ := by
  unfold considerSegment at h
  split_ifs at h
  · exact .inl (Except.ok.inj h).symm
  cases hm : c.mseg1 with
  | none =>
      rw [hm] at h
      exact .inr (.inl ⟨rfl, (Except.ok.inj h).symm⟩)
  | some m =>
      rw [hm] at h
      obtain ⟨radio, -, h⟩ := bind_eq_ok.mp h
      obtain ⟨radio1, -, h⟩ := bind_eq_ok.mp h
      split_ifs at h
      · exact .inr (.inr ⟨m, rfl, (Except.ok.inj h).symm⟩)
      · exact .inl (Except.ok.inj h).symm

/-- The candidates among the segments `seen`: the second one has been displaced by the first, and
so precedes it. -/
structure Displaced (seen : List SegPtr) (c : Candidates) : Prop where
  mem : ∀ m, c.mseg1 = some m → m ∈ seen
  isNone : c.mseg1 = none → c.mseg2 = none
  order : ∀ m1 m2, c.mseg1 = some m1 → c.mseg2 = some m2 → [m2, m1].Sublist seen

lemma Displaced.step {segs : SegPtr → Segment} {seen : List SegPtr} {c c' : Candidates}
    {p : SegPtr} (h : Displaced seen c) (hstep : considerSegment segs c p = .ok c') :
    Displaced (seen ++ [p]) c' := by
  rcases considerSegment_cases hstep with rfl | ⟨hnone, rfl⟩ | ⟨m, hm, rfl⟩
  · exact ⟨fun m hm => List.mem_append_left _ (h.mem m hm), h.isNone, fun m1 m2 h1 h2 =>
      (h.order m1 m2 h1 h2).trans (List.sublist_append_left seen [p])⟩
  · refine ⟨fun q hq => ?_, by simp, fun m1 m2 _ h2 => ?_⟩
    · simp only [Option.some.injEq] at hq
      simp [hq]
    · exact absurd ((h.isNone hnone).symm.trans h2) (by simp)
  · refine ⟨fun q hq => ?_, by simp, fun m1 m2 h1 h2 => ?_⟩
    · simp only [Option.some.injEq] at hq
      simp [hq]
    · simp only [Option.some.injEq] at h1 h2
      subst h1 h2
      exact (List.singleton_sublist.mpr (h.mem m hm)).append (List.Sublist.refl [p])

/-- **The second source precedes the first one** in the list. -/
lemma getSegments_sublist {L : Type} [SegmentList L] {e : Engine L} {m1 m2 : SegPtr}
    (h : e.getSegments = .ok (some (m1, m2))) : [m2, m1].Sublist e.listed := by
  unfold getSegments at h
  split_ifs at h with hlength
  · cases h
  obtain ⟨c, hfold, h⟩ := bind_eq_ok.mp h
  have hc : Displaced e.listed c := foldlM_invariant Displaced (fun h hstep => h.step hstep)
    ⟨by simp, by simp, by simp⟩ hfold
  split at h
  · rename_i q1 q2 h1 h2 _
    obtain ⟨radio, -, h⟩ := bind_eq_ok.mp h
    split_ifs at h
    · obtain ⟨rfl, rfl⟩ : q1 = m1 ∧ q2 = m2 := by simpa using h
      exact hc.order q1 q2 h1 h2
    · cases h
  · cases h

section Order

variable {cap : ℕ} {heap : DocHeap} {as : List Action} {l : List (ListEngine × Action)}
  {e e' : ListEngine} {log : SegPtr → List DocPtr}

/-- As long as both sources are listed, the second one precedes the first. -/
def SourcesOrdered (e : ListEngine) : Prop :=
  e.merger.mergeStage = 1 ∨ e.merger.mergeStage = 2 → ∀ m1 m2, e.merger.mseg1 = some m1 →
    e.merger.mseg2 = some m2 → [m2, m1].Sublist e.segments

/-- A step that changes neither the sources nor their order. -/
lemma SourcesOrdered.keep (h : e.SourcesOrdered) (hsub : e.segments.Sublist e'.segments)
    (h1 : e'.merger.mseg1 = e.merger.mseg1) (h2 : e'.merger.mseg2 = e.merger.mseg2)
    (hstage : e'.merger.mergeStage = 1 ∨ e'.merger.mergeStage = 2 →
      e.merger.mergeStage = 1 ∨ e.merger.mergeStage = 2) : e'.SourcesOrdered :=
  fun hs m1 m2 hm1 hm2 => (h (hstage hs) m1 m2 (h1 ▸ hm1) (h2 ▸ hm2)).trans hsub

lemma sublist_addDocumentHandler (d : DocPtr) :
    e.segments.Sublist (e.addDocumentHandler cap d).segments := by
  show e.segments.Sublist ((e.rollOver cap).removeFromAll _).segments
  rw [segments_removeFromAll]
  unfold rollOver
  split_ifs
  · exact List.sublist_cons_self _ _
  · exact List.Sublist.refl _

lemma Inv.sourcesOrdered (h : Inv cap heap as e log) (hcap : 1 ≤ cap) (ho : e.SourcesOrdered)
    {a : Action} (hen : a.Enabled cap as e) (hexec : Engine.exec cap a e = .ok e') :
    e'.SourcesOrdered := by
  cases a with
  | add d =>
      have haside := aside_add h hcap d
      obtain rfl := Except.ok.inj hexec
      exact ho.keep (sublist_addDocumentHandler d) haside.mseg1 haside.mseg2 (haside.stage ▸ id)
  | remove k =>
      have haside := aside_remove h k
      obtain rfl := Except.ok.inj hexec
      refine ho.keep ?_ haside.mseg1 haside.mseg2 (haside.stage ▸ id)
      rw [segments_removeDocumentHandler]
  | replaceSegs =>
      obtain ⟨m1, m2, n, -, -, -, heq⟩ := h.replaceSegs_spec hen
      obtain rfl := Except.ok.inj (heq.symm.trans hexec)
      have hstage : (e.replaced m1 m2 n).merger.mergeStage = 3 := rfl
      exact fun hs => by omega
  | redelete =>
      obtain ⟨n, -, -, -, heq⟩ := h.redelete_spec hen
      obtain rfl := Except.ok.inj (heq.symm.trans hexec)
      exact fun hs => absurd hs (by simp)
  | procCheck =>
      have hexec : e.mergeProcCheck = .ok e' := hexec
      unfold Engine.mergeProcCheck at hexec
      split_ifs at hexec
      · exact Except.ok.inj hexec ▸ ho
      obtain ⟨r, hget, hexec⟩ := bind_eq_ok.mp hexec
      match r, hget, hexec with
      | none, _, hexec => exact Except.ok.inj hexec ▸ ho
      | some (m1, m2), hget, hexec =>
          obtain rfl := Except.ok.inj hexec
          intro _ m1' m2' h1 h2
          obtain rfl := Option.some.inj h1
          obtain rfl := Option.some.inj h2
          exact getSegments_sublist hget
  | procMigrate =>
      have hexec : e.mergeProcMigrate = .ok e' := hexec
      unfold Engine.mergeProcMigrate at hexec
      split_ifs at hexec with hstage
      · exact Except.ok.inj hexec ▸ ho
      obtain ⟨e₁, hmigrate, hexec⟩ := bind_eq_ok.mp hexec
      obtain ⟨m1, -, hmigrate⟩ := bind_eq_ok.mp hmigrate
      obtain ⟨m2, -, hmigrate⟩ := bind_eq_ok.mp hmigrate
      obtain rfl := Except.ok.inj hmigrate
      obtain rfl := Except.ok.inj hexec
      exact ho.keep (List.Sublist.refl _) rfl rfl fun _ => .inl (by simpa using hstage)
  | procRelease =>
      by_cases hstage : e.merger.mergeStage = 3
      · have hreleased := released_of_exec hstage hexec
        exact fun hs => by
          rcases hreleased.stage with ⟨h3, -⟩ | h4 | h6 <;> omega
      · rw [Engine.exec, Engine.mergeProcRelease, if_pos hstage] at hexec
        exact Except.ok.inj hexec ▸ ho
  | procRedelete =>
      obtain rfl := Except.ok.inj hexec
      unfold Engine.mergeProcRedelete
      split_ifs
      · exact ho
      · exact fun hs => absurd hs (by simp [setStage])
  | procReset =>
      obtain rfl := Except.ok.inj hexec
      unfold Engine.mergeProcReset
      split_ifs
      · exact ho
      · exact fun hs => absurd hs (by simp [setStage])
  | lookupEnter seg => exact Except.ok.inj hexec ▸ ho
  | lookupLeave seg => exact Except.ok.inj hexec ▸ ho

/-- **The order is kept** in every reachable state. -/
lemma sourcesOrdered_of_run (hcap : 1 ≤ cap)
    (hrun : (engineSystem (List SegPtr) cap heap).Run l e) : e.SourcesOrdered := by
  refine System.Run.invariant (fun _ e => e.SourcesOrdered) ?_ ?_ hrun
  · exact fun hs => absurd hs (by simp [engineSystem, new, Merger.new])
  · intro l e a e' hrun ih hen hexec
    obtain ⟨log, hinv⟩ := inv_of_run hcap hrun
    exact hinv.sourcesOrdered hcap ih hen hexec

/-- **The `next` pointers of the sources**, which the replace handler leaves behind, lead to
segments that stay listed. -/
lemma Inv.next_replaceSegs {u v : Utlist SegPtr} (h : Inv cap heap as e log)
    (ho : e.SourcesOrdered) (hu : u.Begun 0 e.segments) (hqueue : .replace ∈ e.inputQueue)
    (hexec : Engine.exec cap .replaceSegs e = .ok e')
    (hpexec : Engine.exec cap .replaceSegs (e.relist u) = .ok (e'.relist v)) :
    ∀ p ∈ e.merger.sources, ∀ q, v.next p = some q → q ∈ e'.segments := by
  obtain ⟨m1, m2, n, hstage, hsrc, hnew, heq⟩ := h.replaceSegs_spec hqueue
  obtain rfl := Except.ok.inj (heq.symm.trans hexec)
  obtain ⟨m1', m2', n', l₁, l₂, h1, h2, hn, hdel₁, hdel₂, -, hv⟩ := replaceSegsHandler_cases hpexec
  obtain rfl : m1 = m1' := Option.some.inj (hsrc.mseg1.symm.trans h1)
  obtain rfl : m2 = m2' := Option.some.inj (hsrc.mseg2.symm.trans h2)
  obtain rfl : n = n' := Option.some.inj (hnew.newseg.symm.trans hn)
  have hdel₁ : u.dlDelete m1 = .ok l₁ := mapError_eq_ok.mp hdel₁
  have hdel₂ : l₁.dlDelete m2 = .ok l₂ := mapError_eq_ok.mp hdel₂
  have hl₁ := hu.of_dlDelete hsrc.mem1 h.active hsrc.inactive1.symm hdel₁
  -- the pointer out of `m1` does not lead to `m2`, which precedes it
  have hnext1 : ∀ q, u.next m1 = some q → q ∈ e.segments ∧ q ≠ m1 ∧ q ≠ m2 := fun q hq => by
    obtain ⟨hmem, hne⟩ := hu.represents.mem_of_next hsrc.mem1 hq
    refine ⟨hmem, hne, ?_⟩
    rintro rfl
    exact hu.represents.next_ne (ho (.inr hstage) m1 q h1 h2) hq
  -- and the one out of `m2` no longer to `m1`, which has been deleted before
  have hnext2 : ∀ q, l₁.next m2 = some q → q ∈ e.segments ∧ q ≠ m1 ∧ q ≠ m2 := fun q hq => by
    obtain ⟨hmem, hne⟩ := hl₁.represents.mem_of_next
      ((List.mem_erase_of_ne hsrc.ne.symm).mpr hsrc.mem2) hq
    obtain ⟨hq1, hmem⟩ := h.nodup.mem_erase_iff.mp hmem
    exact ⟨hmem, hq1, hne⟩
  have hl₂ : ∀ p ∈ e.merger.sources, ∀ q, l₂.next p = some q →
      q ∈ e.segments ∧ q ≠ m1 ∧ q ≠ m2 := by
    intro p hp q hq
    rcases Utlist.next_dlDelete hdel₂ p with hnext | hnext
    · rcases hsrc.eq_or_eq (mem_sources.mp hp) with rfl | rfl
      · apply hnext1
        rcases Utlist.next_dlDelete hdel₁ p with heq₁ | heq₁
        · rw [← heq₁, ← hnext, hq]
        · rw [← heq₁, ← hnext, hq]
      · exact hnext2 q (hnext ▸ hq)
    · exact hnext2 q (hnext ▸ hq)
  intro p hp q hq
  have hpn : p ≠ n := by
    rintro rfl
    exact hnew.notMem (hsrc.mem (mem_sources.mp hp))
  have hq : l₂.next p = some q := by
    rcases hv with hv | hv
    · have hv : v = l₂ := hv
      rw [← hv, hq]
    · have hv : v = l₂.dlPrepend n := hv
      rw [← hq, hv, Utlist.next_dlPrepend hpn]
  have hmem := h.toListShape.mem_erase.mpr (hl₂ p hp q hq)
  show q ∈ e.replacedSegments m1 m2 n
  unfold replacedSegments
  split_ifs
  · exact List.mem_cons_of_mem _ hmem
  · exact hmem

/-! ## Tables -/

/-- The documents that a lookup can meet in a listed segment are documents of the segment. -/
lemma Inv.mem_docPtrs_of_walked (h : Inv cap heap as e log) {p : SegPtr} (hp : p ∈ e.segments)
    {tokens : List CString} {x : DocPtr} (hx : x ∈ (e.segs p).walked tokens) :
    x ∈ (e.segs p).docPtrs := by
  cases tokens with
  | nil => exact hx
  | cons term terms =>
      obtain ⟨token, -, hx⟩ := List.mem_flatMap.mp hx
      rw [(h.represents p hp).posting] at hx
      exact (h.mem_docPtrs hp).mpr (List.mem_of_mem_filter hx)

/-- At stage 3, a segment that is not listed is left alone. -/
lemma Inv.segs_exec (h : Inv cap heap as e log) (hcap : 1 ≤ cap)
    (hstage : e.merger.mergeStage = 3) {a : Action} (ha : a.isLookup = false)
    (hen : a.Enabled cap as e) (hexec : Engine.exec cap a e = .ok e') {p : SegPtr}
    (hp : p < e.nextSeg) (hout : p ∉ e.segments) : e'.segs p = e.segs p := by
  obtain ⟨n, hqueue, -, -⟩ := h.phase_replaced hstage
  have hidle : a.waits = true → e' = e := fun hw =>
    Except.ok.inj (hexec.symm.trans (exec_of_waits hstage hw))
  cases a with
  | add d =>
      obtain rfl := Except.ok.inj hexec
      obtain ⟨log₁, h₁, -⟩ := h.rollOver hcap
      have hroll := h.rolledOver
      have hactive : p ≠ (e.rollOver cap).segmentActive := by
        rcases hroll.active with ⟨heq, -⟩ | ⟨heq, -⟩
        · rw [heq]
          exact fun hpa => hout (hpa ▸ h.active)
        · rw [heq]
          exact hp.ne
      have hout₁ : p ∉ (e.rollOver cap).segments := fun hmem =>
        ((hroll.mem p).mp hmem).elim hout hactive
      have hsegs : (e.rollOver cap).segs p = e.segs p := by
        by_cases hfull : cap ≤ (e.segs e.segmentActive).numTotalDocs
        · have hne : p ≠ e.segmentActive := fun hpa => hout (hpa ▸ h.active)
          rw [rollOver_of_le hfull (h.lt _ h.active), rolledOver_segs_of_ne hp.ne hne]
        · rw [rollOver_of_lt (by omega)]
      unfold Engine.addDocumentHandler
      dsimp only
      rw [removeFromAll_list h₁.nodup]
      show Function.update _ (e.rollOver cap).segmentActive _ p = _
      rw [Function.update_of_ne hactive, ← hsegs]
      exact if_neg hout₁
  | remove k =>
      obtain rfl := Except.ok.inj hexec
      have heq : (e.removeDocumentHandler k).segs = (e.removeFromAll k).segs := by
        unfold Engine.removeDocumentHandler
        dsimp only
        split_ifs <;> rfl
      rw [heq, removeFromAll_list h.nodup]
      exact if_neg hout
  | replaceSegs => simp [Action.Enabled, hqueue] at hen
  | redelete => simp [Action.Enabled, hqueue] at hen
  | procRelease => exact congrFun (segs_mergeProcRelease hexec) p
  | procCheck | procMigrate | procRedelete | procReset => rw [hidle rfl]
  | lookupEnter seg => cases ha
  | lookupLeave seg => cases ha

end Order

end Engine

end TsEngine
