import TsEngine.Engine.Merge
import TsEngine.Engine.View

/-!
# The engine behaves as its view says

`Engine.view` reads a `View` off an engine, and `Inv.step` shows that every action the engine
executes is a `View.Step` between the views before and after.  Together with `inv_of_run` this
makes each property that the steps of a view preserve a property of the runs of the engine.
-/

namespace TsEngine

open Framework Segment

namespace Engine

variable {cap : ℕ} {heap : DocHeap} {as : List Action} {e e' : ListEngine}
  {log : SegPtr → List DocPtr} {p : SegPtr} {d x : DocPtr} {k : ℕ}

/-- The view of an engine. -/
def view (e : ListEngine) : View where
  listed := {p | p ∈ e.segments}
  holds p := {x | x ∈ (e.segs p).docPtrs}
  deleted p := {x | (e.segs p).isDeleted e.docs x = true}
  stage := e.merger.mergeStage
  sources := {p | e.merger.mseg1 = some p ∨ e.merger.mseg2 = some p}
  newseg := e.merger.newseg
  pending := {k | k ∈ e.merger.mergingDeletion}

/-- The primary keys of the documents, which never change. -/
def pkOf (heap : DocHeap) (x : DocPtr) : ℕ := (heap x).pk

lemma Inv.pkOf_eq (h : Inv cap heap as e log) (x : DocPtr) : pkOf heap x = (e.docs x).pk :=
  (h.sameDocs x).1.symm

/-! ## Steps that touch no document -/

/-- The two engines agree on documents, segments and what is pending. -/
structure Frame (e e' : ListEngine) : Prop where
  docs : e'.docs = e.docs
  pkMapping : ∀ p, (e'.segs p).pkMapping = (e.segs p).pkMapping
  deletion : ∀ p, (e'.segs p).deletion = (e.segs p).deletion
  segments : e'.segments = e.segments
  newseg : e'.merger.newseg = e.merger.newseg
  mergingDeletion : e'.merger.mergingDeletion = e.merger.mergingDeletion

lemma Frame.refl (e : ListEngine) : Frame e e := ⟨rfl, fun _ => rfl, fun _ => rfl, rfl, rfl, rfl⟩

lemma Frame.trans {e'' : ListEngine} (h : Frame e e') (h' : Frame e' e'') : Frame e e'' where
  docs := h'.docs.trans h.docs
  pkMapping p := (h'.pkMapping p).trans (h.pkMapping p)
  deletion p := (h'.deletion p).trans (h.deletion p)
  segments := h'.segments.trans h.segments
  newseg := h'.newseg.trans h.newseg
  mergingDeletion := h'.mergingDeletion.trans h.mergingDeletion

lemma Frame.view_eq (h : Frame e e') :
    e'.view = { e.view with stage := e'.merger.mergeStage, sources := e'.view.sources } := by
  unfold view
  simp only [docPtrs, isDeleted, h.docs, h.pkMapping, h.deletion, h.segments, h.newseg,
    h.mergingDeletion]

lemma Frame.step (h : Frame e e') {a : Action} (ha : ¬View.Touches a)
    (hmove : View.Move e.merger.mergeStage e'.merger.mergeStage)
    (hsources : e.merger.mergeStage = 1 ∨ e.merger.mergeStage = 2 →
      e'.merger.mseg1 = e.merger.mseg1 ∧ e'.merger.mseg2 = e.merger.mseg2)
    (hdiscard : e.merger.mergeStage = 3 → e'.merger.mergeStage = 6 →
      ∀ n, e.merger.newseg = some n → n ∉ e.segments) :
    View.Step (pkOf heap) a e.view e'.view := by
  rw [h.view_eq]
  refine .neutral ha hmove (fun hstage => ?_) hdiscard
  obtain ⟨h1, h2⟩ := hsources hstage
  simp only [view, h1, h2]

lemma frame_processes (e : ListEngine) (seg : SegPtr) (f : ℕ → ℕ) :
    Frame e (e.modifySeg seg fun s => { s with processes := f s.processes }) := by
  refine ⟨rfl, fun p => ?_, fun p => ?_, rfl, rfl, rfl⟩ <;>
  · by_cases hp : p = seg
    · subst hp
      simp [modifySeg]
    · simp [modifySeg, hp]

/-- The release of one source, if forgetting it changes the two pointers only. -/
lemma frame_releaseSource {source : Merger → Option SegPtr} {forget : Merger → Merger}
    (hexec : e.releaseSource source forget = .ok e')
    (hforget : ∀ merger, ∃ mseg1 mseg2, forget merger = { merger with mseg1, mseg2 }) :
    Frame e e' ∧ e'.merger.mergeStage = e.merger.mergeStage ∧
      e'.merger.deleted = e.merger.deleted ∧ e'.freedDocs = e.freedDocs := by
  obtain ⟨m, -, -, ⟨-, rfl⟩ | ⟨-, rfl⟩⟩ := releaseSource_cases hexec
  · exact ⟨.refl _, rfl, rfl, rfl⟩
  · obtain ⟨mseg1, mseg2, heq⟩ := hforget e.merger
    rw [heq]
    exact ⟨⟨rfl, fun _ => rfl, fun _ => rfl, rfl, rfl, rfl⟩, rfl, rfl, rfl⟩

lemma frame_releaseMseg1 (hexec : e.releaseMseg1 = .ok e') :
    Frame e e' ∧ e'.merger.mergeStage = e.merger.mergeStage ∧
      e'.merger.deleted = e.merger.deleted ∧ e'.freedDocs = e.freedDocs :=
  frame_releaseSource hexec fun merger => ⟨none, merger.mseg2, rfl⟩

lemma frame_releaseMseg2 (hexec : e.releaseMseg2 = .ok e') :
    Frame e e' ∧ e'.merger.mergeStage = e.merger.mergeStage ∧
      e'.merger.deleted = e.merger.deleted ∧ e'.freedDocs = e.freedDocs :=
  frame_releaseSource hexec fun merger => ⟨merger.mseg1, none, rfl⟩

lemma frame_setStage (e : ListEngine) (freedSegs : List SegPtr) (freedDocs : List DocPtr)
    (stage : ℕ) : Frame e ({ e with freedSegs, freedDocs }.setStage stage) :=
  ⟨rfl, fun _ => rfl, fun _ => rfl, rfl, rfl, rfl⟩

/-- The release only moves pointers; it discards the new segment only if that is not listed. -/
lemma Inv.step_release (h : Inv cap heap as e log) (hexec : e.mergeProcRelease = .ok e') :
    View.Step (pkOf heap) .procRelease e.view e'.view := by
  unfold Engine.mergeProcRelease at hexec
  split_ifs at hexec with hstage
  · obtain rfl := Except.ok.inj hexec
    exact (Frame.refl e).step (by simp [View.Touches]) (.stay _) (fun _ => ⟨rfl, rfl⟩)
      fun _ h6 => by
      simp_all
  have hstage : e.merger.mergeStage = 3 := by simpa using hstage
  obtain ⟨e₁, h1, hexec⟩ := bind_eq_ok.mp hexec
  obtain ⟨e₂, h2, hexec⟩ := bind_eq_ok.mp hexec
  obtain ⟨hf₁, hs₁, -⟩ := frame_releaseMseg1 h1
  obtain ⟨hf₂, hs₂, -⟩ := frame_releaseMseg2 h2
  obtain ⟨hinv₁, hstage₁⟩ := h.releaseMseg1 hstage h1
  obtain ⟨hinv₂, hstage₂⟩ := hinv₁.releaseMseg2 hstage₁ h2
  have hf := hf₁.trans hf₂
  split_ifs at hexec
  · obtain ⟨n, hnew, -, heq⟩ := hinv₂.releaseDocuments_spec hstage₂
    rw [heq] at hexec
    split_ifs at hexec with hpos
    · obtain rfl := Except.ok.inj hexec
      refine (hf.trans (frame_setStage e₂ e₂.freedSegs _ 4)).step (by simp [View.Touches]) ?_
        (fun _ => by omega) fun _ h6 => absurd h6 (by simp [setStage])
      rw [hstage]
      exact .release
    · obtain rfl := Except.ok.inj hexec
      refine (hf.trans (frame_setStage e₂ (n :: e₂.freedSegs) _ 6)).step (by simp [View.Touches]) ?_
        (fun _ => by omega) fun _ _ n' hn' hmem => ?_
      · rw [hstage]
        exact .discard
      -- the discarded segment is empty, so it was never linked
      obtain rfl : n = n' := Option.some.inj ((hnew.newseg.symm.trans hf.newseg).trans hn')
      rw [← hf.segments, hnew.mem_iff] at hmem
      omega
  · obtain rfl := Except.ok.inj hexec
    refine hf.step (by simp [View.Touches]) ?_ (fun _ => by omega) fun _ h6 => by omega
    rw [hs₂, hs₁]
    exact .stay _

lemma step_check (hexec : e.mergeProcCheck = .ok e') :
    View.Step (pkOf heap) .procCheck e.view e'.view := by
  unfold Engine.mergeProcCheck at hexec
  have hstay : View.Step (pkOf heap) .procCheck e.view e.view :=
    (Frame.refl e).step (by simp [View.Touches]) (.stay _) (fun _ => ⟨rfl, rfl⟩) fun _ h6 => by
      simp_all
  split_ifs at hexec with hstage
  · obtain rfl := Except.ok.inj hexec
    exact hstay
  have hstage : e.merger.mergeStage = 0 := by simpa using hstage
  obtain ⟨r, -, hexec⟩ := bind_eq_ok.mp hexec
  match r, hexec with
  | none, hexec =>
      obtain rfl := Except.ok.inj hexec
      exact hstay
  | some (m1, m2), hexec =>
      obtain rfl := Except.ok.inj hexec
      have hf : Frame e ({ e with merger := { e.merger with
          mseg1 := some m1, mseg2 := some m2 } }.setStage 1) :=
        ⟨rfl, fun _ => rfl, fun _ => rfl, rfl, rfl, rfl⟩
      refine hf.step (by simp [View.Touches]) ?_ (fun _ => by omega) fun _ _ => by omega
      rw [hstage]
      exact .check

/-! ## Removing and adding -/

/-- The segments after the loop over all of them. -/
def removedSegs (e : ListEngine) (k : ℕ) (p : SegPtr) : Segment :=
  if p ∈ e.segments then ((e.segs p).removeDocument e.docs k).2 else e.segs p

lemma removedSegs_pkMapping (e : ListEngine) (k : ℕ) (p : SegPtr) :
    (e.removedSegs k p).pkMapping = (e.segs p).pkMapping := by
  unfold removedSegs
  split_ifs
  · exact (bitsAdded_removeDocument _ _ _).pkMapping_eq
  · rfl

lemma removedSegs_docPtrs (e : ListEngine) (k : ℕ) (p : SegPtr) :
    (e.removedSegs k p).docPtrs = (e.segs p).docPtrs := by
  rw [docPtrs, removedSegs_pkMapping, docPtrs]

/-- **The loop deletes exactly the documents of the key**, where ids can be trusted. -/
lemma Inv.removed (h : Inv cap heap as e log) (k : ℕ) :
    View.Removed (pkOf heap) k e.view
      fun p => {x | (e.removedSegs k p).isDeleted e.docs x = true} := by
  have hseg : ∀ p ∈ e.segments, e.removedSegs k p = ((e.segs p).removeDocument e.docs k).2 :=
    fun p hp => if_pos hp
  refine ⟨fun p hp x hx hor => ?_, fun p hp hm x hx hdel => ?_⟩
  · have hlog := (h.mem_docPtrs hp).mp hx
    show (e.removedSegs k p).isDeleted e.docs x = true
    rw [hseg p hp]
    rcases hor with hdel | hk
    · exact (bitsAdded_removeDocument _ _ _).isDeleted_iff.mpr (.inl hdel)
    · rw [← hk, h.pkOf_eq]
      exact (h.represents p hp).isDeleted_removeDocument hlog
  · have hlog := (h.mem_docPtrs hp).mp hx
    have hsound := h.sound p hp hm
    have hdel : (e.removedSegs k p).isDeleted e.docs x = true := hdel
    rw [hseg p hp] at hdel
    rw [h.pkOf_eq]
    exact (isDeleted_removeDocument_iff hsound.toIndexed hsound.toIds hlog).mp hdel

lemma Inv.step_remove (h : Inv cap heap as e log) (k : ℕ) :
    View.Step (pkOf heap) (.remove k) e.view (e.removeDocumentHandler k).view := by
  have hstep := View.Step.remove (v := e.view) (h.removed k) fun p hp => by
    have hseg : e.removedSegs k p = e.segs p := if_neg hp
    exact congrArg (fun seg : Segment => {x | seg.isDeleted e.docs x = true}) hseg
  convert hstep using 1
  have hdocs : ∀ p, (e.removedSegs k p).docPtrs = (e.segs p).docPtrs := removedSegs_docPtrs e k
  unfold Engine.removeDocumentHandler
  rw [removeFromAll_list h.nodup]
  dsimp only
  split_ifs with hstage
  · simp only [view, Nat.pos_iff_ne_zero.mp hstage, ne_eq, not_false_eq_true, true_and,
      List.mem_append, List.mem_singleton]
    simp only [removedSegs] at hdocs
    simp only [hdocs]
    rfl
  · have h0 : e.merger.mergeStage = 0 := by omega
    simp only [view, h0, ne_eq, not_true_eq_false, false_and, or_false]
    simp only [removedSegs] at hdocs
    simp only [hdocs]
    rfl

/-- What rolling over changes: the old active segment's state, and possibly an empty segment at
the head of the list. -/
structure RolledOver (e e₁ : ListEngine) : Prop where
  docs : e₁.docs = e.docs
  merger : e₁.merger = e.merger
  pkMapping : ∀ p, p ≠ e.nextSeg → (e₁.segs p).pkMapping = (e.segs p).pkMapping
  deletion : ∀ p, p ≠ e.nextSeg → (e₁.segs p).deletion = (e.segs p).deletion
  mem : ∀ p, p ∈ e₁.segments ↔ p ∈ e.segments ∨ p = e₁.segmentActive
  active : e₁.segmentActive = e.segmentActive ∧ e₁ = e ∨
    e₁.segmentActive = e.nextSeg ∧ e₁.segs e.nextSeg = Segment.new

lemma Inv.rolledOver (h : Inv cap heap as e log) : RolledOver e (e.rollOver cap) := by
  by_cases hfull : cap ≤ (e.segs e.segmentActive).numTotalDocs
  · rw [rollOver_of_le hfull (h.lt _ h.active)]
    refine ⟨rfl, rfl, fun p hp => ?_, fun p hp => ?_, fun p => ?_,
      .inr ⟨rfl, rolledOver_segs_nextSeg e⟩⟩
    · obtain ⟨k, hk⟩ := rolledOver_segs hp
      rw [hk]
    · obtain ⟨k, hk⟩ := rolledOver_segs hp
      rw [hk]
    · exact mem_rolledOver_segments.trans or_comm
  · rw [rollOver_of_lt (by omega)]
    exact ⟨rfl, rfl, fun _ _ => rfl, fun _ _ => rfl, fun p => ⟨.inl, fun hp =>
      hp.elim id fun he => he ▸ h.active⟩, .inl ⟨rfl, rfl⟩⟩

/-- What the segments hold does not change, and the new one is empty. -/
lemma RolledOver.mem_docPtrs {e₁ : ListEngine} (hroll : RolledOver e e₁)
    (h : Inv cap heap as e log) (hp : p ∈ e.segments ∨ p = e₁.segmentActive) :
    x ∈ (e₁.segs p).docPtrs ↔ p ∈ e.segments ∧ x ∈ (e.segs p).docPtrs := by
  by_cases hnext : p = e.nextSeg
  · have hnot : p ∉ e.segments := fun hmem => (h.lt p hmem).ne hnext
    rcases hroll.active with ⟨hactive, -⟩ | ⟨-, hnew⟩
    · have hmem := h.active
      rw [← hactive, ← hp.resolve_left hnot] at hmem
      exact absurd hmem hnot
    · simp [hnext, hnew, hnext ▸ hnot, Segment.new, docPtrs]
  · have hmem : p ∈ e.segments := hp.elim id fun he => by
      rcases hroll.active with ⟨hactive, -⟩ | ⟨hactive, -⟩
      · rw [he, hactive]
        exact h.active
      · exact absurd (he.trans hactive) hnext
    simp [docPtrs, hroll.pkMapping p hnext, hmem]

lemma RolledOver.docPtrs_of_ne {e₁ : ListEngine} (hroll : RolledOver e e₁)
    (hne : p ≠ e₁.segmentActive) : (e₁.segs p).docPtrs = (e.segs p).docPtrs := by
  rcases hroll.active with ⟨-, heq⟩ | ⟨hactive, -⟩
  · rw [heq]
  · have hnext : p ≠ e.nextSeg := fun he => hne (he.trans hactive.symm)
    rw [docPtrs, hroll.pkMapping p hnext]
    rfl

lemma RolledOver.isDeleted_eq {e₁ : ListEngine} (hroll : RolledOver e e₁)
    (h : Inv cap heap as e log) (hp : p ∈ e.segments) (x : DocPtr) :
    (e₁.segs p).isDeleted e₁.docs x = (e.segs p).isDeleted e.docs x := by
  rw [isDeleted, isDeleted, hroll.docs, hroll.deletion p (h.lt p hp).ne]

/-- The add handler as the three parts it is made of. -/
lemma Inv.addDocumentHandler_eq (h : Inv cap heap as e log) (hcap : 1 ≤ cap)
    (hcheck : (e.docs d).check = true) :
    ∃ e₁, RolledOver e e₁ ∧ (∃ log₁, Inv cap heap as e₁ log₁) ∧
      e.addDocumentHandler cap d = { e₁ with
        docs := e.docs.setDocId d (e₁.removedSegs (e.docs d).pk e₁.segmentActive).generator.start
        segs := Function.update (e₁.removedSegs (e.docs d).pk) e₁.segmentActive
          ((e₁.removedSegs (e.docs d).pk e₁.segmentActive).addDocument e.docs d).2.2 } := by
  obtain ⟨log₁, h₁, -⟩ := h.rollOver hcap
  have hroll := h.rolledOver
  refine ⟨e.rollOver cap, hroll, ⟨log₁, h₁⟩, ?_⟩
  unfold Engine.addDocumentHandler
  generalize e.rollOver cap = e₁ at h₁ hroll
  dsimp only
  rw [← hroll.docs] at hcheck ⊢
  rw [removeFromAll_list h₁.nodup, addToActive_eq (by exact hcheck)]
  rfl

/-- The segments the merger refers to are never the active one. -/
lemma Inv.inactive_of_merger (h : Inv cap heap as e log) :
    (e.merger.mergeStage = 1 ∨ e.merger.mergeStage = 2 → ∀ m,
      e.merger.mseg1 = some m ∨ e.merger.mseg2 = some m → m ≠ e.segmentActive) ∧
    (2 ≤ e.merger.mergeStage → e.merger.mergeStage ≤ 5 →
      e.merger.newseg ≠ some e.segmentActive) := by
  have hsrc : ∀ {m1 m2}, Sources e log m1 m2 → ∀ m,
      e.merger.mseg1 = some m ∨ e.merger.mseg2 = some m → m ≠ e.segmentActive := by
    intro m1 m2 hsrc m hm
    rcases hsrc.eq_or_eq hm with rfl | rfl
    · exact hsrc.inactive1
    · exact hsrc.inactive2
  have hlinked : ∀ {n}, Linked e n → e.merger.newseg ≠ some e.segmentActive := fun hnew he =>
    hnew.inactive (Option.some.inj (hnew.newseg.symm.trans he))
  cases h.phase with
  | idle hstage => exact ⟨by omega, by omega⟩
  | checked m1 m2 hstage _ hs => exact ⟨fun _ => hsrc hs, by omega⟩
  | migrated m1 m2 n hstage _ hs hnew =>
      refine ⟨fun _ => hsrc hs, fun _ _ he => hnew.notMem ?_⟩
      exact Option.some.inj (hnew.newseg.symm.trans he) ▸ h.active
  | replaced n hstage _ hnew => exact ⟨by omega, fun _ _ => hlinked hnew⟩
  | released n hstage _ hnew => exact ⟨by omega, fun _ _ => hlinked hnew⟩
  | redeleting n hstage _ hnew => exact ⟨by omega, fun _ _ => hlinked hnew⟩
  | finished hstage => exact ⟨by omega, by omega⟩

/-- The new segment between migration and replacement. -/
lemma Inv.unlinked (h : Inv cap heap as e log) (hstage : e.merger.mergeStage = 2)
    (hnewseg : e.merger.newseg = some p) : ∃ m2 ∈ e.segments, Unlinked cap e log m2 p := by
  cases h.phase with
  | migrated m1 m2 n _ _ hsrc hnew =>
      obtain rfl : n = p := Option.some.inj (hnew.newseg.symm.trans hnewseg)
      exact ⟨m2, hsrc.mem2, hnew⟩
  | _ => omega

/-- A document that has not been added is in no segment, the merged one included. -/
lemma Inv.not_mem_docPtrs (h : Inv cap heap as e log) (hfresh : .add d ∉ as)
    (hp : p ∈ e.segments ∨ e.merger.mergeStage = 2 ∧ e.merger.newseg = some p) :
    d ∉ (e.segs p).docPtrs := by
  rcases hp with hp | ⟨hstage, hnewseg⟩
  · exact fun hd => h.not_mem_log hfresh hp ((h.mem_docPtrs hp).mp hd)
  · obtain ⟨m2, hm2, hnew⟩ := h.unlinked hstage hnewseg
    exact fun hd => h.not_mem_log hfresh hm2
      (hnew.fromSource d (hnew.sound.mem_docPtrs.mp hd))

lemma Inv.step_add (h : Inv cap heap as e log) (hcap : 1 ≤ cap)
    (hen : (Action.add d).Enabled cap as e) :
    View.Step (pkOf heap) (.add d) e.view (e.addDocumentHandler cap d).view := by
  obtain ⟨hcheck, hfresh, -⟩ := hen
  obtain ⟨e₁, hroll, ⟨log₁, h₁⟩, heq⟩ := h.addDocumentHandler_eq hcap hcheck
  rw [heq]
  have hk : (e.docs d).pk = pkOf heap d := (h.pkOf_eq d).symm
  have hrem := h₁.removed (e.docs d).pk
  have hsound : (e₁.removedSegs (e.docs d).pk e₁.segmentActive).Sound e.docs
      (log₁ e₁.segmentActive) := by
    have h₂ := h₁.removeFromAll (e.docs d).pk
    rw [removeFromAll_list h₁.nodup] at h₂
    exact hroll.docs ▸ h₂.sound _ h₂.active h₂.not_merging_active
  have hptrs := removedSegs_docPtrs e₁ (e.docs d).pk
  -- what the segments held before rolling over, they hold before the addition
  have hheld : ∀ p, (p ∈ e.segments ∨ p = e₁.segmentActive) → ∀ x,
      x ∈ (e₁.removedSegs (e.docs d).pk p).docPtrs ↔ p ∈ e.segments ∧ x ∈ (e.segs p).docPtrs := by
    intro p hp x
    rw [hptrs]
    exact hroll.mem_docPtrs h hp
  have hmem₁ : ∀ p ∈ e.segments, p ∈ e₁.segments := fun p hp => (hroll.mem p).mpr (.inl hp)
  generalize hR : e₁.removedSegs (e.docs d).pk = R at hrem hsound hptrs hheld
  generalize hseg : ((R e₁.segmentActive).addDocument e.docs d).2.2 = seg'
  generalize hid : (R e₁.segmentActive).generator.start = id
  -- the deletions of the documents held before are those that the loop leaves
  have hdel : ∀ p ∈ e.segments, ∀ x ∈ (e.segs p).docPtrs,
      (Function.update R e₁.segmentActive seg' p).isDeleted (e.docs.setDocId d id) x = true ↔
        (R p).isDeleted e₁.docs x = true := by
    intro p hp x hx
    have hne : x ≠ d := fun he => h.not_mem_docPtrs hfresh (.inl hp) (he ▸ hx)
    rw [hroll.docs]
    by_cases hactive : p = e₁.segmentActive
    · subst hactive
      rw [Function.update_self, ← hseg, ← hid, isDeleted_addDocument hcheck hne]
    · rw [Function.update_of_ne hactive, isDeleted, isDeleted, DocHeap.setDocId_of_ne _ _ hne]
  have hstep := @View.Step.add (pkOf heap) d e.view e₁.segmentActive
    (fun p => {x | x ∈ (Function.update R e₁.segmentActive seg' p).docPtrs})
    (fun p => {x | (Function.update R e₁.segmentActive seg' p).isDeleted
      (e.docs.setDocId d id) x = true}) ?_
    (fun p hp => h.not_mem_docPtrs hfresh hp) ?_ ?_ ?_ ?_ ?_
  · convert hstep using 1
    simp only [view, hroll.merger, hroll.mem]
    rfl
  · refine ⟨fun p hp x hx hor => ?_, fun p hp hm x hx hdel' => ?_⟩
    · refine (hdel p hp x hx).mpr (hrem.deleted p (hmem₁ p hp) x ?_ ?_)
      · show x ∈ (e₁.segs p).docPtrs
        rw [← hptrs]
        exact (hheld p (.inl hp) x).mpr ⟨hp, hx⟩
      · rw [hk]
        exact hor.imp_left fun hdel => (hroll.isDeleted_eq h hp x).trans hdel
    · have hm₁ : ¬e₁.view.Merging p := fun hm₁ => hm (by
        simpa [View.Merging, view, hroll.merger] using hm₁)
      have hx₁ : x ∈ e₁.view.holds p := by
        show x ∈ (e₁.segs p).docPtrs
        rw [← hptrs]
        exact (hheld p (.inl hp) x).mpr ⟨hp, hx⟩
      rw [← hk]
      exact (hrem.kept p (hmem₁ p hp) hm₁ x hx₁ ((hdel p hp x hx).mp hdel')).imp_left
        fun hdel => (hroll.isDeleted_eq h hp x).symm.trans hdel
  · intro x
    show x ∈ (Function.update R e₁.segmentActive seg' e₁.segmentActive).docPtrs ↔ _
    rw [Function.update_self, ← hseg, mem_docPtrs_addDocument hsound.pkWf hcheck,
      hheld _ (.inr rfl)]
    rfl
  · intro p hne
    show {x | x ∈ (Function.update R e₁.segmentActive seg' p).docPtrs} = _
    rw [Function.update_of_ne hne, hptrs, hroll.docPtrs_of_ne hne]
    rfl
  · show ¬(Function.update R e₁.segmentActive seg' e₁.segmentActive).isDeleted _ d = true
    rw [Function.update_self, ← hid,
      hsound.toIds.not_isDeleted_addDocument hsound.toDeletions (by
        rw [← hseg, (addDocument_added _ _ hcheck).deletion])]
    simp
  · intro hstage hmem
    rw [show e.view.stage = e₁.merger.mergeStage by rw [hroll.merger]; rfl] at hstage
    refine h₁.inactive_of_merger.1 hstage e₁.segmentActive ?_ rfl
    rw [hroll.merger]
    exact hmem
  · intro h2 h5 he
    rw [show e.view.stage = e₁.merger.mergeStage by rw [hroll.merger]; rfl] at h2 h5
    refine h₁.inactive_of_merger.2 h2 h5 ?_
    rw [hroll.merger]
    exact he

/-! ## Merging -/

lemma Inv.step_migrate (h : Inv cap heap as e log) (hexec : e.mergeProcMigrate = .ok e') :
    View.Step (pkOf heap) .procMigrate e.view e'.view := by
  by_cases hstage : e.merger.mergeStage ≠ 1
  · obtain rfl := Except.ok.inj ((if_pos hstage).symm.trans hexec)
    exact (Frame.refl e).step (by simp [View.Touches]) (.stay _) (fun _ => ⟨rfl, rfl⟩)
      fun _ h6 => by
      simp_all
  have hstage : e.merger.mergeStage = 1 := not_not.mp hstage
  obtain ⟨m1, m2, s, hsrc, hcopied, -, heq⟩ := h.mergeProcMigrate_eq hstage
  obtain rfl := Except.ok.inj (heq.symm.trans hexec)
  refine @View.Step.migrate (pkOf heap) e.view m1 m2 e.nextSeg
    (fun p => {x | x ∈ ((e.migrated s).segs p).docPtrs})
    (fun p => {x | ((e.migrated s).segs p).isDeleted s.1 x = true})
    hstage ?_ hsrc.mem1 hsrc.mem2 ?_ (fun hmem => (h.lt _ hmem).ne rfl) ?_ ?_ ?_ ?_
  · ext p
    simp only [view, hsrc.mseg1, hsrc.mseg2, Option.some.injEq]
    exact or_congr eq_comm eq_comm
  · exact fun x hx => hsrc.dead x ((h.mem_docPtrs hsrc.mem1).mp hx)
  · ext x
    show x ∈ ((e.migrated s).segs e.nextSeg).docPtrs ↔ _
    rw [migrated_segs_nextSeg, hcopied.sound.mem_docPtrs, List.nil_append, mem_livePtrs,
      ← Bool.not_eq_true]
    rfl
  · intro p hp
    have hseg : (e.migrated s).segs p = e.segs p := Function.update_of_ne hp _ _
    rw [hseg]
    rfl
  · intro p hp hne x hx
    show ((e.migrated s).segs p).isDeleted s.1 x = true ↔ _
    rw [h.migrated_segs hp, isDeleted,
      h.docs_of_copied hsrc hcopied hp hne ((h.mem_docPtrs hp).mp hx)]
    rfl
  · intro x hx hdel
    have hdel : (e.segs m2).isDeleted e.docs x = true := hdel
    have hframe : s.1 x = e.docs x := hcopied.frame x fun hlive => by
      rw [(mem_livePtrs.mp hlive).2] at hdel
      exact absurd hdel (by simp)
    show ((e.migrated s).segs m2).isDeleted s.1 x = true
    rw [h.migrated_segs hsrc.mem2, isDeleted, hframe]
    exact hdel

lemma Inv.step_replace (h : Inv cap heap as e log) (hqueue : .replace ∈ e.inputQueue)
    (hexec : (e.dequeue .replace).replaceSegsHandler = .ok e') :
    View.Step (pkOf heap) .replaceSegs e.view e'.view := by
  obtain ⟨m1, m2, n, hstage, hsrc, hnew, heq⟩ := h.replaceSegs_spec hqueue
  obtain rfl := Except.ok.inj (heq.symm.trans hexec)
  have hstep := @View.Step.replace (pkOf heap) e.view n hstage hnew.newseg hnew.notMem
    fun x _ => by simp [view, isDeleted, hnew.clean]
  convert hstep using 1
  have hpos : 0 < (e.segs n).numTotalDocs ↔ (e.view.holds n).Nonempty := by
    rw [hnew.sound.numTotalDocs, List.length_pos_iff_exists_mem]
    exact exists_congr fun x => hnew.sound.mem_docPtrs.symm
  have hsources : ∀ p, p ∈ e.view.sources ↔ p = m1 ∨ p = m2 := fun p => by
    simp only [view, hsrc.mseg1, hsrc.mseg2, Option.some.injEq]
    exact or_congr eq_comm eq_comm
  have hsegs : ∀ p, ((e.replaced m1 m2 n).segs p).pkMapping = (e.segs p).pkMapping ∧
      ((e.replaced m1 m2 n).segs p).deletion = (e.segs p).deletion := by
    intro p
    obtain ⟨k, hk⟩ := replaced_segs e m1 m2 n p
    rw [hk]
    exact ⟨rfl, rfl⟩
  have hlisted : ∀ p, p ∈ e.replacedSegments m1 m2 n ↔
      p ∈ e.segments ∧ p ∉ e.view.sources ∨ p = n ∧ (e.view.holds n).Nonempty := by
    intro p
    rw [hsources, not_or, ← hpos, h.mem_replacedSegments, or_comm]
  have hfields : (e.replaced m1 m2 n).view =
      { e.view with listed := {p | p ∈ e.replacedSegments m1 m2 n}, stage := 3 } := by
    unfold view
    simp only [docPtrs, isDeleted, (hsegs _).1, (hsegs _).2]
    rfl
  have hset : {p | p ∈ e.replacedSegments m1 m2 n} =
      {p | p ∈ e.segments ∧ p ∉ e.view.sources ∨ p = n ∧ (e.view.holds n).Nonempty} :=
    Set.ext hlisted
  rw [hfields, hset]
  rfl

lemma Inv.step_redelete (h : Inv cap heap as e log) (hqueue : .redelete ∈ e.inputQueue)
    (hexec : (e.dequeue .redelete).redeleteHandler = .ok e') :
    View.Step (pkOf heap) .redelete e.view e'.view := by
  obtain ⟨n, hstage, hnew, hmem, heq⟩ := h.redelete_spec hqueue
  obtain rfl := Except.ok.inj (heq.symm.trans hexec)
  have hbits := bitsAdded_foldl_removeDocument e.docs (e.segs n) e.merger.mergingDeletion
  have hsound := h.sound n hmem fun hm => by simp [Merging, hstage] at hm
  generalize (e.merger.mergingDeletion.foldl
    (fun seg pk => (seg.removeDocument e.docs pk).2) (e.segs n)) = seg' at hbits
  have hstep := @View.Step.redelete (pkOf heap) e.view n
    (fun p => {x | (Function.update e.segs n seg' p).isDeleted e.docs x = true})
    hstage hnew.newseg hmem ?_ ?_
  · convert hstep using 1
    have hptrs : ∀ p, (Function.update e.segs n seg' p).docPtrs = (e.segs p).docPtrs := by
      intro p
      by_cases hp : p = n
      · subst hp
        rw [Function.update_self, hbits.docPtrs_eq]
      · rw [Function.update_of_ne hp]
    unfold view
    simp only [hptrs]
  · intro p hp
    show {x | (Function.update e.segs n seg' p).isDeleted e.docs x = true} = _
    rw [Function.update_of_ne hp]
    rfl
  · intro x hx
    have hlog := hsound.mem_docPtrs.mp hx
    show (Function.update e.segs n seg' n).isDeleted e.docs x = true ↔ _
    rw [Function.update_self, hbits.isDeleted_iff]
    refine or_congr_right ⟨?_, fun hpend => ⟨_, hpend, x, ?_, rfl⟩⟩
    · -- a bit was set for some document of a pending key, and ids are distinct
      rintro ⟨k, hk, y, hy, hid⟩
      obtain ⟨hylog, hpk⟩ := hsound.mem_entries.mp hy
      rw [← hsound.injOn hylog hlog hid]
      show pkOf heap y ∈ e.merger.mergingDeletion
      rw [h.pkOf_eq, hpk]
      exact hk
    · exact hsound.mem_entries.mpr ⟨hlog, (h.pkOf_eq x).symm⟩

/-! ## Every step -/

lemma view_processes (e : ListEngine) (seg : SegPtr) (f : ℕ → ℕ) {a : Action}
    (ha : ¬View.Touches a) : View.Step (pkOf heap) a e.view
      (e.modifySeg seg fun s => { s with processes := f s.processes }).view :=
  (frame_processes e seg f).step ha (.stay _) (fun _ => ⟨rfl, rfl⟩) fun h3 h6 => by
    have h6 : e.merger.mergeStage = 6 := h6
    omega

/-- **Simulation.**  Every action the engine executes is a step of the view. -/
lemma Inv.step (h : Inv cap heap as e log) (hcap : 1 ≤ cap) {a : Action}
    (hen : a.Enabled cap as e) (hexec : Engine.exec cap a e = .ok e') :
    View.Step (pkOf heap) a e.view e'.view := by
  cases a with
  | add d =>
      obtain rfl := Except.ok.inj hexec
      exact h.step_add hcap hen
  | remove k =>
      obtain rfl := Except.ok.inj hexec
      exact h.step_remove k
  | replaceSegs => exact h.step_replace hen hexec
  | redelete => exact h.step_redelete hen hexec
  | procCheck => exact step_check hexec
  | procMigrate => exact h.step_migrate hexec
  | procRelease => exact h.step_release hexec
  | procRedelete =>
      obtain rfl := Except.ok.inj hexec
      unfold Engine.mergeProcRedelete
      split_ifs with hstage
      · refine (Frame.refl e).step (by simp [View.Touches]) (.stay _) (fun _ => ⟨rfl, rfl⟩) ?_
        omega
      · have hstage : e.merger.mergeStage = 4 := by simpa using hstage
        have hf : Frame e (e.redeleteEnqueue.setStage 5) :=
          ⟨rfl, fun _ => rfl, fun _ => rfl, rfl, rfl, rfl⟩
        refine hf.step (by simp [View.Touches]) ?_ (fun _ => ⟨rfl, rfl⟩) (by omega)
        rw [hstage]
        exact .redelete
  | procReset =>
      obtain rfl := Except.ok.inj hexec
      unfold Engine.mergeProcReset
      split_ifs with hstage
      · refine (Frame.refl e).step (by simp [View.Touches]) (.stay _) (fun _ => ⟨rfl, rfl⟩) ?_
        omega
      · have hstage : e.merger.mergeStage = 6 := by simpa using hstage
        have hf : Frame e ({ e with merger := { e.merger with deleted := [] } }.setStage 0) :=
          ⟨rfl, fun _ => rfl, fun _ => rfl, rfl, rfl, rfl⟩
        refine hf.step (by simp [View.Touches]) ?_ (fun _ => ⟨rfl, rfl⟩) (by omega)
        rw [hstage]
        exact .reset
  | lookupEnter seg =>
      obtain rfl := Except.ok.inj hexec
      exact view_processes e seg (fun k => (k + 1) % 2 ^ 32) (by simp [View.Touches])
  | lookupLeave seg =>
      obtain rfl := Except.ok.inj hexec
      exact view_processes e seg (fun k => (k + (2 ^ 32 - 1)) % 2 ^ 32) (by simp [View.Touches])

end Engine

end TsEngine
