import TsEngine.Engine.Reachable
import TsEngine.Framework.Utlist

/-!
# The segment list on pointers

The engine of `Engine.Model` with its segments on an explicit `prev` and `next` list.  It runs in
step with the engine over an abstract sequence (`Inv.exec_relist`), except for one thing:
`ts_engine_new` installs the first segment by a plain assignment, which leaves the `prev` pointer
of the list head null until that segment is deleted.  A replace handler that deletes the list head
before then fails the assertion of `DL_DELETE`.

`replace_chain_iff` says exactly when the handler succeeds, and that the chain of the segments is
then what it should be.  `onPointers_of_run` follows the engine on pointers along a run on the
sequence, up to the first assertion that fails.
-/

namespace TsEngine

open Framework

/-- A fault in a list macro, as a fault of the engine. -/
def Fault.ofUtlist : Utlist.Error → Fault
  | .assertion => .assertion
  | .nullDereference => .nullDereference

/-- The segment list on the `prev` and `next` fields of the segments. -/
instance : SegmentList (Utlist SegPtr) where
  single := Utlist.single
  foreach n l := l.foreach n
  dlPrepend := Utlist.dlPrepend
  dlDelete seg l := (l.dlDelete seg).mapError Fault.ofUtlist

lemma SegmentList.dlDelete_utlist (seg : SegPtr) (l : Utlist SegPtr) :
    dlDelete seg l = (l.dlDelete seg).mapError Fault.ofUtlist := rfl

/-- The engine over a list of pointers. -/
abbrev PtrEngine := Engine (Utlist SegPtr)

namespace Engine

variable {cap : ℕ} {heap : DocHeap} {as : List Action} {l : List (PtrEngine × Action)}
  {e e' : ListEngine} {u : Utlist SegPtr} {log : SegPtr → List DocPtr}

/-- The same engine over another segment list. -/
def relist {L L' : Type} (segments : L') (e : Engine L) : Engine L' :=
  { e with segments := segments }

/-! ## What does not look at the list -/

section Relist

variable {L L' : Type} (v : L') (e : Engine L)

@[simp] lemma relist_docs : (e.relist v).docs = e.docs := rfl

@[simp] lemma relist_segs : (e.relist v).segs = e.segs := rfl

@[simp] lemma relist_merger : (e.relist v).merger = e.merger := rfl

lemma relist_deref (seg : Option SegPtr) : (e.relist v).deref seg = e.deref seg := by
  cases seg <;> rfl

lemma relist_mergeProcMigrate :
    (e.relist v).mergeProcMigrate = e.mergeProcMigrate.map (relist v) := by
  simp only [mergeProcMigrate, migrateAndEnqueue, relist_merger, relist_deref, bind, Except.bind]
  refine Eq.trans ?_ (apply_ite (Except.map (relist v)) _ _ _).symm
  refine if_congr Iff.rfl rfl ?_
  cases e.deref e.merger.mseg1 with
  | error => rfl
  | ok mseg1 => cases e.deref e.merger.mseg2 <;> rfl

lemma relist_releaseSource (source : Merger → Option SegPtr) (forget : Merger → Merger) :
    (e.relist v).releaseSource source forget = (e.releaseSource source forget).map (relist v) := by
  simp only [releaseSource, relist_merger, relist_deref, bind, Except.bind]
  cases e.deref (source e.merger) with
  | error => rfl
  | ok mseg =>
      by_cases h : (e.segs mseg).processes = 0
      · simp only [relist_segs, h, if_true]
        rfl
      · simp only [relist_segs, h, if_false]
        rfl

lemma relist_releaseDocuments :
    (e.relist v).releaseDocuments = e.releaseDocuments.map (relist v) := by
  unfold releaseDocuments deref
  simp only [relist, bind, Except.bind]
  cases e.merger.newseg with
  | none => rfl
  | some newseg =>
      by_cases hfreed : newseg ∈ e.freedSegs
      · simp only [hfreed, if_true]
        rfl
      · by_cases hpos : 0 < (e.segs newseg).numTotalDocs
        · simp only [hfreed, hpos, if_true, if_false]
          rfl
        · simp only [hfreed, hpos, if_false]
          rfl

lemma relist_mergeProcRelease :
    (e.relist v).mergeProcRelease = e.mergeProcRelease.map (relist v) := by
  unfold mergeProcRelease
  refine Eq.trans ?_ (apply_ite (Except.map (relist v)) _ _ _).symm
  refine if_congr Iff.rfl rfl ?_
  rw [show (e.relist v).releaseMseg1 = e.releaseMseg1.map (relist v) from
    relist_releaseSource v e _ _]
  cases e.releaseMseg1 with
  | error => rfl
  | ok e₁ =>
      show (e₁.relist v).releaseMseg2 >>= _ = Except.map _ (e₁.releaseMseg2 >>= _)
      rw [show (e₁.relist v).releaseMseg2 = e₁.releaseMseg2.map (relist v) from
        relist_releaseSource v e₁ _ _]
      cases e₁.releaseMseg2 with
      | error => rfl
      | ok e₂ =>
          refine Eq.trans ?_ (apply_ite (Except.map (relist v)) _ _ _).symm
          exact if_congr Iff.rfl (relist_releaseDocuments v e₂) rfl

lemma relist_redeleteHandler :
    (e.relist v).redeleteHandler = e.redeleteHandler.map (relist v) := by
  simp only [redeleteHandler, relist_merger, relist_deref, bind, Except.bind]
  by_cases h : e.merger.mergingDeletion = []
  · simp only [h, if_true]
    rfl
  · simp only [h, if_false]
    cases e.deref e.merger.newseg <;> rfl

lemma relist_mergeProcRedelete :
    (e.relist v).mergeProcRedelete = e.mergeProcRedelete.relist v := by
  unfold mergeProcRedelete
  by_cases h : e.merger.mergeStage ≠ 4
  · rw [if_pos h, if_pos (by exact h)]
  · rw [if_neg h, if_neg (by exact h)]
    rfl

lemma relist_mergeProcReset : (e.relist v).mergeProcReset = e.mergeProcReset.relist v := by
  unfold mergeProcReset
  by_cases h : e.merger.mergeStage ≠ 6
  · rw [if_pos h, if_pos (by exact h)]
  · rw [if_neg h, if_neg (by exact h)]
    rfl

/-- Where the list plays no part, it stays. -/
lemma segments_of_relist {r r' : Except Fault (Engine L)} {e' : Engine L}
    (h : r = r'.map (relist e.segments)) (hr : r = .ok e') : e'.segments = e.segments := by
  obtain ⟨e'', -, rfl⟩ := map_eq_ok.mp (h.symm.trans hr)
  rfl

/-! Loops over the list do the same if they visit the same segments. -/

variable [SegmentList L] [SegmentList L']

lemma relist_removeFromAll (hlisted : (e.relist v).listed = e.listed) (pk : ℕ) :
    (e.relist v).removeFromAll pk = (e.removeFromAll pk).relist v := by
  unfold removeFromAll
  rw [hlisted]
  exact List.foldl_hom (relist v) fun _ _ => rfl

lemma relist_mergeProcCheck (hlisted : (e.relist v).listed = e.listed) :
    (e.relist v).mergeProcCheck = e.mergeProcCheck.map (relist v) := by
  have hget : (e.relist v).getSegments = e.getSegments := by
    unfold getSegments
    rw [hlisted]
    rfl
  unfold mergeProcCheck
  rw [hget]
  by_cases h : e.merger.mergeStage ≠ 0
  · rw [if_pos h, if_pos (by exact h)]
    rfl
  · rw [if_neg h, if_neg (by exact h)]
    cases e.getSegments with
    | error => rfl
    | ok r => rcases r with _ | ⟨mseg1, mseg2⟩ <;> rfl

end Relist

/-! ## What does -/

/-- The two engines visit the same segments. -/
lemma listed_relist (hu : u.Begun 0 e.segments) (hlen : e.segments.length ≤ e.nextSeg) :
    (e.relist u).listed = e.listed :=
  hu.represents.chain.foreach_eq hlen

lemma ListShape.length_le (h : ListShape cap e) : e.segments.length ≤ e.nextSeg := by
  have hsub : e.segments ⊆ List.range e.nextSeg := fun p hp => List.mem_range.mpr (h.lt p hp)
  simpa using (h.nodup.subperm hsub).length_le

/-- Rolling over prepends to both lists, or to neither. -/
lemma relist_rollOver (h : ListShape cap e) (hu : u.Begun 0 e.segments) (c : ℕ) :
    ∃ v : Utlist SegPtr, (e.relist u).rollOver c = (e.rollOver c).relist v ∧
      v.Begun 0 (e.rollOver c).segments ∧
      (e.rollOver c).segments.length ≤ (e.rollOver c).nextSeg := by
  have hne : e.segments ≠ [] := List.ne_nil_of_mem h.active
  by_cases hfull : c ≤ (e.segs e.segmentActive).numTotalDocs
  · have hnew : e.nextSeg ∉ e.segments := fun hm => lt_irrefl _ (h.lt _ hm)
    have hpos : e.nextSeg ≠ 0 := fun h0 => Nat.not_lt_zero _ (h0 ▸ h.lt _ h.active)
    refine ⟨u.dlPrepend e.nextSeg, ?_, ?_, ?_⟩
    · unfold rollOver
      rw [if_pos hfull, if_pos (by exact hfull)]
      rfl
    · unfold rollOver
      rw [if_pos hfull]
      exact hu.dlPrepend hne hnew hpos
    · unfold rollOver
      rw [if_pos hfull]
      exact Nat.succ_le_succ h.length_le
  · refine ⟨u, ?_, ?_, ?_⟩
    · unfold rollOver
      rw [if_neg hfull, if_neg (by exact hfull)]
    · rw [show e.rollOver c = e from if_neg hfull]
      exact hu
    · rw [show e.rollOver c = e from if_neg hfull]
      exact h.length_le

lemma segments_removeFromAll {L : Type} [SegmentList L] (e : Engine L) (pk : ℕ) :
    (e.removeFromAll pk).segments = e.segments := by
  unfold removeFromAll
  generalize e.listed = ps
  induction ps generalizing e with
  | nil => rfl
  | cons p ps ih => exact ih _

lemma segments_removeDocumentHandler {L : Type} [SegmentList L] (e : Engine L) (pk : ℕ) :
    (e.removeDocumentHandler pk).segments = e.segments := by
  simp only [removeDocumentHandler]
  split_ifs
  · exact segments_removeFromAll e pk
  · exact segments_removeFromAll e pk

lemma relist_addDocumentHandler (h : ListShape cap e) (hu : u.Begun 0 e.segments) (d : DocPtr) :
    ∃ v : Utlist SegPtr,
      (e.relist u).addDocumentHandler cap d = (e.addDocumentHandler cap d).relist v ∧
      v.Begun 0 (e.addDocumentHandler cap d).segments := by
  obtain ⟨v, hroll, hv, hlen⟩ := relist_rollOver h hu cap
  refine ⟨v, ?_, ?_⟩
  · unfold addDocumentHandler
    simp only [hroll, relist_docs, relist_removeFromAll v _ (listed_relist hv hlen)]
    rfl
  · show v.Begun 0 ((e.rollOver cap).removeFromAll _).segments
    rw [segments_removeFromAll]
    exact hv

/-! ## The replacement -/

/-- The replace task is in the queue alone. -/
lemma Inv.replace_queue (h : Inv cap heap as e log) (hqueue : .replace ∈ e.inputQueue) :
    e.inputQueue = [.replace] := by
  cases h.phase with
  | migrated _ _ _ _ hq => exact hq
  | _ => simp_all

/-- **The replace handler on pointers**: with sources that can be deleted one after the other it
does what it does on the sequence. -/
lemma Inv.relist_replaceSegs (h : Inv cap heap as e log) (hu : u.Begun 0 e.segments)
    (hqueue : .replace ∈ e.inputQueue) :
    ∃ m1 m2 n, e.merger.mseg1 = some m1 ∧ e.merger.mseg2 = some m2 ∧ e.merger.newseg = some n ∧
      (e.dequeue .replace).replaceSegsHandler = .ok (e.replaced m1 m2 n) ∧
      (Utlist.Deletable 0 e.segments m1 m2 → ∃ l₁ l₂ v,
        u.dlDelete m1 = .ok l₁ ∧ l₁.dlDelete m2 = .ok l₂ ∧
        ((e.relist u).dequeue .replace).replaceSegsHandler =
          .ok ((e.replaced m1 m2 n).relist v) ∧
        v.Begun 0 (e.replacedSegments m1 m2 n)) ∧
      (¬Utlist.Deletable 0 e.segments m1 m2 →
        ((e.relist u).dequeue .replace).replaceSegsHandler = .error .assertion) := by
  obtain ⟨m1, m2, n, -, hsrc, hnew, hlist⟩ := h.replaceSegs_spec hqueue
  have hderef : ∀ {q}, q ∉ e.freedSegs →
      ((e.relist u).dequeue .replace).deref (some q) = .ok q := fun hq => deref_of_not_freed hq
  have h1 : ((e.relist u).dequeue .replace).merger.mseg1 = some m1 := hsrc.mseg1
  have h2 : ((e.relist u).dequeue .replace).merger.mseg2 = some m2 := hsrc.mseg2
  have hn : ((e.relist u).dequeue .replace).merger.newseg = some n := hnew.newseg
  have hsegments : ((e.relist u).dequeue .replace).segments = u := rfl
  have hsegs : ((e.relist u).dequeue .replace).segs = e.segs := rfl
  refine ⟨m1, m2, n, hsrc.mseg1, hsrc.mseg2, hnew.newseg, hlist, fun hdel => ?_, fun hdel => ?_⟩
  · obtain ⟨l₁, l₂, hdel₁, hdel₂, hl₂⟩ := hu.dlDelete_dlDelete hsrc.mem1 hsrc.mem2 h.active hsrc.ne
      hsrc.inactive1.symm hsrc.inactive2.symm hdel
    have hmem₂ : e.segmentActive ∈ (e.segments.erase m1).erase m2 :=
      h.toListShape.mem_erase.mpr ⟨h.active, hsrc.inactive1.symm, hsrc.inactive2.symm⟩
    have hnew₂ : n ∉ (e.segments.erase m1).erase m2 := fun hm =>
      hnew.notMem (h.toListShape.mem_erase.mp hm).1
    refine ⟨l₁, l₂, if 0 < (e.segs n).numTotalDocs then l₂.dlPrepend n else l₂, hdel₁, hdel₂,
      ?_, ?_⟩
    · simp only [replaceSegsHandler, h1, h2, hn, hderef (h.notFreed m1 hsrc.mem1),
        hderef (h.notFreed m2 hsrc.mem2), hderef hnew.notFreed, hsegments, hsegs,
        SegmentList.dlDelete_utlist, hdel₁, hdel₂, Except.mapError, bind, Except.bind]
      unfold Engine.replaced
      by_cases hpos : 0 < (e.segs n).numTotalDocs
      · simp only [hpos, if_true, dequeue, modifySeg, setStage, relist, h.replace_queue hqueue]
        rfl
      · simp only [hpos, if_false, dequeue, setStage, relist, h.replace_queue hqueue]
        rfl
    · unfold replacedSegments
      split_ifs with hpos
      · exact hl₂.dlPrepend (List.ne_nil_of_mem hmem₂) hnew₂ hnew.pos.ne'
      · exact hl₂
  · have herror := hu.dlDelete_dlDelete_error hsrc.mem1 h.active hsrc.inactive1.symm hdel
    simp only [replaceSegsHandler, h1, h2, hn, hderef (h.notFreed m1 hsrc.mem1),
      hderef (h.notFreed m2 hsrc.mem2), hderef hnew.notFreed, hsegments,
      SegmentList.dlDelete_utlist, bind, Except.bind]
    rcases herror with hdel₁ | ⟨l₁, hdel₁, hdel₂⟩
    · simp only [hdel₁, Except.mapError]
      rfl
    · simp only [hdel₁, hdel₂, Except.mapError]
      rfl

/-! ## Runs -/

/-- Both sources can be deleted from the pointer list. -/
def SourcesDeletable (e : ListEngine) : Prop :=
  ∀ m1 m2, e.merger.mseg1 = some m1 → e.merger.mseg2 = some m2 →
    Utlist.Deletable 0 e.segments m1 m2

/-- **One step on pointers** is the step on the sequence, as long as no replace handler meets
sources that cannot be deleted. -/
lemma Inv.exec_relist (h : Inv cap heap as e log) (hu : u.Begun 0 e.segments) {a : Action}
    (hen : a.Enabled cap as e) (hdel : a = .replaceSegs → e.SourcesDeletable) :
    ∃ v : Utlist SegPtr, Engine.exec cap a (e.relist u) = (Engine.exec cap a e).map (relist v) ∧
      ∀ e', Engine.exec cap a e = .ok e' → v.Begun 0 e'.segments := by
  -- what is left to show of a step that does not look at the list
  have hsame : ∀ {a : Action},
      Engine.exec cap a (e.relist u) = (Engine.exec cap a e).map (relist u) →
      (∀ e', Engine.exec cap a e = .ok e' → e'.segments = e.segments) →
      ∃ v : Utlist SegPtr, Engine.exec cap a (e.relist u) = (Engine.exec cap a e).map (relist v) ∧
        ∀ e', Engine.exec cap a e = .ok e' → v.Begun 0 e'.segments := fun hexec hseg =>
    ⟨u, hexec, fun e' he' => (hseg e' he').symm ▸ hu⟩
  have hlisted := listed_relist hu h.toListShape.length_le
  cases a with
  | add d =>
      obtain ⟨v, hexec, hv⟩ := relist_addDocumentHandler h.toListShape hu d
      refine ⟨v, congrArg Except.ok hexec, fun e' he' => ?_⟩
      rw [← Except.ok.inj he']
      exact hv
  | remove k =>
      refine hsame (congrArg Except.ok ?_) fun e' he' => ?_
      · simp only [Engine.removeDocumentHandler, relist_removeFromAll u e hlisted]
        by_cases hpos : 0 < (e.removeFromAll k).merger.mergeStage
        · rw [if_pos hpos, if_pos (by exact hpos)]
          rfl
        · rw [if_neg hpos, if_neg (by exact hpos)]
      · rw [← Except.ok.inj he', segments_removeDocumentHandler]
  | replaceSegs =>
      obtain ⟨m1, m2, n, h1, h2, -, hlist, hok, -⟩ := h.relist_replaceSegs hu hen
      obtain ⟨_, _, v, -, -, hexec, hv⟩ := hok (hdel rfl m1 m2 h1 h2)
      refine ⟨v, ?_, fun e' he' => ?_⟩
      · show ((e.relist u).dequeue .replace).replaceSegsHandler =
          (e.dequeue .replace).replaceSegsHandler.map (relist v)
        rw [hexec, hlist]
        rfl
      · rw [← Except.ok.inj (hlist.symm.trans he')]
        exact hv
  | redelete =>
      exact hsame (relist_redeleteHandler u (e.dequeue .redelete)) fun e' =>
        segments_of_relist e (relist_redeleteHandler e.segments (e.dequeue .redelete))
  | procCheck =>
      exact hsame (relist_mergeProcCheck u e hlisted) fun e' =>
        segments_of_relist e (relist_mergeProcCheck e.segments e rfl)
  | procMigrate =>
      exact hsame (relist_mergeProcMigrate u e) fun e' =>
        segments_of_relist e (relist_mergeProcMigrate e.segments e)
  | procRelease =>
      exact hsame (relist_mergeProcRelease u e) fun e' =>
        segments_of_relist e (relist_mergeProcRelease e.segments e)
  | procRedelete =>
      exact hsame (congrArg Except.ok (relist_mergeProcRedelete u e)) fun e' =>
        segments_of_relist e (show _ = (Except.ok e.mergeProcRedelete).map _ from
          congrArg Except.ok (relist_mergeProcRedelete e.segments e))
  | procReset =>
      exact hsame (congrArg Except.ok (relist_mergeProcReset u e)) fun e' =>
        segments_of_relist e (show _ = (Except.ok e.mergeProcReset).map _ from
          congrArg Except.ok (relist_mergeProcReset e.segments e))
  | lookupEnter seg => exact hsame rfl fun e' he' => Except.ok.inj he' ▸ rfl
  | lookupLeave seg => exact hsame rfl fun e' he' => Except.ok.inj he' ▸ rfl

lemma enabled_relist {a : Action} : a.Enabled cap as (e.relist u) ↔ a.Enabled cap as e := by
  cases a <;> rfl

/-- **A step on pointers that does not fault** is one on the sequence. -/
lemma Inv.list_step (h : Inv cap heap as e log) (hu : u.Begun 0 e.segments) {a : Action}
    (hen : a.Enabled cap as e) {pe' : PtrEngine}
    (hexec : Engine.exec cap a (e.relist u) = .ok pe') :
    ∃ (e' : ListEngine) (v : Utlist SegPtr), Engine.exec cap a e = .ok e' ∧ pe' = e'.relist v ∧
      v.Begun 0 e'.segments := by
  have hdel : a = .replaceSegs → e.SourcesDeletable := by
    rintro rfl m1 m2 h1 h2
    obtain ⟨m1', m2', n, h1', h2', -, -, -, herror⟩ := h.relist_replaceSegs hu hen
    obtain rfl := Option.some.inj (h1'.symm.trans h1)
    obtain rfl := Option.some.inj (h2'.symm.trans h2)
    by_contra hdel
    exact absurd ((herror hdel).symm.trans hexec) (by simp)
  obtain ⟨v, heq, hv⟩ := h.exec_relist hu hen hdel
  obtain ⟨e', he, rfl⟩ := map_eq_ok.mp (heq.symm.trans hexec)
  exact ⟨e', v, he, rfl, hv e' he⟩

/-- **Every path on pointers is a path on the sequence.** -/
lemma list_path_of_path (hcap : 1 ≤ cap) {l' : List (ListEngine × Action)}
    (hrun : (engineSystem (List SegPtr) cap heap).Run l' e) (hacts : actions l' = actions l)
    (hu : u.Begun 0 e.segments) {m : List (PtrEngine × Action)} {pe : PtrEngine}
    (hpath : (engineSystem (Utlist SegPtr) cap heap).Path l (e.relist u) m pe) :
    ∃ (m' : List (ListEngine × Action)) (e' : ListEngine) (v : Utlist SegPtr),
      (engineSystem (List SegPtr) cap heap).Path l' e m' e' ∧ actions m' = actions m ∧
      pe = e'.relist v ∧ v.Begun 0 e'.segments := by
  refine System.Path.invariant (fun m pe => ∃ (m' : List (ListEngine × Action)) (e' : ListEngine)
    (v : Utlist SegPtr), (engineSystem (List SegPtr) cap heap).Path l' e m' e' ∧
    actions m' = actions m ∧ pe = e'.relist v ∧ v.Begun 0 e'.segments) ?_ ?_ hpath
  · exact ⟨[], e, u, .nil, rfl, rfl, hu⟩
  · rintro m pe a pe' - ⟨m', e', v, hpath', hacts', rfl, hv⟩ hen hexec
    have hboth : actions (m' ++ l') = actions (m ++ l) := by
      simp only [actions, List.map_append] at hacts hacts' ⊢
      rw [hacts, hacts']
    obtain ⟨log, hinv⟩ := inv_of_run hcap (hrun.append hpath')
    have hen : a.Enabled cap (actions (m' ++ l')) e' := hboth ▸ enabled_relist.mp hen
    obtain ⟨e'', v', he, rfl, hv'⟩ := hinv.list_step hv hen hexec
    exact ⟨(e', a) :: m', e'', v', hpath'.cons hen he, congrArg (a :: ·) hacts', rfl, hv'⟩

/-- **Every run on pointers is a run on the sequence.** -/
lemma list_run_of_run (hcap : 1 ≤ cap) {pe : PtrEngine}
    (hrun : (engineSystem (Utlist SegPtr) cap heap).Run l pe) :
    ∃ (l' : List (ListEngine × Action)) (e : ListEngine) (u : Utlist SegPtr),
      (engineSystem (List SegPtr) cap heap).Run l' e ∧ actions l' = actions l ∧
      pe = e.relist u ∧ u.Begun 0 e.segments :=
  list_path_of_path (e := .new heap) (u := .single 0) hcap .nil rfl (Utlist.begun_single 0) hrun

/-- **A run on the sequence is a run on pointers**, if its replace handlers meet sources that
can be deleted. -/
theorem run_of_list_run (hcap : 1 ≤ cap) {l' : List (ListEngine × Action)}
    (hrun : (engineSystem (List SegPtr) cap heap).Run l' e)
    (hdel : ∀ q ∈ l', q.2 = .replaceSegs → q.1.SourcesDeletable) :
    ∃ (l : List (PtrEngine × Action)) (u : Utlist SegPtr),
      (engineSystem (Utlist SegPtr) cap heap).Run l (e.relist u) ∧ actions l = actions l' ∧
      u.Begun 0 e.segments := by
  revert hdel
  refine System.Run.invariant (fun l' e => (∀ q ∈ l', q.2 = .replaceSegs → q.1.SourcesDeletable) →
    ∃ (l : List (PtrEngine × Action)) (u : Utlist SegPtr),
      (engineSystem (Utlist SegPtr) cap heap).Run l (e.relist u) ∧ actions l = actions l' ∧
      u.Begun 0 e.segments) ?_ ?_ hrun
  · exact fun _ => ⟨[], .single 0, .nil, rfl, Utlist.begun_single 0⟩
  · intro l' e a e' hrun' ih hen hexec hdel
    obtain ⟨hdel₁, hdel⟩ := List.forall_mem_cons.mp hdel
    obtain ⟨l, u, hrun, hacts, hu⟩ := ih hdel
    obtain ⟨log, hinv⟩ := inv_of_run hcap hrun'
    obtain ⟨v, heq, hv⟩ := hinv.exec_relist hu hen hdel₁
    have hexec : Engine.exec cap a e = .ok e' := hexec
    refine ⟨(e.relist u, a) :: l, v, hrun.step ?_ ?_, congrArg (a :: ·) hacts, hv e' hexec⟩
    · show a.Enabled cap (actions l) (e.relist u)
      rw [hacts]
      exact enabled_relist.mpr hen
    · show Engine.exec cap a (e.relist u) = _
      rw [heq, hexec]
      rfl

/-- The engine on pointers after the actions `as`, the newest first. -/
def onPointers (cap : ℕ) (heap : DocHeap) : List Action → Except Fault PtrEngine
  | [] => .ok (.new heap)
  | a :: as => onPointers cap heap as >>= Engine.exec cap a

/-- A replace handler meets sources that can be deleted. -/
def ReplacesDeletable (q : ListEngine × Action) : Prop :=
  q.2 = .replaceSegs → q.1.SourcesDeletable

/-- **The engine on pointers along a run on the sequence.**  It comes to the same state, or it fails
an assertion, in a replace handler that meets sources that cannot be deleted. -/
lemma onPointers_of_run (hcap : 1 ≤ cap) {l' : List (ListEngine × Action)}
    (hrun : (engineSystem (List SegPtr) cap heap).Run l' e) :
    (∀ q ∈ l', ReplacesDeletable q) ∧ (∃ u : Utlist SegPtr,
        onPointers cap heap (actions l') = .ok (e.relist u) ∧ u.Begun 0 e.segments) ∨
      (∃ q ∈ l', ¬ReplacesDeletable q) ∧
        onPointers cap heap (actions l') = .error .assertion := by
  refine System.Run.invariant (fun l' e => (∀ q ∈ l', ReplacesDeletable q) ∧
      (∃ u : Utlist SegPtr, onPointers cap heap (actions l') = .ok (e.relist u) ∧
        u.Begun 0 e.segments) ∨
    (∃ q ∈ l', ¬ReplacesDeletable q) ∧ onPointers cap heap (actions l') = .error .assertion)
    (.inl ⟨by simp, .single 0, rfl, Utlist.begun_single 0⟩) ?_ hrun
  intro l' e a e' hrun' ih hen hexec
  have hexec : Engine.exec cap a e = .ok e' := hexec
  rcases ih with ⟨hdel, u, hu, hbegun⟩ | ⟨⟨q, hq, hnot⟩, herror⟩
  · obtain ⟨log, hinv⟩ := inv_of_run hcap hrun'
    have hstep : onPointers cap heap (actions ((e, a) :: l')) = Engine.exec cap a (e.relist u) := by
      show onPointers cap heap (actions l') >>= Engine.exec cap a = _
      rw [hu]
      rfl
    by_cases ha : ReplacesDeletable (e, a)
    · obtain ⟨v, heq, hv⟩ := hinv.exec_relist hbegun hen ha
      refine .inl ⟨List.forall_mem_cons.mpr ⟨ha, hdel⟩, v, ?_, hv e' hexec⟩
      rw [hstep, heq, hexec]
      rfl
    · -- only a replace handler may meet sources that cannot be deleted
      refine .inr ⟨⟨_, List.mem_cons_self, ha⟩, ?_⟩
      obtain ⟨rfl, hnot⟩ := Classical.not_imp.mp ha
      obtain ⟨m1, m2, n, h1, h2, -, -, -, herror⟩ := hinv.relist_replaceSegs hbegun hen
      rw [hstep]
      refine herror fun hdel => hnot fun m1' m2' h1' h2' => ?_
      obtain rfl := Option.some.inj (h1.symm.trans h1')
      obtain rfl := Option.some.inj (h2.symm.trans h2')
      exact hdel
  · refine .inr ⟨⟨q, List.mem_cons_of_mem _ hq, hnot⟩, ?_⟩
    show onPointers cap heap (actions l') >>= Engine.exec cap a = _
    rw [herror]
    rfl

/-! ## The segment list as a doubly linked list -/

/-- **What the replace handler should do to the list** `xs`: both deletions pass their assertion,
and the `next` pointers then lead through the segments that are left, behind the new one if that
has documents. -/
def ReplacesChain (e : PtrEngine) (xs : List SegPtr) (m1 m2 n : SegPtr) : Prop :=
  ∃ l₁ l₂ e', e.segments.prev m1 ≠ none ∧ e.segments.dlDelete m1 = .ok l₁ ∧
    l₁.prev m2 ≠ none ∧ l₁.dlDelete m2 = .ok l₂ ∧
    (e.dequeue .replace).replaceSegsHandler = .ok e' ∧
    e'.segments.IsChain ((if 0 < (e.segs n).numTotalDocs then [n] else []) ++
      (xs.erase m1).erase m2)

/-- **The segment list on pointers, in every reachable state.**  Its `next` pointers form a chain.
It is well formed, with the tail in the `prev` pointer of the head, if and only if the segment
that `ts_engine_new` assigned to the head is no longer listed.  And a replace handler does what
it should if and only if that is so, or neither source is met at the head by its deletion while
that segment is still listed. -/
theorem replace_chain_iff (hcap : 1 ≤ cap) {e : PtrEngine}
    (hrun : (engineSystem (Utlist SegPtr) cap heap).Run l e) :
    ∃ xs, e.segments.IsChain xs ∧ (e.segments.WellFormed xs ↔ 0 ∉ xs) ∧
      (.replace ∈ e.inputQueue → ∃ m1 m2 n, e.merger.mseg1 = some m1 ∧
        e.merger.mseg2 = some m2 ∧ e.merger.newseg = some n ∧
        (e.ReplacesChain xs m1 m2 n ↔
          0 ∉ xs ∨ (xs.head? ≠ some m1 ∧ (xs.head? ≠ some m2 ∨ m1 = 0)))) := by
  obtain ⟨l', e, u, hrun', -, rfl, hu⟩ := list_run_of_run hcap hrun
  obtain ⟨log, hinv⟩ := inv_of_run hcap hrun'
  refine ⟨e.segments, hu.represents.chain, hu.wellFormed_iff, fun hqueue => ?_⟩
  obtain ⟨m1, m2, n, h1, h2, hn, -, hok, herror⟩ := hinv.relist_replaceSegs hu hqueue
  refine ⟨m1, m2, n, h1, h2, hn, fun ⟨_, _, _, _, _, _, _, hexec, _⟩ => ?_, fun hdel => ?_⟩
  · by_contra hdel
    exact absurd ((herror hdel).symm.trans hexec) (by simp)
  · obtain ⟨l₁, l₂, v, hdel₁, hdel₂, hexec, hv⟩ := hok hdel
    refine ⟨l₁, l₂, _, Utlist.prev_ne_none_of_dlDelete hdel₁, hdel₁,
      Utlist.prev_ne_none_of_dlDelete hdel₂, hdel₂, hexec, ?_⟩
    have hchain := hv.represents.chain
    unfold replacedSegments at hchain
    show v.IsChain _
    by_cases hpos : 0 < (e.segs n).numTotalDocs
    · rw [if_pos hpos] at hchain
      rw [relist_segs, if_pos hpos]
      exact hchain
    · rw [if_neg hpos] at hchain
      rw [relist_segs, if_neg hpos]
      exact hchain

/-- `replace_chain_iff` for a merge of the first segment with the one after it. -/
theorem replace_chain_iff_sample :
    ∃ l e, (engineSystem (Utlist SegPtr) 1 sampleHeap).Run l e ∧ .replace ∈ e.inputQueue ∧
      e.segments.IsChain [2, 1, 0] ∧ ¬e.segments.WellFormed [2, 1, 0] ∧
      e.ReplacesChain [2, 1, 0] 0 1 3 := by
  obtain ⟨l, e, hrun, htest⟩ := System.exists_run_of_execAll
    (M := engineSystem (Utlist SegPtr) 1 sampleHeap)
    (fun _ e => decide (.replace ∈ e.inputQueue ∧ e.segments.IsChain [2, 1, 0] ∧
      e.merger.mseg1 = some 0 ∧ e.merger.mseg2 = some 1 ∧ e.merger.newseg = some 3))
    [.add 1, .add 2, .add 3, .remove 1, .procCheck, .procMigrate] (by decide +kernel)
  obtain ⟨hqueue, hchain, h1, h2, hn⟩ := of_decide_eq_true htest
  obtain ⟨xs, hxs, hwf, hreplace⟩ := replace_chain_iff le_rfl hrun
  obtain rfl := hxs.unique hchain
  obtain ⟨m1, m2, n, h1', h2', hn', hiff⟩ := hreplace hqueue
  obtain rfl := Option.some.inj (h1'.symm.trans h1)
  obtain rfl := Option.some.inj (h2'.symm.trans h2)
  obtain rfl := Option.some.inj (hn'.symm.trans hn)
  exact ⟨l, e, hrun, hqueue, hchain, fun h => hwf.mp h (by decide), hiff.mpr (by decide)⟩

/-- **An assertion that fails**: the second merge deletes the segment that the first one put at
the head, while the first segment is still listed. -/
theorem replace_asserts :
    ∃ l e, (engineSystem (Utlist SegPtr) 1 sampleHeap).Run l e ∧ .replace ∈ e.inputQueue ∧
      e.segments.IsChain [5, 4, 1, 0] ∧ e.merger.mseg1 = some 1 ∧ e.merger.mseg2 = some 5 ∧
      (∃ l₁, e.segments.dlDelete 1 = .ok l₁ ∧ l₁.prev 5 = none) ∧
      (e.dequeue .replace).replaceSegsHandler = .error .assertion := by
  obtain ⟨l, e, hrun, htest⟩ := System.exists_run_of_execAll
    (M := engineSystem (Utlist SegPtr) 1 sampleHeap)
    (fun _ e => decide (.replace ∈ e.inputQueue ∧ e.segments.IsChain [5, 4, 1, 0] ∧
      e.merger.mseg1 = some 1 ∧ e.merger.mseg2 = some 5) &&
      match e.segments.dlDelete 1, (e.dequeue .replace).replaceSegsHandler with
      | .ok l₁, .error .assertion => decide (l₁.prev 5 = none)
      | _, _ => false)
    [.add 1, .add 2, .add 3, .add 4, .add 5, .remove 3, .procCheck, .procMigrate, .replaceSegs,
      .procRelease, .procRedelete, .redelete, .procReset, .remove 2, .procCheck, .procMigrate]
    (by decide +kernel)
  obtain ⟨hstate, hfault⟩ := Bool.and_eq_true_iff.mp htest
  obtain ⟨hqueue, hchain, h1, h2⟩ := of_decide_eq_true hstate
  refine ⟨l, e, hrun, hqueue, hchain, h1, h2, ?_⟩
  revert hfault
  cases e.segments.dlDelete 1 with
  | error => simp
  | ok l₁ =>
      cases (e.dequeue .replace).replaceSegsHandler with
      | error fault => cases fault <;> simp
      | ok _ => simp

end Engine

end TsEngine
