import TsEngine.Engine.Pointers
import TsEngine.Store.SegmentIndex

/-!
# A merge conserves the documents

A migration builds the new segment out of the live documents of its two sources and sets the
others aside.  `migrate_conserves` says so document by document: the new segment is consistent,
with ids `1, 2, …` in the order of insertion and no deletion bit, and it and the documents set
aside partition the documents of the sources.

Its second half is about the live documents.  If no task runs between the migration and the
replace handler, the same documents are live before the one and after the other, whether the
new segment is linked or is empty and dropped.  At the level of views this is
`View.Step.live_replace`, with `View.Step.eq_of_waiting` for the steps in between.

That the replace handler runs is a statement about the sequence of segments.  On their pointers it
may fail its assertion (`replace_asserts`); `live_of_replaced_pointers` is about the calls that
return.
-/

namespace TsEngine

open Framework Segment

namespace View

variable {pk : DocPtr → ℕ} {a : Action} {v v' v'' : View} {x : DocPtr}

/-- While the merged segment waits to be linked, only a task or the replace handler is seen. -/
lemma Step.eq_of_waiting (h : Step pk a v v') (hstage : v.stage = 2) (htask : ¬a.IsTask)
    (hreplace : a ≠ .replaceSegs) : v' = v := by
  cases h with
  | @neutral _ _ stage' _ ha hmove hsources =>
      have hstage' : stage' = 2 := hmove.stage_eq_two.mpr hstage
      rw [hsources (.inr hstage), hstage', ← hstage]
  | remove => exact absurd trivial htask
  | add => exact absurd trivial htask
  | migrate h1 => omega
  | replace => exact absurd rfl hreplace
  | redelete h5 => omega

/-- **A migration followed by the replacement keeps the live documents.** -/
lemma Step.live_replace (h : Step pk .procMigrate v v') (hstage : v.stage = 1)
    (hstage' : v'.stage = 2) (hrep : Step pk .replaceSegs v' v'') : v''.Live x ↔ v.Live x := by
  cases h with
  | neutral _ hmove => exact absurd (hmove.stage_eq_two.mp hstage') (by omega)
  | @migrate _ m1 m2 n holds' deleted' _ hsources hm1 hm2 hdead hn hcopied hholds hkept =>
  cases hrep with
  | neutral ha => exact absurd trivial ha
  | @replace _ n' _ hnewseg _ hclean =>
  obtain rfl : n = n' := Option.some.inj hnewseg
  have hmem : ∀ p, p ∈ v.sources ↔ p = m1 ∨ p = m2 := by simp [hsources]
  have hne : ∀ p ∈ v.listed, p ≠ n := fun p hp he => hn (he ▸ hp)
  constructor
  · rintro ⟨p, ⟨hp, hsrc⟩ | ⟨rfl, -⟩, hx, hlive⟩
    · -- a segment that is not a source is as it was
      have hx : x ∈ v.holds p := (Set.ext_iff.mp (hholds p (hne p hp)) x).mp hx
      have hp2 : p ≠ m2 := fun he => hsrc ((hmem p).mpr (.inr he))
      exact ⟨p, hp, hx, fun hdel => hlive ((hkept p hp hp2 x hx).mpr hdel)⟩
    · obtain ⟨hx, hlive⟩ := (Set.ext_iff.mp hcopied x).mp hx
      exact ⟨m2, hm2, hx, hlive⟩
  · rintro ⟨p, hp, hx, hlive⟩
    by_cases hp2 : p = m2
    · subst hp2
      have hxn : x ∈ holds' n := (Set.ext_iff.mp hcopied x).mpr ⟨hx, hlive⟩
      exact ⟨n, .inr ⟨rfl, x, hxn⟩, hxn, hclean x hxn⟩
    · -- the other source has no live document
      have hp1 : p ≠ m1 := fun he => hlive (he ▸ hdead (he ▸ hx))
      have hsrc : p ∉ v.sources := fun hm => ((hmem p).mp hm).elim hp1 hp2
      exact ⟨p, .inl ⟨hp, hsrc⟩, (Set.ext_iff.mp (hholds p (hne p hp)) x).mpr hx,
        fun hdel => hlive ((hkept p hp hp2 x hx).mp hdel)⟩

end View

namespace Engine

variable {cap : ℕ} {heap : DocHeap} {as : List Action} {l : List (ListEngine × Action)}
  {e e' : ListEngine} {log : SegPtr → List DocPtr} {m1 m2 n : SegPtr} {x : DocPtr}

/-! ## The documents -/

/-- The migration from `e` to `e'` put the documents `copied` of the sources `m1` and `m2` into
the new segment `n`, in this order, and set the others aside. -/
structure Partitioned (e e' : ListEngine) (m1 m2 n : SegPtr) (copied : List DocPtr) : Prop where
  mseg1 : e.merger.mseg1 = some m1
  mseg2 : e.merger.mseg2 = some m2
  newseg : e'.merger.newseg = some n
  consistent : (e'.segs n).Consistent e'.docs copied []
  ids : (copied.map fun x => (e'.docs x).docId) = List.range' 1 copied.length
  unchanged : e.docs.SameDocs e'.docs
  nodup : ((e.segs m1).docPtrs ++ (e.segs m2).docPtrs).Nodup
  perm : (copied ++ e'.merger.deleted).Perm ((e.segs m1).docPtrs ++ (e.segs m2).docPtrs)
  aside : ∀ m, m = m1 ∨ m = m2 → ∀ x ∈ (e.segs m).docPtrs,
    x ∈ e'.merger.deleted ↔ (e.segs m).isDeleted e.docs x = true

/-- The documents of the two sources are all different. -/
lemma Inv.nodup_sources (h : Inv cap heap as e log) (hsrc : Sources e log m1 m2) :
    ((e.segs m1).docPtrs ++ (e.segs m2).docPtrs).Nodup := by
  have h1 := h.represents m1 hsrc.mem1
  have h2 := h.represents m2 hsrc.mem2
  refine List.nodup_append.mpr ⟨h1.walk.nodup_iff.mpr h1.nodup, h2.walk.nodup_iff.mpr h2.nodup, ?_⟩
  rintro x hx y hy rfl
  exact h.disjoint m1 hsrc.mem1 m2 hsrc.mem2 hsrc.ne (h1.mem_docPtrs.mp hx) (h2.mem_docPtrs.mp hy)

/-- A segment without deletion bits is consistent with its log and no deleted document. -/
lemma consistent_of_clean {docs : DocHeap} {seg : Segment} {log : List DocPtr}
    (h : seg.Sound docs log) (hclean : ∀ i, seg.deletion.get i = false) :
    seg.Consistent docs log [] := by
  have hsize : log.length < 2 ^ 32 := by
    have hlt := h.start_lt
    rw [h.start, h.numTotalDocs] at hlt
    omega
  have hnone : (log.filter fun x => seg.isDeleted docs x) = [] :=
    List.filter_eq_nil_iff.mpr fun x _ => by simp [isDeleted, hclean]
  exact hnone ▸ h.toRepresents.consistent h.toIds hsize

/-- **The documents of a migration.** -/
lemma Inv.partitioned (h : Inv cap heap as e log) (hstage : e.merger.mergeStage = 1) :
    ∃ e' m1 m2 n copied, e.mergeProcMigrate = .ok e' ∧ e'.merger.mergeStage = 2 ∧
      Partitioned e e' m1 m2 n copied := by
  obtain ⟨m1, m2, s, hsrc, hcopied, haside, heq⟩ := h.mergeProcMigrate_eq hstage
  have hnodup := h.nodup_sources hsrc
  have hdead : ∀ x ∈ (e.segs m1).docPtrs, (e.segs m1).isDeleted e.docs x = true :=
    fun x hx => hsrc.dead x ((h.mem_docPtrs hsrc.mem1).mp hx)
  refine ⟨e.migrated s, m1, m2, e.nextSeg, (e.segs m2).livePtrs e.docs, heq, rfl, hsrc.mseg1,
    hsrc.mseg2, rfl, ?_, hcopied.ids, hcopied.sameDocs, hnodup, ?_, ?_⟩
  · have hsound := hcopied.sound
    rw [List.nil_append] at hsound
    rw [migrated_segs_nextSeg]
    exact consistent_of_clean hsound hcopied.clean
  · -- the live ones of the second source, all of the first, and the rest of the second
    have hsplit : ((e.segs m2).livePtrs e.docs ++
        (e.segs m2).docPtrs.filter fun x => (e.segs m2).isDeleted e.docs x).Perm
        (e.segs m2).docPtrs := by
      apply List.perm_append_comm.trans
      exact List.filter_append_perm (fun x => (e.segs m2).isDeleted e.docs x) _
    show (_ ++ s.2.2).Perm _
    rw [haside, ← List.append_assoc]
    have hswap : ((e.segs m2).livePtrs e.docs ++ (e.segs m1).docPtrs).Perm
        ((e.segs m1).docPtrs ++ (e.segs m2).livePtrs e.docs) := List.perm_append_comm
    apply (hswap.append_right _).trans
    rw [List.append_assoc]
    exact hsplit.append_left _
  · intro m hm x hx
    show x ∈ s.2.2 ↔ _
    rw [haside, List.mem_append, List.mem_filter]
    rcases hm with rfl | rfl
    · simp [hx, hdead x hx]
    · have hnot : x ∉ (e.segs m1).docPtrs := fun hx1 =>
        List.disjoint_of_nodup_append hnodup hx1 hx
      simp [hx, hnot]

/-! ## The live documents -/

/-- With the merger waiting at stage 2, the replace task is queued. -/
lemma Inv.replace_mem (h : Inv cap heap as e log) (hstage : e.merger.mergeStage = 2) :
    MergerTask.replace ∈ e.inputQueue := by
  cases h.phase with
  | migrated _ _ _ _ hqueue => simp [hqueue]
  | _ => omega

/-- So the replace handler can run. -/
lemma Inv.exec_replace (h : Inv cap heap as e log) (hstage : e.merger.mergeStage = 2) :
    ∃ e', Engine.exec cap .replaceSegs e = .ok e' ∧
      View.Step (pkOf heap) .replaceSegs e.view e'.view := by
  have hqueue := h.replace_mem hstage
  obtain ⟨m1, m2, n, -, -, -, heq⟩ := h.replaceSegs_spec hqueue
  exact ⟨_, heq, h.step_replace hqueue heq⟩

/-- The documents live on a list of pointers are those live on the sequence. -/
lemma live_relist {u : Utlist SegPtr} {x : DocPtr} (hu : u.Begun 0 e.segments)
    (hlen : e.segments.length ≤ e.nextSeg) : (e.relist u).Live x ↔ e.Live x := by
  simp only [Live, listed_relist hu hlen, relist_segs, relist_docs]

/-- Only the replace handler, or a task, is seen behind a migration. -/
lemma view_of_quiet (hcap : 1 ≤ cap) {l m : List (ListEngine × Action)} {e e₁ : ListEngine}
    (hrun : (engineSystem (List SegPtr) cap heap).Run l e) (hstage : e.merger.mergeStage = 2)
    (hpath : (engineSystem (List SegPtr) cap heap).Path l e m e₁)
    (hquiet : ∀ a ∈ actions m, ¬a.IsTask ∧ a ≠ .replaceSegs) : e₁.view = e.view := by
  revert hquiet
  refine path_invariant hcap hrun (fun m s => (∀ a ∈ actions m, ¬a.IsTask ∧ a ≠ .replaceSegs) →
    s.view = e.view) (fun _ => rfl) (fun {m s a s'} _ ih _ _ _ hstep hquiet => ?_) hpath
  have hs := ih fun a ha => hquiet a (List.mem_cons_of_mem _ ha)
  obtain ⟨htask, hreplace⟩ := hquiet a List.mem_cons_self
  exact (hstep.eq_of_waiting ((congrArg View.stage hs).trans hstage) htask hreplace).trans hs

/-- **Merging conserves documents.**  From every reachable state at stage 1 the migration runs, its
new segment and the documents set aside partition those of the sources, and, as long as no task is
executed before it, the replace handler leads back to the live documents there were.  It runs on the
sequence of segments, that is, unless an assertion of `DL_DELETE` fails on their pointers. -/
theorem migrate_conserves (hcap : 1 ≤ cap)
    (hrun : (engineSystem (List SegPtr) cap heap).Run l e) (hstage : e.merger.mergeStage = 1) :
    ∃ e' m1 m2 n copied, e.mergeProcMigrate = .ok e' ∧ Partitioned e e' m1 m2 n copied ∧
      ∀ m e₁, (engineSystem (List SegPtr) cap heap).Path ((e, .procMigrate) :: l) e' m e₁ →
        (∀ a ∈ actions m, ¬a.IsTask ∧ a ≠ .replaceSegs) →
        ∃ e₂, Engine.exec cap .replaceSegs e₁ = .ok e₂ ∧ ∀ x, e₂.Live x ↔ e.Live x := by
  obtain ⟨log, hinv⟩ := inv_of_run hcap hrun
  obtain ⟨e', m1, m2, n, copied, hexec, hstage', hpart⟩ := hinv.partitioned hstage
  refine ⟨e', m1, m2, n, copied, hexec, hpart, fun m e₁ hpath hquiet => ?_⟩
  have hrun' : (engineSystem (List SegPtr) cap heap).Run ((e, .procMigrate) :: l) e' :=
    hrun.step trivial hexec
  have hview := view_of_quiet hcap hrun' hstage' hpath hquiet
  obtain ⟨log₁, hinv₁⟩ := inv_of_run hcap (hrun'.append hpath)
  obtain ⟨e₂, hexec₂, hstep₂⟩ := hinv₁.exec_replace ((congrArg View.stage hview).trans hstage')
  rw [hview] at hstep₂
  refine ⟨e₂, hexec₂, fun x => ?_⟩
  rw [live_iff_view, live_iff_view]
  exact (hinv.step_migrate hexec).live_replace hstage hstage' hstep₂

/-- `migrate_conserves` with a lookup between the migration and the replacement. -/
theorem migrate_conserves_sample :
    ∃ l e e' m1 m2 n copied e₂, (engineSystem (List SegPtr) 2 sampleHeap).Run l e ∧
      e.merger.mergeStage = 1 ∧ Partitioned e e' m1 m2 n copied ∧
      Engine.exec 2 .replaceSegs (e'.lookupEnter m2) = .ok e₂ ∧ ∀ x, e₂.Live x ↔ e.Live x := by
  obtain ⟨l, e, hrun, hstage⟩ := System.exists_run_of_execAll
    (M := engineSystem (List SegPtr) 2 sampleHeap) (fun _ e => e.merger.mergeStage == 1)
    [.add 1, .add 2, .add 3, .add 4, .add 5, .remove 1, .remove 2, .remove 3, .procCheck]
    (by decide +kernel)
  have hstage : e.merger.mergeStage = 1 := by simpa using hstage
  obtain ⟨e', m1, m2, n, copied, -, hpart, hlive⟩ := migrate_conserves (by norm_num) hrun hstage
  obtain ⟨e₂, hexec, hlive⟩ := hlive [(e', .lookupEnter m2)] (e'.lookupEnter m2)
    (.cons .nil trivial rfl) (by simp [actions, Action.IsTask])
  exact ⟨l, e, e', m1, m2, n, copied, e₂, hrun, hstage, hpart, hexec, hlive⟩

/-- **On pointers**, a replace handler that returns leads back to the live documents that there were
before the migration, if no task has been executed in between. -/
theorem live_of_replaced_pointers (hcap : 1 ≤ cap) {l m : List (PtrEngine × Action)}
    {e e' e₁ e₂ : PtrEngine} (hrun : (engineSystem (Utlist SegPtr) cap heap).Run l e)
    (hstage : e.merger.mergeStage = 1) (hmigrate : e.mergeProcMigrate = .ok e')
    (hpath : (engineSystem (Utlist SegPtr) cap heap).Path ((e, .procMigrate) :: l) e' m e₁)
    (hquiet : ∀ a ∈ actions m, ¬a.IsTask ∧ a ≠ .replaceSegs)
    (hreplace : Engine.exec cap .replaceSegs e₁ = .ok e₂) (x : DocPtr) : e₂.Live x ↔ e.Live x := by
  obtain ⟨l', s, u, hlist, hacts, rfl, hu⟩ := list_run_of_run hcap hrun
  obtain ⟨log, hinv⟩ := inv_of_run hcap hlist
  -- the migration, the steps behind it and the replacement, on the sequence
  obtain ⟨s', u', hmig, rfl, hu'⟩ := hinv.list_step hu (a := .procMigrate) trivial hmigrate
  obtain ⟨_, _, _, _, _, hexec, hstage', -⟩ := hinv.partitioned hstage
  obtain rfl := Except.ok.inj (hmig.symm.trans hexec)
  have hrun' : (engineSystem (List SegPtr) cap heap).Run ((s, .procMigrate) :: l') s' :=
    hlist.step trivial hmig
  have hacts₁ : actions ((s, .procMigrate) :: l') =
      actions ((s.relist u, Action.procMigrate) :: l) := congrArg (Action.procMigrate :: ·) hacts
  obtain ⟨m', s₁, u₁, hlist₁, hacts', rfl, hu₁⟩ := list_path_of_path hcap hrun' hacts₁ hu' hpath
  have hview := view_of_quiet hcap hrun' hstage' hlist₁ (hacts' ▸ hquiet)
  obtain ⟨log₁, hinv₁⟩ := inv_of_run hcap (hrun'.append hlist₁)
  have hstage₁ : s₁.merger.mergeStage = 2 := (congrArg View.stage hview).trans hstage'
  obtain ⟨s₂, u₂, hrep, rfl, hu₂⟩ :=
    hinv₁.list_step hu₁ (a := .replaceSegs) (hinv₁.replace_mem hstage₁) hreplace
  obtain ⟨s₂', hrep', hstep₂⟩ := hinv₁.exec_replace hstage₁
  obtain rfl := Except.ok.inj (hrep.symm.trans hrep')
  have hrun₂ : (engineSystem (List SegPtr) cap heap).Run
      ((s₁, .replaceSegs) :: (m' ++ (s, .procMigrate) :: l')) s₂ :=
    (hrun'.append hlist₁).step (hinv₁.replace_mem hstage₁) hrep
  obtain ⟨log₂, hinv₂⟩ := inv_of_run hcap hrun₂
  rw [hview] at hstep₂
  rw [live_relist hu₂ hinv₂.toListShape.length_le, live_relist hu hinv.toListShape.length_le,
    live_iff_view, live_iff_view]
  exact (hinv.step_migrate hmig).live_replace hstage hstage' hstep₂

-- a run on pointers whose replace handler returns: both sources are behind the head
example : ((engineSystem (Utlist SegPtr) 2 sampleHeap).execAll [] (.new sampleHeap)
    [.add 1, .add 2, .add 3, .add 4, .add 5, .remove 1, .remove 2, .remove 3, .procCheck,
      .procMigrate, .lookupEnter 1, .replaceSegs]).any (fun q => q.2.listed = [3, 2]) = true := by
  decide +kernel

end Engine

end TsEngine
