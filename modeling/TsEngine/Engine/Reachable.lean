import TsEngine.Engine.Simulation

/-!
# What holds in every reachable state, and the store the engine implements

Two results about runs of the engine.  `segment_list_invariant` reads the shape of the segment
list off the invariant: distinct members, one of them active, counters that neither wrap nor
divide by zero, and sources that are listed and inactive while a merge needs them.
`liveDocs_eq_storeMap` says what the engine is for: while no merge runs, the live documents are the
values of the map that the sequence of additions and removals describes.
-/

namespace TsEngine

open Framework Segment

namespace Engine

variable {cap : ℕ} {heap : DocHeap} {as : List Action} {l : List (ListEngine × Action)}
  {e e' : ListEngine} {log : SegPtr → List DocPtr} {x d : DocPtr} {k : ℕ}

/-- The documents of the concrete runs: document `d` has the primary key `d % 10`. -/
def sampleHeap : DocHeap := fun d => sampleDocument (d % 10)

/-! ## Along a path -/

/-- **The rule for what happens after a reachable state.**  Every step taken is a step of the
view, between states that satisfy the invariant. -/
lemma path_invariant (hcap : 1 ≤ cap) (hrun : (engineSystem (List SegPtr) cap heap).Run l e)
    (P : List (ListEngine × Action) → ListEngine → Prop) (hbase : P [] e)
    (hstep : ∀ {m s a s'}, (engineSystem (List SegPtr) cap heap).Path l e m s → P m s →
      (∃ log, Inv cap heap (actions (m ++ l)) s log) → a.Enabled cap (actions (m ++ l)) s →
      exec cap a s = .ok s' → View.Step (pkOf heap) a s.view s'.view → P ((s, a) :: m) s')
    {m : List (ListEngine × Action)}
    (hpath : (engineSystem (List SegPtr) cap heap).Path l e m e') : P m e' := by
  refine System.Path.invariant P hbase (fun {m s a s'} hpath hP hen hexec => ?_) hpath
  obtain ⟨log, hinv⟩ := inv_of_run hcap (hrun.append hpath)
  exact hstep hpath hP ⟨log, hinv⟩ hen hexec (hinv.step hcap hen hexec)

/-- The last step of a run is a step of the view. -/
lemma step_of_run {a : Action} (hcap : 1 ≤ cap)
    (hrun : (engineSystem (List SegPtr) cap heap).Run ((e, a) :: l) e') :
    View.Step (pkOf heap) a e.view e'.view := by
  obtain ⟨hrun, hen, hexec⟩ := hrun.of_cons
  obtain ⟨log, hinv⟩ := inv_of_run hcap hrun
  exact hinv.step hcap hen hexec

/-! ## The segment list -/

/-- **The segment list in every reachable state.** -/
theorem segment_list_invariant (hcap : 1 ≤ cap)
    (hrun : (engineSystem (List SegPtr) cap heap).Run l e) :
    e.listed.Nodup ∧
    (e.segmentActive ∈ e.listed ∧ ∀ p ∈ e.listed,
      (p = e.segmentActive → (e.segs p).state = segmentStateActive) ∧
      (p ≠ e.segmentActive → (e.segs p).state = segmentStateValid)) ∧
    (e.segs e.segmentActive).numTotalDocs ≤ cap ∧
    (∀ p ∈ e.listed, (e.segs p).numTotalDeleted ≤ (e.segs p).numTotalDocs) ∧
    (∀ p ∈ e.listed, p ≠ e.segmentActive → 0 < (e.segs p).numTotalDocs) ∧
    (∃ e', e.mergeProcCheck = .ok e') ∧
    (e.merger.mergeStage = 1 ∨ e.merger.mergeStage = 2 → ∃ m1 m2,
      e.merger.mseg1 = some m1 ∧ e.merger.mseg2 = some m2 ∧ m1 ≠ m2 ∧
      m1 ∈ e.listed ∧ m2 ∈ e.listed ∧ m1 ≠ e.segmentActive ∧ m2 ≠ e.segmentActive) := by
  obtain ⟨log, h⟩ := inv_of_run hcap hrun
  obtain ⟨e', hcheck, -⟩ := h.mergeProcCheck
  refine ⟨h.nodup, ⟨h.active, fun p hp => ⟨?_, h.otherState p hp⟩⟩, h.leCap _ h.active,
    fun p hp => (h.represents p hp).numTotalDeleted_le,
    fun p hp hne => Nat.pos_of_ne_zero (h.nonempty p hp hne), ⟨e', hcheck⟩, fun hstage => ?_⟩
  · rintro rfl
    exact h.activeState
  · have hsrc : ∃ m1 m2, Sources e log m1 m2 := by
      cases h.phase with
      | checked m1 m2 _ _ hsrc => exact ⟨m1, m2, hsrc⟩
      | migrated m1 m2 _ _ _ hsrc => exact ⟨m1, m2, hsrc⟩
      | _ => omega
    obtain ⟨m1, m2, hsrc⟩ := hsrc
    exact ⟨m1, m2, hsrc.mseg1, hsrc.mseg2, hsrc.ne, hsrc.mem1, hsrc.mem2, hsrc.inactive1,
      hsrc.inactive2⟩

/-- `segment_list_invariant` in the middle of a merge. -/
theorem segment_list_invariant_sample :
    ∃ l e, (engineSystem (List SegPtr) 1 sampleHeap).Run l e ∧
      e.merger.mergeStage = 2 ∧ e.listed.Nodup ∧ ∃ m1 m2, e.merger.mseg1 = some m1 ∧
        e.merger.mseg2 = some m2 ∧ m1 ≠ m2 ∧ m1 ∈ e.listed ∧ m2 ∈ e.listed ∧
        m1 ≠ e.segmentActive ∧ m2 ≠ e.segmentActive := by
  obtain ⟨l, e, hrun, hstage⟩ := System.exists_run_of_execAll
    (M := engineSystem (List SegPtr) 1 sampleHeap) (fun _ e => e.merger.mergeStage == 2)
    [.add 1, .add 2, .add 3, .remove 1, .procCheck, .procMigrate] (by decide +kernel)
  obtain ⟨hnodup, -, -, -, -, -, hsources⟩ := segment_list_invariant le_rfl hrun
  have hstage : e.merger.mergeStage = 2 := by simpa using hstage
  exact ⟨l, e, hrun, hstage, hnodup, hsources (.inr hstage)⟩

/-! ## The live documents -/

/-- The document is live: a listed segment records it and its deletion bit there is clear. -/
def Live {L : Type} [SegmentList L] (e : Engine L) (x : DocPtr) : Prop :=
  ∃ p ∈ e.listed, x ∈ (e.segs p).docPtrs ∧ (e.segs p).isDeleted e.docs x = false

/-- The live documents listed under a primary key, over all segments. -/
def liveDocs {L : Type} [SegmentList L] (e : Engine L) (pk : ℕ) : List DocPtr :=
  e.listed.flatMap fun p =>
    ((e.segs p).entries pk).filter fun x => !(e.segs p).isDeleted e.docs x

lemma live_iff_view {e : ListEngine} : e.Live x ↔ e.view.Live x := by
  simp [Live, View.Live, view]

/-- Documents are listed under their primary keys. -/
lemma Inv.mem_liveDocs (h : Inv cap heap as e log) :
    x ∈ e.liveDocs k ↔ e.view.Live x ∧ pkOf heap x = k := by
  rw [← live_iff_view, h.pkOf_eq]
  simp only [liveDocs, Live, listed_list, List.mem_flatMap, List.mem_filter, Bool.not_eq_true']
  constructor
  · rintro ⟨p, hp, hx, hlive⟩
    obtain ⟨hlog, hk⟩ := (h.represents p hp).mem_entries.mp hx
    exact ⟨⟨p, hp, (h.mem_docPtrs hp).mpr hlog, hlive⟩, hk⟩
  · rintro ⟨⟨p, hp, hx, hlive⟩, hk⟩
    exact ⟨p, hp, (h.represents p hp).mem_entries.mpr ⟨(h.mem_docPtrs hp).mp hx, hk⟩, hlive⟩

/-- No document is listed twice, in one segment or in two. -/
lemma Inv.nodup_liveDocs (h : Inv cap heap as e log) (k : ℕ) : (e.liveDocs k).Nodup := by
  have hentries : ∀ p ∈ e.segments, ∀ x ∈ (e.segs p).entries k, x ∈ log p := fun p hp x hx =>
    ((h.represents p hp).mem_entries.mp hx).1
  refine List.nodup_flatMap.mpr ⟨fun p hp => List.Nodup.filter _ ?_,
    h.nodup.imp_of_mem fun {p q} hp hq hne x hx hy => ?_⟩
  · rw [(h.represents p hp).entries]
    exact (h.represents p hp).nodup.filter _
  · exact h.disjoint p hp q hq hne (hentries p hp x (List.mem_of_mem_filter hx))
      (hentries q hq x (List.mem_of_mem_filter hy))

/-- The list of live documents of a key, from the one document or the none that is live. -/
lemma Inv.liveDocs_eq (h : Inv cap heap as e log) {o : Option DocPtr}
    (ho : ∀ x, e.view.Live x ∧ pkOf heap x = k ↔ o = some x) : e.liveDocs k = o.toList := by
  have hmem : ∀ x, x ∈ e.liveDocs k ↔ o = some x := fun x => h.mem_liveDocs.trans (ho x)
  cases o with
  | none => exact List.eq_nil_iff_forall_not_mem.mpr fun x hx => by simpa using (hmem x).mp hx
  | some y =>
      refine List.perm_singleton.mp ((List.perm_ext_iff_of_nodup (h.nodup_liveDocs k)
        (List.nodup_singleton y)).mpr fun x => ?_)
      rw [hmem, List.mem_singleton, Option.some.injEq, eq_comm]

/-! ## The store -/

/-- The map a sequence of tasks stands for, the newest task first. -/
def storeMap (heap : DocHeap) : List Action → ℕ → Option DocPtr
  | [] => fun _ => none
  | .add d :: as => Function.update (storeMap heap as) (pkOf heap d) (some d)
  | .remove k :: as => Function.update (storeMap heap as) k none
  | _ :: as => storeMap heap as

lemma pkOf_of_storeMap {as : List Action} (h : storeMap heap as k = some x) : pkOf heap x = k := by
  induction as with
  | nil => simp [storeMap] at h
  | cons a as ih =>
      cases a with
      | add d =>
          by_cases hk : k = pkOf heap d
          · subst hk
            simp_all [storeMap]
          · exact ih (by simpa [storeMap, hk] using h)
      | remove k' =>
          by_cases hk : k = k'
          · simp_all [storeMap]
          · exact ih (by simpa [storeMap, hk] using h)
      | _ => exact ih h

/-- **What a run of tasks stores**: the live documents are the values of the map. -/
lemma live_iff_of_tasks (hcap : 1 ≤ cap) (hrun : (engineSystem (List SegPtr) cap heap).Run l e)
    (htasks : ∀ a ∈ actions l, a.IsTask) :
    e.merger.mergeStage = 0 ∧
      ∀ x, e.view.Live x ↔ storeMap heap (actions l) (pkOf heap x) = some x := by
  refine System.Run.invariant (fun l e => (∀ a ∈ actions l, a.IsTask) → e.merger.mergeStage = 0 ∧
    ∀ x, e.view.Live x ↔ storeMap heap (actions l) (pkOf heap x) = some x) (fun _ => ⟨rfl, ?_⟩)
    (fun {l s a s'} hrun ih hen hexec htasks => ?_) hrun htasks
  · intro x
    simp [View.Live, view, engineSystem, new, Segment.new, docPtrs, storeMap, actions]
  · obtain ⟨hstage, hlive⟩ := ih fun a ha => htasks a (List.mem_cons_of_mem _ ha)
    have htask : a.IsTask := htasks a List.mem_cons_self
    obtain ⟨log, hinv⟩ := inv_of_run hcap hrun
    have hstep := hinv.step hcap hen hexec
    have hne : s.view.stage ≠ 2 := fun h2 => by
      have h2 : s.merger.mergeStage = 2 := h2
      omega
    cases a with
    | add d =>
        refine ⟨(hstep.stage_of_task trivial).trans hstage, fun x => ?_⟩
        rw [hstep.live_add hne, hlive]
        show _ ↔ Function.update (storeMap heap (actions l)) (pkOf heap d) (some d) _ = _
        by_cases hk : pkOf heap x = pkOf heap d
        · rw [hk, Function.update_self]
          simp [eq_comm]
        · rw [Function.update_of_ne hk]
          have hxd : x ≠ d := fun he => hk (he ▸ rfl)
          simp [hk, hxd]
    | remove k =>
        refine ⟨(hstep.stage_of_task trivial).trans hstage, fun x => ?_⟩
        rw [hstep.live_remove hne, hlive]
        show _ ↔ Function.update (storeMap heap (actions l)) k none _ = _
        by_cases hk : pkOf heap x = k
        · rw [hk, Function.update_self]
          simp
        · rw [Function.update_of_ne hk]
          simp [hk]
    | _ => exact htask.elim

/-- **The engine implements its map.**  After any sequence of additions and removals from a new
engine, with the merger idle, the live documents are exactly the values of the map the sequence
stands for: at most one for each primary key over all segments, and that is the last one added.
A further task on one key leaves the live documents of every other key as they are. -/
theorem liveDocs_eq_storeMap (hcap : 1 ≤ cap)
    (hrun : (engineSystem (List SegPtr) cap heap).Run l e)
    (htasks : ∀ a ∈ actions l, a.IsTask) :
    (∀ x, e.Live x ↔ ∃ k, storeMap heap (actions l) k = some x) ∧
    (∀ k, e.liveDocs k = (storeMap heap (actions l) k).toList) ∧
    ∀ a e', a.IsTask → a.Enabled cap (actions l) e → exec cap a e = .ok e' →
      ∀ k, ¬View.OnKey (pkOf heap) k a → e'.liveDocs k = e.liveDocs k := by
  have hmap : ∀ {l : List (ListEngine × Action)} {e : ListEngine},
      (engineSystem (List SegPtr) cap heap).Run l e → (∀ a ∈ actions l, a.IsTask) →
      ∀ k, e.liveDocs k = (storeMap heap (actions l) k).toList := by
    intro l e hrun htasks k
    obtain ⟨log, hinv⟩ := inv_of_run hcap hrun
    refine hinv.liveDocs_eq fun x => ?_
    rw [(live_iff_of_tasks hcap hrun htasks).2]
    exact ⟨fun ⟨hx, hk⟩ => hk ▸ hx, fun hx => ⟨(pkOf_of_storeMap hx).symm ▸ hx,
      pkOf_of_storeMap hx⟩⟩
  refine ⟨fun x => ?_, hmap hrun htasks, fun a e' htask hen hexec k hkey => ?_⟩
  · rw [live_iff_view, (live_iff_of_tasks hcap hrun htasks).2]
    exact ⟨fun hx => ⟨_, hx⟩, fun ⟨k, hx⟩ => (pkOf_of_storeMap hx).symm ▸ hx⟩
  · rw [hmap (hrun.step hen hexec) (List.forall_mem_cons.mpr ⟨htask, htasks⟩) k, hmap hrun htasks k]
    congr 1
    cases a with
    | add d => exact Function.update_of_ne (fun hk => hkey hk.symm) _ _
    | remove k' => exact Function.update_of_ne (fun hk => hkey hk.symm) _ _
    | _ => exact htask.elim

/-- `liveDocs_eq_storeMap` for an update of a document two segments back, and a removal. -/
theorem liveDocs_eq_storeMap_sample :
    ∃ l e, (engineSystem (List SegPtr) 1 sampleHeap).Run l e ∧
      (actions l).length = 5 ∧ (∀ a ∈ actions l, a.IsTask) ∧
      ∀ k, e.liveDocs k = (storeMap sampleHeap (actions l) k).toList := by
  obtain ⟨l, e, hrun, hacts⟩ := System.exists_run_of_execAll
    (M := engineSystem (List SegPtr) 1 sampleHeap)
    (fun l _ => actions l == [.remove 2, .add 11, .add 3, .add 2, .add 1])
    [.add 1, .add 2, .add 3, .add 11, .remove 2] (by decide +kernel)
  have hacts : actions l = [.remove 2, .add 11, .add 3, .add 2, .add 1] := by simpa using hacts
  have htasks : ∀ a ∈ actions l, a.IsTask := by simp [hacts, Action.IsTask]
  exact ⟨l, e, hrun, by simp [hacts], htasks, (liveDocs_eq_storeMap le_rfl hrun htasks).2.1⟩

end Engine

end TsEngine
