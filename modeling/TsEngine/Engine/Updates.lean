import TsEngine.Engine.Reachable

/-!
# Removals and updates while a merge is running

A task executed between migration and replacement deletes in the old segments only: the copies
in the new segment, which no list names yet, keep their bits clear.  The removal handler repairs
this by recording the key for a second deletion, so that a removed document shows again from
replacement to second deletion and then goes (`removed_stays_removed`).  The addition handler
records nothing, so that the old version of an updated document stays
(`updated_iff`).
-/

namespace TsEngine

open Framework

namespace Engine

variable {cap : ℕ} {heap : DocHeap} {l m : List (ListEngine × Action)} {e e₁ e' : ListEngine}
  {x d : DocPtr} {k : ℕ}

/-! ## After a removal -/

/-- **A removed key stays without live documents** until one is added, but for the window that a
removal between migration and replacement leaves. -/
lemma quiet_of_removed (hcap : 1 ≤ cap)
    (hrun : (engineSystem (List SegPtr) cap heap).Run ((e, .remove k) :: l) e₁)
    (hpath : (engineSystem (List SegPtr) cap heap).Path ((e, .remove k) :: l) e₁ m e')
    (hadd : ∀ d, .add d ∈ actions m → pkOf heap d ≠ k) :
    View.Quiet (pkOf heap) k ∅
      (e.merger.mergeStage = 2 ∧ ∀ q ∈ m, q.1.merger.mergeStage ≠ 0) e'.view := by
  have hstart := (step_of_run hcap hrun).quiet_remove
  refine path_invariant hcap hrun
    (fun m e' => (∀ d, .add d ∈ actions m → pkOf heap d ≠ k) → View.Quiet (pkOf heap) k ∅
      (e.merger.mergeStage = 2 ∧ ∀ q ∈ m, q.1.merger.mergeStage ≠ 0) e'.view) (fun _ => ?_)
    (fun {m s a s'} hpath ih _ hen hexec hstep hadd => ?_) hpath hadd
  · convert hstart using 1
    simp [view]
  · have hquiet := hstep.quiet (ih fun d hd => hadd d (List.mem_cons_of_mem _ hd))
      fun d hd => hadd d (hd ▸ List.mem_cons_self)
    convert hquiet using 1
    rw [List.forall_mem_cons, and_assoc, and_comm (b := _ ≠ 0)]
    rfl

/-- **A removed document comes back only to be removed again.**  After the removal of a key and
before an addition to it, every document listed under the key has its deletion bit set.  The one
exception is the segment that a merge has made: if the removal came between migration and
replacement, that segment may show the document from its replacement to the second deletion of
the same cycle. -/
theorem removed_stays_removed (hcap : 1 ≤ cap)
    (hrun : (engineSystem (List SegPtr) cap heap).Run ((e, .remove k) :: l) e₁)
    (hpath : (engineSystem (List SegPtr) cap heap).Path ((e, .remove k) :: l) e₁ m e')
    (hadd : ∀ d, .add d ∈ actions m → pkOf heap d ≠ k) :
    ∀ p ∈ e'.listed, ∀ x ∈ (e'.segs p).entries k,
      (e'.segs p).isDeleted e'.docs x = true ∨
      e.merger.mergeStage = 2 ∧ (∀ q ∈ m, q.1.merger.mergeStage ≠ 0) ∧
        e'.merger.newseg = some p ∧
        (e'.merger.mergeStage = 3 ∨ e'.merger.mergeStage = 4 ∨ e'.merger.mergeStage = 5) := by
  intro p hp x hx
  have hquiet := quiet_of_removed hcap hrun hpath hadd
  obtain ⟨log, hinv⟩ := inv_of_run hcap (hrun.append hpath)
  have hk : pkOf heap x = k :=
    (hinv.pkOf_eq x).trans ((hinv.represents p hp).mem_entries.mp hx).2
  exact (hquiet.listed p hp x (Segment.mem_docPtrs_of_mem_entries hx) hk id).imp_right
    fun ⟨⟨h2, hm⟩, hstage, hnew⟩ => ⟨h2, hm, hnew, hstage⟩

/-- A removal between migration and replacement, and what the second deletion makes of it. -/
theorem removed_stays_removed_sample :
    ∃ l e e₁ m e', (engineSystem (List SegPtr) 1 sampleHeap).Run ((e, .remove 2) :: l) e₁ ∧
      (engineSystem (List SegPtr) 1 sampleHeap).Path ((e, .remove 2) :: l) e₁ m e' ∧
      e'.merger.mergeStage = 6 ∧ (∃ p ∈ e'.listed, (e'.segs p).entries 2 ≠ []) ∧
      ∀ p ∈ e'.listed, ∀ x ∈ (e'.segs p).entries 2, (e'.segs p).isDeleted e'.docs x = true := by
  obtain ⟨l, e, e₁, m, e', hrun, hpath, -, hm, htest⟩ := System.exists_path_of_execAll
    (M := engineSystem (List SegPtr) 1 sampleHeap)
    (fun _ _ _ e => decide (e.merger.mergeStage = 6 ∧ ∃ p ∈ e.segments, (e.segs p).entries 2 ≠ []))
    [.add 1, .add 2, .add 3, .remove 1, .procCheck, .procMigrate] (.remove 2)
    [.replaceSegs, .procRelease, .procRedelete, .redelete] (by decide +kernel)
  obtain ⟨hstage, hentries⟩ := of_decide_eq_true htest
  refine ⟨l, e, e₁, m, e', hrun, hpath, hstage, hentries, fun p hp x hx => ?_⟩
  have hadd : ∀ d, .add d ∈ actions m → pkOf sampleHeap d ≠ 2 := by simp [actions, hm]
  have hor := removed_stays_removed le_rfl hrun hpath hadd p hp x hx
  exact hor.resolve_right (by rintro ⟨-, -, -, h3⟩; omega)

/-- **A removed document does come back**: document 2 is removed while its copy waits in the new
segment, and is live again once that segment is linked. -/
theorem removed_comes_back :
    ∃ l e e₁ m e', (engineSystem (List SegPtr) 1 sampleHeap).Run ((e, .remove 2) :: l) e₁ ∧
      (engineSystem (List SegPtr) 1 sampleHeap).Path ((e, .remove 2) :: l) e₁ m e' ∧
      actions m = [.replaceSegs] ∧ e₁.liveDocs 2 = [] ∧ e'.liveDocs 2 = [2] := by
  obtain ⟨l, e, e₁, m, e', hrun, hpath, -, hm, htest⟩ := System.exists_path_of_execAll
    (M := engineSystem (List SegPtr) 1 sampleHeap)
    (fun _ _ m e => decide ((∀ q ∈ m, q.1.liveDocs 2 = []) ∧ e.liveDocs 2 = [2]))
    [.add 1, .add 2, .add 3, .remove 1, .procCheck, .procMigrate] (.remove 2) [.replaceSegs]
    (by decide +kernel)
  obtain ⟨hbefore, hlive⟩ := of_decide_eq_true htest
  refine ⟨l, e, e₁, m, e', hrun, hpath, hm, ?_, hlive⟩
  obtain ⟨⟨s, a⟩, m', rfl, -, hm'⟩ := List.map_eq_cons_iff.mp hm
  obtain rfl := List.map_eq_nil_iff.mp hm'
  cases hpath with
  | cons hpath => cases hpath; exact hbefore _ List.mem_cons_self

/-! ## After an update -/

/-- The old version of an updated document is out of reach: it has a copy in the waiting new
segment, and its key is not recorded for a second deletion. -/
def Missed (e : ListEngine) (k : ℕ) : Prop :=
  e.merger.mergeStage = 2 ∧ k ∉ e.merger.mergingDeletion ∧
    ∃ n, e.merger.newseg = some n ∧ (e.segs n).entries k ≠ []

/-- The waiting new segment, as the view sees it. -/
lemma Inv.entries_ne_nil_iff {as : List Action} {log : SegPtr → List DocPtr} {n : SegPtr}
    (h : Inv cap heap as e log) (hstage : e.merger.mergeStage = 2)
    (hnewseg : e.merger.newseg = some n) :
    (e.segs n).entries k ≠ [] ↔ ∃ x ∈ e.view.holds n, pkOf heap x = k := by
  obtain ⟨m2, -, hnew⟩ := h.unlinked hstage hnewseg
  rw [← List.length_pos_iff, List.length_pos_iff_exists_mem]
  refine exists_congr fun x => ?_
  rw [hnew.sound.mem_entries, h.pkOf_eq]
  exact and_congr_left' hnew.sound.mem_docPtrs.symm

section Updated

variable (hcap : 1 ≤ cap) (hrun : (engineSystem (List SegPtr) cap heap).Run ((e, .add d) :: l) e₁)
  (hpath : (engineSystem (List SegPtr) cap heap).Path ((e, .add d) :: l) e₁ m e')
  (hkey : ∀ a ∈ actions m, ¬View.OnKey (pkOf heap) (pkOf heap d) a)

include hcap hrun hpath hkey

/-- **An added document stays live** for the rest of the merge cycle. -/
lemma alive_of_added (hcycle : ∀ q ∈ m, q.1.merger.mergeStage ≠ 0) :
    e'.view.Alive d ∧ e'.view.Outside d := by
  refine path_invariant hcap hrun (fun m e' =>
    (∀ a ∈ actions m, ¬View.OnKey (pkOf heap) (pkOf heap d) a) →
    (∀ q ∈ m, q.1.merger.mergeStage ≠ 0) → e'.view.Alive d ∧ e'.view.Outside d)
    (fun _ _ => (step_of_run hcap hrun).alive_add)
    (fun {m s a s'} hpath ih _ hen hexec hstep hkey hcycle => ?_) hpath hkey hcycle
  obtain ⟨hka, hkey⟩ := List.forall_mem_cons.mp hkey
  obtain ⟨hstage, hcycle⟩ := List.forall_mem_cons.mp hcycle
  obtain ⟨halive, houtside⟩ := ih hkey hcycle
  refine ⟨hstep.alive halive hka fun _ h5 n hn hnew hd => ?_,
    hstep.outside houtside hstage fun he => hka (he ▸ rfl)⟩
  exact absurd hd (houtside.newseg (by omega) (by omega) n hnew (.inr hn))

/-- **No other document of its key is**, unless the update missed one. -/
lemma quiet_of_added (hmissed : ¬e.Missed (pkOf heap d)) :
    ∃ window, View.Quiet (pkOf heap) (pkOf heap d) {d} window e'.view := by
  obtain ⟨log, hinv⟩ := inv_of_run hcap hrun.of_cons.1
  have hstart := (step_of_run hcap hrun).quiet_add fun hstage n hnew x hx hk => by
    by_contra hpend
    exact hmissed ⟨hstage, hpend, n, hnew, (hinv.entries_ne_nil_iff hstage hnew).mpr ⟨x, hx, hk⟩⟩
  refine path_invariant hcap hrun (fun m e' =>
    (∀ a ∈ actions m, ¬View.OnKey (pkOf heap) (pkOf heap d) a) →
    ∃ window, View.Quiet (pkOf heap) (pkOf heap d) {d} window e'.view) (fun _ => ⟨_, hstart⟩)
    (fun {m s a s'} hpath ih _ hen hexec hstep hkey => ?_) hpath hkey
  obtain ⟨hka, hkey⟩ := List.forall_mem_cons.mp hkey
  obtain ⟨window, hquiet⟩ := ih hkey
  exact ⟨_, hstep.quiet hquiet fun d' he hk => hka (he ▸ hk)⟩

/-- **A missed document stays live**, for good. -/
lemma alive_of_missed (hmissed : e.Missed (pkOf heap d)) :
    ∃ x, x ≠ d ∧ pkOf heap x = pkOf heap d ∧ e'.view.Alive x := by
  obtain ⟨hstage, hpend, n, hnew, hentries⟩ := hmissed
  obtain ⟨hrun₀, ⟨-, hfresh, -⟩, -⟩ := hrun.of_cons
  obtain ⟨log, hinv⟩ := inv_of_run hcap hrun₀
  obtain ⟨x, hx, hk⟩ := (hinv.entries_ne_nil_iff hstage hnew).mp hentries
  obtain ⟨m2, hm2, hunlinked⟩ := hinv.unlinked hstage hnew
  have hxd : x ≠ d := fun he => hinv.not_mem_log hfresh hm2
    (he ▸ hunlinked.fromSource x (hunlinked.sound.mem_docPtrs.mp hx))
  have hstart := step_of_run hcap hrun
  have hbase : e₁.view.Alive x := hstart.alive_of_copied hstage hnew hunlinked.notMem hx
  refine ⟨x, hxd, hk, And.left (b := pkOf heap d ∉ e'.view.pending) ?_⟩
  refine path_invariant hcap hrun (fun m e' =>
    (∀ a ∈ actions m, ¬View.OnKey (pkOf heap) (pkOf heap d) a) →
    e'.view.Alive x ∧ pkOf heap d ∉ e'.view.pending)
    (fun _ => ⟨hbase, fun hp => (hstart.mem_pending.mp hp).elim hpend fun h => by cases h.1⟩)
    (fun {m s a s'} hpath ih _ hen hexec hstep hkey => ?_) hpath hkey
  obtain ⟨hka, hkey⟩ := List.forall_mem_cons.mp hkey
  obtain ⟨halive, hpend⟩ := ih hkey
  refine ⟨hstep.alive halive (hk ▸ hka) fun _ _ _ _ _ _ => hk ▸ hpend, fun hp => ?_⟩
  rcases hstep.mem_pending.mp hp with hp | ⟨rfl, -⟩
  · exact hpend hp
  · exact hka rfl

end Updated

/-- **When an update replaces the old version.**  Let a document be added at any stage of a merge
cycle, and let no later task concern its key.  When the stage is next 0, the document is the one
live document of its key, unless the addition came between migration and replacement, a document
of the key had been copied to the new segment, and the key was not recorded for deletion. -/
theorem updated_iff (hcap : 1 ≤ cap)
    (hrun : (engineSystem (List SegPtr) cap heap).Run ((e, .add d) :: l) e₁)
    (hpath : (engineSystem (List SegPtr) cap heap).Path ((e, .add d) :: l) e₁ m e')
    (hkey : ∀ a ∈ actions m, ¬View.OnKey (pkOf heap) (pkOf heap d) a)
    (hcycle : ∀ q ∈ m, q.1.merger.mergeStage ≠ 0) (hend : e'.merger.mergeStage = 0) :
    e'.liveDocs (pkOf heap d) = [d] ↔ ¬e.Missed (pkOf heap d) := by
  obtain ⟨log, hinv⟩ := inv_of_run hcap (hrun.append hpath)
  have hne2 : e'.view.stage ≠ 2 := fun h2 => absurd (hend.symm.trans h2) (by simp)
  constructor
  · intro heq hmissed
    obtain ⟨x, hxd, hk, hx⟩ := alive_of_missed hcap hrun hpath hkey hmissed
    have hmem := hinv.mem_liveDocs.mpr ⟨hx.live hne2, hk⟩
    rw [heq] at hmem
    exact hxd (List.mem_singleton.mp hmem)
  · intro hmissed
    obtain ⟨halive, -⟩ := alive_of_added hcap hrun hpath hkey hcycle
    obtain ⟨window, hquiet⟩ := quiet_of_added hcap hrun hpath hkey hmissed
    refine hinv.liveDocs_eq (o := some d) fun x => ?_
    rw [Option.some.injEq]
    constructor
    · rintro ⟨⟨p, hp, hx, hlive⟩, hk⟩
      by_contra hxd
      refine hlive (hquiet.deleted hp (fun hw => ?_) hx hk fun he => hxd he.symm)
      exact View.not_showing_of_stage (by simp [view, hend]) hw.2
    · rintro rfl
      exact ⟨halive.live hne2, rfl⟩

/-- `updated_iff` for an update at stage 1. -/
theorem updated_iff_sample :
    ∃ l e e₁ m e', (engineSystem (List SegPtr) 1 sampleHeap).Run ((e, .add 12) :: l) e₁ ∧
      (engineSystem (List SegPtr) 1 sampleHeap).Path ((e, .add 12) :: l) e₁ m e' ∧
      actions m = [.procReset, .procRelease, .replaceSegs, .procMigrate] ∧
      e'.liveDocs 2 = [12] := by
  obtain ⟨l, e, e₁, m, e', hrun, hpath, -, hm, htest⟩ := System.exists_path_of_execAll
    (M := engineSystem (List SegPtr) 1 sampleHeap)
    (fun _ e m e' => decide (e.merger.mergeStage = 1 ∧ (∀ q ∈ m, q.1.merger.mergeStage ≠ 0) ∧
      e'.merger.mergeStage = 0))
    [.add 1, .add 2, .add 3, .remove 1, .procCheck] (.add 12)
    [.procMigrate, .replaceSegs, .procRelease, .procReset] (by decide +kernel)
  obtain ⟨hstage, hcycle, hend⟩ := of_decide_eq_true htest
  have hkey : ∀ a ∈ actions m, ¬View.OnKey (pkOf sampleHeap) (pkOf sampleHeap 12) a := by
    simp [actions, hm, View.OnKey]
  refine ⟨l, e, e₁, m, e', hrun, hpath, hm, ?_⟩
  exact (updated_iff le_rfl hrun hpath hkey hcycle hend).mpr fun hmissed =>
    absurd (hstage.symm.trans hmissed.1) (by simp)

/-- **An update that leaves two live documents**: document 2 has been copied to the new segment
when document 12 replaces it, and comes back with that segment. -/
theorem update_missed :
    ∃ l e e₁ m e', (engineSystem (List SegPtr) 1 sampleHeap).Run ((e, .add 12) :: l) e₁ ∧
      (engineSystem (List SegPtr) 1 sampleHeap).Path ((e, .add 12) :: l) e₁ m e' ∧
      actions m = [.procReset, .redelete, .procRedelete, .procRelease, .replaceSegs] ∧
      (∀ q ∈ m, q.1.merger.mergeStage ≠ 0) ∧ e'.merger.mergeStage = 0 ∧
      e'.liveDocs 2 = [2, 12] := by
  obtain ⟨l, e, e₁, m, e', hrun, hpath, -, hm, htest⟩ := System.exists_path_of_execAll
    (M := engineSystem (List SegPtr) 1 sampleHeap)
    (fun _ _ m e => decide ((∀ q ∈ m, q.1.merger.mergeStage ≠ 0) ∧ e.merger.mergeStage = 0 ∧
      e.liveDocs 2 = [2, 12]))
    [.add 1, .add 2, .add 3, .remove 1, .procCheck, .procMigrate] (.add 12)
    [.replaceSegs, .procRelease, .procRedelete, .redelete, .procReset] (by decide +kernel)
  obtain ⟨hcycle, hend, hlive⟩ := of_decide_eq_true htest
  exact ⟨l, e, e₁, m, e', hrun, hpath, hm, hcycle, hend, hlive⟩

end Engine

end TsEngine
