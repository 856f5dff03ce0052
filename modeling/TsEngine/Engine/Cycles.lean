import Mathlib.Data.List.TakeWhile
import TsEngine.Engine.Reachable

/-!
# What one merge cycle leaves to the next

The keys to delete again are collected in `merging_deletion` while a merge is in progress, and
`ts_merge_proc_reset` does not empty that list.  A later cycle therefore deletes from its new
segment whatever any earlier cycle recorded.  `redeletes_own_cycle_iff` says when this goes
unnoticed, and what follows for the documents added since.
-/

namespace TsEngine

open Framework

/-- A history of the engine, newest step first. -/
abbrev History := List (ListEngine × Action)

namespace History

/-- The step was taken while a merge was in progress. -/
def InCycle (q : ListEngine × Action) : Bool := decide (q.1.merger.mergeStage ≠ 0)

/-- The steps since the stage was last 0: those of the merge cycle in progress. -/
def thisCycle (l : History) : History := l.takeWhile InCycle

/-- The steps up to the last one taken at stage 0. -/
def earlierCycles (l : History) : History := l.dropWhile InCycle

/-- The key was removed while a merge was in progress. -/
def Removed (l : History) (k : ℕ) : Prop := ∃ q ∈ l, InCycle q = true ∧ q.2 = .remove k

instance (l : History) (k : ℕ) : Decidable (l.Removed k) :=
  inferInstanceAs (Decidable (∃ q ∈ l, InCycle q = true ∧ q.2 = .remove k))

variable {l : History} {k : ℕ}

lemma removed_split : l.Removed k ↔ l.thisCycle.Removed k ∨ l.earlierCycles.Removed k := by
  conv_lhs => rw [Removed, ← List.takeWhile_append_dropWhile (p := InCycle) (l := l)]
  simp only [List.mem_append, or_and_right, exists_or]
  rfl

/-- What belongs to the cycle in progress belongs to its newest part, or that part is all of it. -/
lemma mem_thisCycle_append {m : History} {q : ListEngine × Action} (hq : q ∈ (m ++ l).thisCycle) :
    q ∈ m ∨ ∀ q' ∈ m, q'.1.merger.mergeStage ≠ 0 := by
  unfold thisCycle at hq
  rw [List.takeWhile_append] at hq
  split_ifs at hq with hlen
  · refine .inr fun q' hq' => ?_
    have hall := List.takeWhile_eq_self_iff.mp
      ((List.takeWhile_prefix (p := InCycle) (l := m)).eq_of_length hlen)
    simpa [InCycle] using hall q' hq'
  · exact .inl (List.takeWhile_subset _ hq)

end History

namespace Engine

/-! ## The second deletion -/

/-- The step deletes a document of the key from the new segment. -/
def Redeletes (e e' : ListEngine) (k : ℕ) : Prop :=
  ∃ n ∈ e.merger.newseg, ∃ x ∈ (e.segs n).entries k,
    (e.segs n).isDeleted e.docs x = false ∧ (e'.segs n).isDeleted e'.docs x = true

/-- The new segment has a document of the key that is not deleted. -/
def Merged (e : ListEngine) (k : ℕ) : Prop :=
  ∃ n ∈ e.merger.newseg, ∃ x ∈ (e.segs n).entries k, (e.segs n).isDeleted e.docs x = false

/-- No key that an earlier cycle recorded is about to be deleted, unless this cycle removed it
as well. -/
def OwnCycle (l : History) (e : ListEngine) : Prop :=
  ∀ k, l.earlierCycles.Removed k → e.Merged k → l.thisCycle.Removed k

instance (e e' : ListEngine) (k : ℕ) : Decidable (e.Redeletes e' k) :=
  inferInstanceAs (Decidable (∃ n ∈ e.merger.newseg, ∃ x ∈ (e.segs n).entries k,
    (e.segs n).isDeleted e.docs x = false ∧ (e'.segs n).isDeleted e'.docs x = true))

variable {cap : ℕ} {heap : DocHeap} {l m : History} {e e' : ListEngine} {x d : DocPtr} {k : ℕ}

/-- **The list never forgets**: it holds the keys removed during any cycle so far. -/
lemma mem_mergingDeletion_iff (hcap : 1 ≤ cap)
    (hrun : (engineSystem (List SegPtr) cap heap).Run l e) :
    k ∈ e.merger.mergingDeletion ↔ l.Removed k := by
  refine System.Run.invariant (fun l e => k ∈ e.merger.mergingDeletion ↔ History.Removed l k) ?_
    (fun {l s a s'} hrun ih hen hexec => ?_) hrun
  · simp [engineSystem, new, Merger.new, History.Removed]
  · have hstep := step_of_run hcap (hrun.step hen hexec)
    apply (hstep.mem_pending (k := k)).trans
    rw [show k ∈ s.view.pending ↔ k ∈ s.merger.mergingDeletion from Iff.rfl, ih]
    simp only [History.Removed, List.exists_mem_cons_iff, History.InCycle, decide_eq_true_eq]
    rw [or_comm, and_comm]
    rfl

/-- The second deletion deletes what is recorded and merged. -/
lemma redeletes_iff (hcap : 1 ≤ cap)
    (hrun : (engineSystem (List SegPtr) cap heap).Run ((e, .redelete) :: l) e') :
    e.Redeletes e' k ↔ e.Merged k ∧ k ∈ e.merger.mergingDeletion := by
  obtain ⟨log, hinv⟩ := inv_of_run hcap hrun.of_cons.1
  obtain ⟨n, hn, hnew, hdeleted⟩ := (step_of_run hcap hrun).redeleted
  have hnew : e.merger.newseg = some n := hnew
  have hdeleted : ∀ x ∈ (e.segs n).entries k, (e'.segs n).isDeleted e'.docs x = true ↔
      (e.segs n).isDeleted e.docs x = true ∨ k ∈ e.merger.mergingDeletion := fun x hx => by
    obtain ⟨-, hk⟩ := (hinv.represents n hn).mem_entries.mp hx
    have hiff := hdeleted x (Segment.mem_docPtrs_of_mem_entries hx)
    rw [hinv.pkOf_eq, hk] at hiff
    exact hiff
  simp only [Redeletes, Merged, hnew, Option.mem_some_iff, exists_eq_left']
  constructor
  · rintro ⟨x, hx, hlive, hdel⟩
    exact ⟨⟨x, hx, hlive⟩, ((hdeleted x hx).mp hdel).resolve_left (by simp [hlive])⟩
  · rintro ⟨⟨x, hx, hlive⟩, hpend⟩
    exact ⟨x, hx, hlive, (hdeleted x hx).mpr (.inr hpend)⟩

/-- **When the second deletion keeps to its own cycle.** -/
lemma redeletes_own_iff (hcap : 1 ≤ cap)
    (hrun : (engineSystem (List SegPtr) cap heap).Run ((e, .redelete) :: l) e') :
    (∀ k, e.Redeletes e' k → l.thisCycle.Removed k) ↔ OwnCycle l e := by
  refine forall_congr' fun k => ?_
  rw [redeletes_iff hcap hrun, mem_mergingDeletion_iff hcap hrun.of_cons.1, History.removed_split]
  tauto

/-! ## What becomes of an added document -/

/-- The document is not deleted: a listed segment records it undeleted, or the new segment does,
before that is listed. -/
def Kept (e : ListEngine) (x : DocPtr) : Prop :=
  e.Live x ∨ e.merger.mergeStage = 2 ∧ ∃ n ∈ e.merger.newseg, x ∈ (e.segs n).docPtrs ∧
    (e.segs n).isDeleted e.docs x = false

lemma Inv.kept {as : List Action} {log : SegPtr → List DocPtr} (h : Inv cap heap as e log)
    (hx : e.view.Alive x) : e.Kept x := by
  rcases hx with ⟨p, hp, -, hx⟩ | ⟨hstage, n, hnew, -, hx⟩
  · exact .inl (live_iff_view.mpr ⟨p, hp, hx⟩)
  · obtain ⟨m2, -, hunlinked⟩ := h.unlinked hstage hnew
    exact .inr ⟨hstage, n, hnew, hx, hunlinked.clean _⟩

/-- Every second deletion among the steps keeps to its own cycle. -/
def AllOwn (l : History) : Prop :=
  ∀ l₁ l₂ s, l = l₂ ++ (s, .redelete) :: l₁ → OwnCycle l₁ s

/-- **An added document is kept** as long as no task concerns its key and every second deletion
keeps to its own cycle. -/
lemma alive_of_allOwn {e₁ : ListEngine} (hcap : 1 ≤ cap)
    (hrun : (engineSystem (List SegPtr) cap heap).Run ((e, .add d) :: l) e₁)
    (hpath : (engineSystem (List SegPtr) cap heap).Path ((e, .add d) :: l) e₁ m e')
    (hkey : ∀ a ∈ actions m, ¬View.OnKey (pkOf heap) (pkOf heap d) a)
    (hown : AllOwn (m ++ (e, .add d) :: l)) :
    e'.view.Alive d ∧ ((∀ q ∈ m, q.1.merger.mergeStage ≠ 0) → e'.view.Outside d) := by
  have hbase := (step_of_run hcap hrun).alive_add
  refine path_invariant hcap hrun (fun m e' =>
    (∀ a ∈ actions m, ¬View.OnKey (pkOf heap) (pkOf heap d) a) →
    AllOwn (m ++ (e, .add d) :: l) →
    e'.view.Alive d ∧ ((∀ q ∈ m, q.1.merger.mergeStage ≠ 0) → e'.view.Outside d))
    (fun _ _ => ⟨hbase.1, fun _ => hbase.2⟩)
    (fun {m s a s'} hpath ih hinv hen hexec hstep hkey hown => ?_) hpath hkey hown
  obtain ⟨hka, hkm⟩ := List.forall_mem_cons.mp hkey
  obtain ⟨halive, houtside⟩ := ih hkm fun l₁ l₂ t ht => hown l₁ ((s, a) :: l₂) t (by simp [ht])
  obtain ⟨log, hinv⟩ := hinv
  refine ⟨hstep.alive halive hka ?_, fun hcycle => ?_⟩
  · rintro rfl h5 n hn hnew hd hpend
    -- the document would be recorded and merged, so its key was removed in this very cycle,
    -- before the addition; but then the new segment cannot hold it
    have hmerged : s.Merged (pkOf heap d) := by
      obtain ⟨p, hp, hdp, hlive⟩ := halive.live (by omega)
      have hlog := (hinv.mem_docPtrs hn).mp hd
      have hpn : p = n := by
        by_contra hne
        exact hinv.disjoint p hp n hn hne ((hinv.mem_docPtrs hp).mp hdp) hlog
      subst hpn
      exact ⟨p, hnew, d, (hinv.represents p hn).mem_entries.mpr ⟨hlog, (hinv.pkOf_eq d).symm⟩,
        by simpa [view] using hlive⟩
    have hrem := History.removed_split.mp
      ((mem_mergingDeletion_iff hcap (hrun.append hpath)).mp hpend)
    obtain ⟨q, hq, -, hqk⟩ := hrem.elim id fun hrem => hown _ [] s rfl _ hrem hmerged
    rcases History.mem_thisCycle_append hq with hq | hcycle
    · exact hkm q.2 (List.mem_map_of_mem hq) (by rw [hqk]; rfl)
    · exact (houtside hcycle).newseg (by omega) (by omega) n hnew (.inr hn) hd
  · obtain ⟨hstage, hcycle⟩ := List.forall_mem_cons.mp hcycle
    exact hstep.outside (houtside hcycle) hstage fun he => hka (he ▸ rfl)

/-- **Deletions recorded for one merge cycle, and the next.**  A second deletion deletes keys
removed during its own cycle only, if and only if no key removed during an earlier cycle, and not
during its own, has an undeleted document in the new segment.  In a run all of whose second
deletions meet this condition, a document is kept for as long as no task concerns its key,
however many merge cycles pass. -/
theorem redeletes_own_cycle_iff (hcap : 1 ≤ cap)
    (hrun : (engineSystem (List SegPtr) cap heap).Run l e) :
    (∀ l₁ l₂ s s', l = l₂ ++ (s, .redelete) :: l₁ → exec cap .redelete s = .ok s' →
      ((∀ k, s.Redeletes s' k → History.Removed (History.thisCycle l₁) k) ↔ OwnCycle l₁ s)) ∧
    (AllOwn l → ∀ l₁ l₂ s d, l = l₂ ++ (s, .add d) :: l₁ →
      (∀ a ∈ actions l₂, ¬View.OnKey (pkOf heap) (pkOf heap d) a) →
      e.Kept d ∧ (e.merger.mergeStage ≠ 2 → e.Live d)) := by
  constructor
  · rintro l₁ l₂ s s' rfl hexec
    obtain ⟨t, hpath, hen, hexec', -⟩ := System.Path.split hrun
    obtain rfl := Except.ok.inj (hexec.symm.trans hexec')
    exact redeletes_own_iff hcap (hpath.cons hen hexec)
  · rintro hown l₁ l₂ s d rfl hkey
    obtain ⟨log, hinv⟩ := inv_of_run hcap hrun
    obtain ⟨s', hpath, hen, hexec, hrest⟩ := System.Path.split hrun
    have halive := (alive_of_allOwn hcap (hpath.cons hen hexec) (by simpa using hrest) hkey hown).1
    exact ⟨hinv.kept halive, fun hne => live_iff_view.mpr (halive.live hne)⟩

/-- `redeletes_own_cycle_iff` for a first merge: the key removed during it is deleted again, and
the document of another key is kept. -/
theorem redeletes_own_cycle_iff_sample :
    ∃ l e e', (engineSystem (List SegPtr) 1 sampleHeap).Run ((e, .redelete) :: l) e' ∧
      e.Redeletes e' 2 ∧ History.Removed (History.thisCycle l) 2 ∧ e'.Live 3 := by
  obtain ⟨l, e, e', m, t, hrun, hpath, hl, hm, htest⟩ := System.exists_path_of_execAll
    (M := engineSystem (List SegPtr) 1 sampleHeap)
    (fun l e _ e' => decide (e.Redeletes e' 2 ∧ (∀ q ∈ History.earlierCycles l,
      History.InCycle q = false) ∧ e'.merger.mergeStage = 6))
    [.add 1, .add 2, .add 3, .remove 1, .procCheck, .procMigrate, .remove 2, .replaceSegs,
      .procRelease, .procRedelete] .redelete [] (by decide +kernel)
  obtain rfl := List.map_eq_nil_iff.mp hm
  cases hpath
  obtain ⟨hred, hearlier, hstage⟩ := of_decide_eq_true htest
  have hown : OwnCycle l e := fun k ⟨q, hq, hcycle, _⟩ => by simp [hearlier q hq] at hcycle
  obtain ⟨hiff, hkept⟩ := redeletes_own_cycle_iff le_rfl hrun
  refine ⟨l, e, e', hrun, hred, (hiff l [] e e' rfl hrun.of_cons.2.2).mpr hown 2 hred, ?_⟩
  have hall : AllOwn ((e, .redelete) :: l) := by
    rintro l₁ (- | ⟨q, l₂⟩) s heq
    · obtain ⟨hq, rfl⟩ := List.cons.inj heq
      exact (Prod.mk.inj hq).1 ▸ hown
    · have hmem : Action.redelete ∈ l.map Prod.snd := by simp [(List.cons.inj heq).2]
      simp [hl] at hmem
  have hl : l.map Prod.snd = [.procRedelete, .procRelease, .replaceSegs, .remove 2, .procMigrate,
      .procCheck, .remove 1] ++ .add 3 :: [.add 2, .add 1] := hl
  obtain ⟨l₂, l₁, rfl, hl₂, hl₁⟩ := List.map_eq_append_iff.mp hl
  obtain ⟨⟨s, a⟩, l₀, rfl, rfl, -⟩ := List.map_eq_cons_iff.mp hl₁
  refine (hkept hall l₀ ((e, .redelete) :: l₂) s 3 rfl ?_).2 (by omega)
  simp [actions, hl₂, View.OnKey, pkOf, sampleHeap, sampleDocument]

/-- **A deletion carried over.**  The key 2 is removed during a first merge and added again after
it; the second merge deletes the new document. -/
theorem redeletes_other_cycle :
    ∃ l e e', (engineSystem (List SegPtr) 1 sampleHeap).Run ((e, .redelete) :: l) e' ∧
      e.Redeletes e' 2 ∧ ¬History.Removed (History.thisCycle l) 2 ∧
      e.liveDocs 2 = [12] ∧ e'.liveDocs 2 = [] := by
  obtain ⟨l, e, e', m, t, hrun, hpath, -, hm, htest⟩ := System.exists_path_of_execAll
    (M := engineSystem (List SegPtr) 1 sampleHeap)
    (fun l e _ e' => decide (e.Redeletes e' 2 ∧ ¬History.Removed (History.thisCycle l) 2 ∧
      e.liveDocs 2 = [12] ∧ e'.liveDocs 2 = []))
    [.add 1, .add 2, .add 3, .remove 1, .procCheck, .remove 2, .procMigrate, .replaceSegs,
      .procRelease, .procReset, .add 12, .add 4, .remove 3, .procCheck, .procMigrate, .replaceSegs,
      .procRelease, .procRedelete] .redelete [] (by decide +kernel)
  obtain rfl := List.map_eq_nil_iff.mp hm
  cases hpath
  exact ⟨l, e, e', hrun, of_decide_eq_true htest⟩

end Engine

end TsEngine
