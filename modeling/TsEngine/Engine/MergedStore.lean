import TsEngine.Engine.Reachable

/-!
# The store across merges

While no merge has begun, the live documents are the values of the map that the tasks stand for.
Here the merger runs.  Between migration and replacement the documents that count are those of the
segments that are not being merged and the copies that wait (`View.Alive`), and no step of the
merger changes which they are (`View.Step.alive_iff`), as long as nothing is left to delete again.

So the engine still implements its map if no task is handled between migration and replacement and
none that removes is handled during a merge (`alive_iff_of_clear`).  Without these conditions
one half is left: the last document added under a key that is never removed is not lost
(`alive_of_never_removed`).
-/

namespace TsEngine

open Framework

namespace View

variable {pk : DocPtr → ℕ} {a : Action} {v v' : View} {x : DocPtr}

lemma alive_iff_live (hstage : v.stage ≠ 2) : v.Alive x ↔ v.Live x :=
  ⟨fun h => h.live hstage, fun h => h.alive hstage⟩

/-- **A merge keeps the documents that count**, if it has nothing to delete again. -/
lemma Step.alive_iff (h : Step pk a v v') (ha : ¬a.IsTask) (hpending : v.pending = ∅) :
    v'.Alive x ↔ v.Alive x := by
  refine ⟨fun hx => ?_, fun hx => h.alive hx ?_ fun _ _ _ _ _ _ => by simp [hpending]⟩
  swap
  · intro hkey
    cases a <;> first | exact hkey | exact ha trivial
  cases h with
  | neutral _ hmove hsources =>
      rcases hx with ⟨p, hp, hm, hx⟩ | ⟨hstage, n, hn⟩
      · refine .inl ⟨p, hp, fun hm' => hm ?_, hx⟩
        exact ⟨hmove.stage_eq_two.mpr hm'.1, (hsources (.inr hm'.1)).symm ▸ hm'.2⟩
      · exact .inr ⟨hmove.stage_eq_two.mp hstage, n, hn⟩
  | remove | add => exact absurd trivial ha
  | @migrate _ m1 m2 n _ _ hstage hsources hm1 hm2 hdead hnl hcopied hholds hkept =>
      have hm : ∀ p, ¬v.Merging p := fun p hm => by simp [hstage, Merging] at hm
      rcases hx with ⟨p, hp, hm', hx, hlive⟩ | ⟨-, n', hn', -, hx⟩
      · have hpn : p ≠ n := fun he => hnl (he ▸ hp)
        have hp2 : p ≠ m2 := fun he => hm' ⟨rfl, by simp [hsources, he]⟩
        have hx : x ∈ v.holds p := (Set.ext_iff.mp (hholds p hpn) x).mp hx
        exact .inl ⟨p, hp, hm p, hx, fun hdel => hlive ((hkept p hp hp2 x hx).mpr hdel)⟩
      · obtain rfl : n = n' := Option.some.inj hn'
        exact .inl ⟨m2, hm2, hm m2, (Set.ext_iff.mp hcopied x).mp hx⟩
  | @replace _ n hstage hnewseg hnl =>
      rcases hx with ⟨p, ⟨hp, hs⟩ | ⟨rfl, -⟩, -, hx, hlive⟩ | ⟨h2, -⟩
      · exact .inl ⟨p, hp, fun hm => hs hm.2, hx, hlive⟩
      · exact .inr ⟨hstage, p, hnewseg, hnl, hx⟩
      · exact absurd h2 (by simp)
  | @redelete _ n _ hstage hnewseg hn hother hdeleted =>
      rcases hx with ⟨p, hp, -, hx, hlive⟩ | ⟨h2, -⟩
      · refine .inl ⟨p, hp, fun hm => by simp [hstage, Merging] at hm, hx, fun hdel => hlive ?_⟩
        by_cases hpn : p = n
        · subst hpn
          exact (hdeleted x hx).mpr (.inl hdel)
        · exact (Set.ext_iff.mp (hother p hpn) x).mpr hdel
      · exact absurd h2 (by simp)

end View

namespace Engine

variable {cap : ℕ} {heap : DocHeap} {l : List (ListEngine × Action)} {e : ListEngine}
  {x : DocPtr} {k : ℕ}

/-- The task, if the action is one, does not meet a merge that would lose it or that it would
leave a key to. -/
def ClearOfMerge {L : Type} : Engine L × Action → Prop
  | (e, .add _) => e.merger.mergeStage ≠ 2
  | (e, .remove _) => e.merger.mergeStage = 0
  | _ => True

instance {L : Type} : DecidablePred (ClearOfMerge (L := L)) := fun q =>
  match q with
  | (e, .add _) => inferInstanceAs (Decidable (e.merger.mergeStage ≠ 2))
  | (e, .remove _) => inferInstanceAs (Decidable (e.merger.mergeStage = 0))
  | (_, .replaceSegs) | (_, .redelete) | (_, .procCheck) | (_, .procMigrate) | (_, .procRelease)
  | (_, .procRedelete) | (_, .procReset) | (_, .lookupEnter _) | (_, .lookupLeave _) =>
      inferInstanceAs (Decidable True)

/-- What is left to delete again was removed. -/
lemma remove_of_mem_pending (hcap : 1 ≤ cap)
    (hrun : (engineSystem (List SegPtr) cap heap).Run l e) (hk : k ∈ e.view.pending) :
    ∃ q ∈ l, q.2 = .remove k ∧ q.1.merger.mergeStage ≠ 0 := by
  refine System.Run.invariant (fun l e => k ∈ e.view.pending →
    ∃ q ∈ l, q.2 = .remove k ∧ q.1.merger.mergeStage ≠ 0) ?_
    (fun {l s a s'} hrun ih hen hexec hk => ?_) hrun hk
  · simp [view, engineSystem, new, Merger.new]
  · rcases (step_of_run hcap (hrun.step hen hexec)).mem_pending.mp hk with hk | ⟨rfl, hstage⟩
    · obtain ⟨q, hq, hremove⟩ := ih hk
      exact ⟨q, List.mem_cons_of_mem _ hq, hremove⟩
    · exact ⟨_, List.mem_cons_self, rfl, hstage⟩

/-- **The store, through any number of merges**: what counts are the values of the map. -/
lemma alive_iff_of_clear (hcap : 1 ≤ cap)
    (hrun : (engineSystem (List SegPtr) cap heap).Run l e) (hl : ∀ q ∈ l, ClearOfMerge q) :
    e.view.Alive x ↔ storeMap heap (actions l) (pkOf heap x) = some x := by
  refine System.Run.invariant (fun l e => (∀ q ∈ l, ClearOfMerge q) →
    (e.view.Alive x ↔ storeMap heap (actions l) (pkOf heap x) = some x)) (fun _ => ?_)
    (fun {l s a s'} hrun ih hen hexec hall => ?_) hrun hl
  · simp [View.Alive, view, engineSystem, new, Segment.new, Segment.docPtrs, storeMap, actions,
      Merger.new]
  obtain ⟨ha, hl⟩ := List.forall_mem_cons.mp hall
  have hstep := step_of_run hcap (hrun.step hen hexec)
  have ih := ih hl
  show _ ↔ storeMap heap (a :: actions l) (pkOf heap x) = some x
  cases a with
  | add d =>
      have hstage : s.view.stage ≠ 2 := ha
      have hstage' : s'.view.stage ≠ 2 := (hstep.stage_of_task trivial).symm ▸ hstage
      rw [View.alive_iff_live hstage', hstep.live_add hstage, ← View.alive_iff_live hstage, ih]
      by_cases hk : pkOf heap x = pkOf heap d
      · rw [storeMap, hk, Function.update_self]
        simp [eq_comm]
      · rw [storeMap, Function.update_of_ne hk]
        have hxd : x ≠ d := fun he => hk (he ▸ rfl)
        simp [hk, hxd]
  | remove k =>
      have hstage : s.view.stage = 0 := ha
      have hne : s.view.stage ≠ 2 := by omega
      have hne' : s'.view.stage ≠ 2 := (hstep.stage_of_task trivial).symm ▸ hne
      rw [View.alive_iff_live hne', hstep.live_remove hne, ← View.alive_iff_live hne, ih]
      by_cases hk : pkOf heap x = k
      · rw [storeMap, hk, Function.update_self]
        simp
      · rw [storeMap, Function.update_of_ne hk]
        simp [hk]
  | _ =>
      have hpending : s.view.pending = ∅ := by
        refine Set.eq_empty_of_forall_notMem fun k hk => ?_
        obtain ⟨q, hq, hremove, hstage⟩ := remove_of_mem_pending hcap hrun hk
        obtain ⟨e, b⟩ := q
        obtain rfl : b = .remove k := hremove
        exact hstage (hl _ hq)
      rw [hstep.alive_iff id hpending, ih]
      rfl

/-- **The last document added under a key that is never removed is not lost**, whatever else is
handled and wherever the merger is. -/
lemma alive_of_never_removed (hcap : 1 ≤ cap)
    (hrun : (engineSystem (List SegPtr) cap heap).Run l e) (hremove : .remove k ∉ actions l)
    (hx : storeMap heap (actions l) k = some x) : e.view.Alive x := by
  refine System.Run.invariant (fun l e => .remove k ∉ actions l →
    storeMap heap (actions l) k = some x → e.view.Alive x) (fun _ hx => ?_)
    (fun {l s a s'} hrun ih hen hexec hremove hx => ?_) hrun hremove hx
  · simp [storeMap, actions] at hx
  have hstep := step_of_run hcap (hrun.step hen hexec)
  obtain ⟨hne, hremove⟩ := not_or.mp (mt List.mem_cons.mpr hremove)
  have hkept : storeMap heap (actions l) k = some x → ¬View.OnKey (pkOf heap) (pkOf heap x) a →
      s'.view.Alive x := fun hx hkey => by
    refine hstep.alive (ih hremove hx) hkey fun _ _ n _ _ _ hpending => ?_
    obtain ⟨q, hq, heq, -⟩ := remove_of_mem_pending hcap hrun hpending
    rw [pkOf_of_storeMap hx] at heq
    exact hremove (List.mem_map.mpr ⟨q, hq, heq⟩)
  have hx' : storeMap heap (a :: actions l) k = some x := hx
  have hk := pkOf_of_storeMap hx'
  cases a with
  | add d =>
      by_cases hd : k = pkOf heap d
      · obtain rfl : d = x := by simpa [storeMap, hd] using hx'
        exact hstep.alive_add.1
      · refine hkept (by simpa [storeMap, hd] using hx') fun hkey => hd ?_
        exact hk.symm.trans (Eq.symm hkey)
  | remove k' =>
      have hk' : k ≠ k' := fun he => hne (he ▸ rfl)
      refine hkept (by simpa [storeMap, hk'] using hx') fun hkey => hk' ?_
      exact hk.symm.trans (Eq.symm hkey)
  | _ => exact hkept hx' id

/-- The live documents of a key, where no merge is between migration and replacement. -/
lemma liveDocs_of_clear (hcap : 1 ≤ cap)
    (hrun : (engineSystem (List SegPtr) cap heap).Run l e) (hl : ∀ q ∈ l, ClearOfMerge q)
    (hstage : e.merger.mergeStage ≠ 2) : e.liveDocs k = (storeMap heap (actions l) k).toList := by
  obtain ⟨log, hinv⟩ := inv_of_run hcap hrun
  refine hinv.liveDocs_eq fun x => ?_
  rw [← View.alive_iff_live hstage, alive_iff_of_clear hcap hrun hl]
  exact ⟨fun ⟨hx, hk⟩ => hk ▸ hx, fun hx => ⟨(pkOf_of_storeMap hx).symm ▸ hx, pkOf_of_storeMap hx⟩⟩

lemma mem_liveDocs_of_never_removed (hcap : 1 ≤ cap)
    (hrun : (engineSystem (List SegPtr) cap heap).Run l e) (hremove : .remove k ∉ actions l)
    (hstage : e.merger.mergeStage ≠ 2) (hx : storeMap heap (actions l) k = some x) :
    x ∈ e.liveDocs k := by
  obtain ⟨log, hinv⟩ := inv_of_run hcap hrun
  have halive := alive_of_never_removed hcap hrun hremove hx
  exact hinv.mem_liveDocs.mpr ⟨halive.live hstage, pkOf_of_storeMap hx⟩

end Engine

end TsEngine
