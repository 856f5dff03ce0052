import TsEngine.Engine.Reachable

/-!
# The handshake between the merger and the input thread

`ts_merge_proc_migrate` and `ts_merge_proc_redelete` enqueue a task and only then write the
stage, while the handler of that task, on the other thread, writes the next stage itself.
`threadSystem` takes the enqueue and the write as two steps.  If the handler runs between them,
its stage is overwritten and the merger waits for a task that has come and gone
(`handshake_lost`).

If no handler runs in that gap, the two threads behave as `engineSystem`: completing the write
that is pending turns a run of the one into a run of the other (`settled_run`).  From this the
course of the stages follows (`handshake`).
-/

namespace TsEngine

open Framework

/-- Where the merger's thread is: between two procedures, or in front of the write that follows
an enqueue. -/
inductive MergerPc
  | idle
  | migrating
  | redeleting
  deriving DecidableEq

/-- The engine together with the merger's position. -/
structure Threads where
  engine : ListEngine
  pc : MergerPc

/-- The steps of the two threads. -/
inductive ThreadStep
  /-- A task or a lookup, or a procedure up to its enqueue. -/
  | run (a : Action)
  /-- `merger->merge_stage = …` after the enqueue. -/
  | write
  deriving DecidableEq

/-- The procedures of the merger's thread. -/
def Action.isProc : Action → Bool
  | .procCheck | .procMigrate | .procRelease | .procRedelete | .procReset => true
  | _ => false

/-- The handlers of the tasks that the merger enqueues. -/
def ThreadStep.isHandler : ThreadStep → Bool
  | .run .replaceSegs | .run .redelete => true
  | _ => false

namespace Threads

/-- The effect of a step. -/
def exec (cap : ℕ) : ThreadStep → Threads → Except Fault Threads
  | .write, t =>
      match t.pc with
      | .idle => .ok t
      | .migrating => .ok ⟨t.engine.setStage 2, .idle⟩
      | .redeleting => .ok ⟨t.engine.setStage 5, .idle⟩
  | .run .procMigrate, t =>
      if t.engine.merger.mergeStage ≠ 1 then .ok t
      else t.engine.migrateAndEnqueue.map fun e => ⟨e, .migrating⟩
  | .run .procRedelete, t =>
      if t.engine.merger.mergeStage ≠ 4 then .ok t
      else .ok ⟨t.engine.redeleteEnqueue, .redeleting⟩
  | .run a, t => (Engine.exec cap a t.engine).map fun e => ⟨e, t.pc⟩

/-- The actions of the engine in a history. -/
def engineActions (l : List (Threads × ThreadStep)) : List Action :=
  l.filterMap fun q =>
    match q.2 with
    | .run a => some a
    | .write => none

/-- When a step may be taken: the merger writes what is pending before it does anything else. -/
def Enabled (cap : ℕ) (as : List Action) (t : Threads) : ThreadStep → Prop
  | .write => t.pc ≠ .idle
  | .run a => a.Enabled cap as t.engine ∧ (a.isProc = true → t.pc = .idle)

instance (cap : ℕ) (as : List Action) (t : Threads) (a : ThreadStep) :
    Decidable (t.Enabled cap as a) :=
  match a with
  | .write => inferInstanceAs (Decidable (t.pc ≠ .idle))
  | .run a => inferInstanceAs (Decidable (a.Enabled cap as t.engine ∧ (a.isProc = true → _)))

/-- The merger is between two procedures and waits for a task that is no longer in the queue. -/
def Stuck (t : Threads) : Prop :=
  t.pc = .idle ∧ (t.engine.merger.mergeStage = 2 ∧ .replace ∉ t.engine.inputQueue ∨
    t.engine.merger.mergeStage = 5 ∧ .redelete ∉ t.engine.inputQueue)

instance (t : Threads) : Decidable t.Stuck :=
  inferInstanceAs (Decidable (_ ∧ (_ ∧ _ ∨ _ ∧ _)))

/-- The engine once the pending write is made. -/
def settled (t : Threads) : ListEngine :=
  match t.pc with
  | .idle => t.engine
  | .migrating => t.engine.setStage 2
  | .redeleting => t.engine.setStage 5

end Threads

/-- The two threads, taking turns in any order. -/
def threadSystem (cap : ℕ) (heap : DocHeap) : System Threads ThreadStep Fault where
  init := ⟨.new heap, .idle⟩
  enabled l t a := t.Enabled cap (Threads.engineActions l) a
  exec := Threads.exec cap

instance (cap : ℕ) (heap : DocHeap) (l : List (Threads × ThreadStep)) (t : Threads)
    (a : ThreadStep) : Decidable ((threadSystem cap heap).enabled l t a) :=
  inferInstanceAs (Decidable (t.Enabled cap (Threads.engineActions l) a))

/-- The step does not run a handler in the gap between enqueue and write. -/
def OutsideGap (q : Threads × ThreadStep) : Prop := q.2.isHandler = true → q.1.pc = .idle

namespace Engine

variable {cap : ℕ} {e e' : ListEngine} {a : Action}

/-! ## Tasks and lookups do not see the stage -/

/-- The actions of the clients: tasks and lookups. -/
def isClient : Action → Bool
  | .add _ | .remove _ | .lookupEnter _ | .lookupLeave _ => true
  | _ => false

lemma removeFromAll_setStage (e : ListEngine) (pk s : ℕ) :
    (e.setStage s).removeFromAll pk = (e.removeFromAll pk).setStage s :=
  List.foldl_hom (fun e : ListEngine => e.setStage s) (fun _ _ => rfl)

lemma removeFromAll_merger (e : ListEngine) (pk : ℕ) : (e.removeFromAll pk).merger = e.merger := by
  unfold removeFromAll
  generalize e.listed = ps
  induction ps generalizing e with
  | nil => rfl
  | cons p ps ih => exact ih _

lemma rollOver_merger (e : ListEngine) : (e.rollOver cap).merger = e.merger := by
  unfold rollOver
  split_ifs <;> rfl

lemma rollOver_setStage (e : ListEngine) (s : ℕ) :
    (e.setStage s).rollOver cap = (e.rollOver cap).setStage s := by
  unfold rollOver
  split_ifs with h h' h'
  · rfl
  · exact absurd h h'
  · exact absurd h' h
  · rfl

/-- **A task or a lookup commutes with a write of the stage** that does not start or end a
cycle. -/
lemma exec_setStage (ha : isClient a = true) (hstage : e.merger.mergeStage ≠ 0) {s : ℕ}
    (hs : s ≠ 0) :
    Engine.exec cap a (e.setStage s) = (Engine.exec cap a e).map fun e => e.setStage s := by
  cases a with
  | add d =>
      simp only [Engine.exec, Engine.addDocumentHandler, rollOver_setStage, removeFromAll_setStage]
      rfl
  | remove k =>
      have h0 : 0 < (e.removeFromAll k).merger.mergeStage := by
        rw [removeFromAll_merger]
        exact Nat.pos_of_ne_zero hstage
      have hs : 0 < ((e.removeFromAll k).setStage s).merger.mergeStage := Nat.pos_of_ne_zero hs
      simp only [Engine.exec, Engine.removeDocumentHandler, removeFromAll_setStage]
      rw [if_pos h0, if_pos hs]
      rfl
  | lookupEnter seg => rfl
  | lookupLeave seg => rfl
  | _ => simp [isClient] at ha

/-- A task or a lookup leaves the stage alone. -/
lemma stage_of_client (ha : isClient a = true) (hexec : Engine.exec cap a e = .ok e') :
    e'.merger.mergeStage = e.merger.mergeStage := by
  cases a with
  | add d =>
      obtain rfl := Except.ok.inj hexec
      show ((e.rollOver cap).removeFromAll _).merger.mergeStage = _
      rw [removeFromAll_merger, rollOver_merger]
  | remove k =>
      obtain rfl := Except.ok.inj hexec
      have hrem := congrArg Merger.mergeStage (removeFromAll_merger e k)
      simp only [Engine.removeDocumentHandler]
      split_ifs
      · exact hrem
      · exact hrem
  | lookupEnter seg => exact Except.ok.inj hexec ▸ rfl
  | lookupLeave seg => exact Except.ok.inj hexec ▸ rfl
  | _ => simp [isClient] at ha

/-- Migrating does not write the stage. -/
lemma stage_of_migrateAndEnqueue (hexec : e.migrateAndEnqueue = .ok e') :
    e'.merger.mergeStage = e.merger.mergeStage := by
  obtain ⟨m1, -, hexec⟩ := bind_eq_ok.mp hexec
  obtain ⟨m2, -, hexec⟩ := bind_eq_ok.mp hexec
  exact Except.ok.inj hexec ▸ rfl

end Engine

namespace Threads

open Engine

variable {cap : ℕ} {heap : DocHeap} {l : List (Threads × ThreadStep)} {t t' : Threads}
  {a : ThreadStep}

/-! ## The threads refine the engine -/

/-- Where the merger is in front of a write, the stage is still the one before. -/
structure PcOk (t : Threads) : Prop where
  migrating : t.pc = .migrating → t.engine.merger.mergeStage = 1
  redeleting : t.pc = .redeleting → t.engine.merger.mergeStage = 4

/-- A procedure that does not enqueue, a task, a lookup or a handler is one step of the engine. -/
lemma exec_run {b : Action} (hm : b ≠ .procMigrate) (hr : b ≠ .procRedelete)
    (hexec : exec cap (.run b) t = .ok t') :
    Engine.exec cap b t.engine = .ok t'.engine ∧ t'.pc = t.pc := by
  have hexec : (Engine.exec cap b t.engine).map (fun e => (⟨e, t.pc⟩ : Threads)) = .ok t' := by
    cases b with
    | procMigrate => exact absurd rfl hm
    | procRedelete => exact absurd rfl hr
    | _ => exact hexec
  obtain ⟨e, he, rfl⟩ := map_eq_ok.mp hexec
  exact ⟨he, rfl⟩

/-- The procedures that enqueue leave the stage to the write that follows. -/
lemma stage_of_enqueue {b : Action} (hb : b = .procMigrate ∨ b = .procRedelete)
    (hexec : exec cap (.run b) t = .ok t') :
    t'.engine.merger.mergeStage = t.engine.merger.mergeStage := by
  rcases hb with rfl | rfl
  · simp only [exec] at hexec
    split_ifs at hexec
    · exact Except.ok.inj hexec ▸ rfl
    · obtain ⟨e, hmig, rfl⟩ := map_eq_ok.mp hexec
      exact stage_of_migrateAndEnqueue hmig
  · simp only [exec] at hexec
    split_ifs at hexec
    · exact Except.ok.inj hexec ▸ rfl
    · exact Except.ok.inj hexec ▸ rfl

/-- Between two procedures the engine is settled. -/
lemma settled_of_idle (hpc : t.pc = .idle) : t.settled = t.engine := by
  simp [settled, hpc]

/-- A step that starts between two procedures. -/
lemma settled_step_idle {b : Action} (hpc : t.pc = .idle)
    (hexec : exec cap (.run b) t = .ok t') :
    t'.PcOk ∧ Engine.exec cap b t.settled = .ok t'.settled := by
  rw [settled_of_idle hpc]
  have hidle : ∀ {t' : Threads}, t'.pc = .idle → t'.PcOk := fun hpc' =>
    ⟨fun h => by simp [hpc'] at h, fun h => by simp [hpc'] at h⟩
  by_cases hm : b = .procMigrate
  · subst hm
    simp only [exec] at hexec
    split_ifs at hexec with hstage
    · obtain rfl := Except.ok.inj hexec
      rw [settled_of_idle hpc]
      exact ⟨hidle hpc, if_pos hstage⟩
    · obtain ⟨e, hmig, rfl⟩ := map_eq_ok.mp hexec
      have he := stage_of_migrateAndEnqueue hmig
      refine ⟨⟨fun _ => he.trans (by simpa using hstage), fun h => by simp at h⟩, ?_⟩
      simp [Engine.exec, Engine.mergeProcMigrate, hstage, hmig, settled, bind, Except.bind]
  by_cases hr : b = .procRedelete
  · subst hr
    simp only [exec] at hexec
    split_ifs at hexec with hstage
    · obtain rfl := Except.ok.inj hexec
      rw [settled_of_idle hpc]
      exact ⟨hidle hpc, congrArg Except.ok (if_pos hstage)⟩
    · obtain rfl := Except.ok.inj hexec
      refine ⟨⟨fun h => by simp at h, fun _ => of_not_not hstage⟩, ?_⟩
      exact congrArg Except.ok (if_neg hstage)
  obtain ⟨he, hpc'⟩ := exec_run hm hr hexec
  rw [settled_of_idle (hpc'.trans hpc)]
  exact ⟨hidle (hpc'.trans hpc), he⟩

/-- A step in the gap is one of a client, and the pending write can be made before it. -/
lemma settled_step_gap {as : List Action} {b : Action} (hok : t.PcOk) (hpc : t.pc ≠ .idle)
    (hb : isClient b = true) (hen : b.Enabled cap as t.engine)
    (hexec : exec cap (.run b) t = .ok t') :
    t'.PcOk ∧ b.Enabled cap as t.settled ∧ Engine.exec cap b t.settled = .ok t'.settled := by
  obtain ⟨he, hpc'⟩ := exec_run (fun h => by simp [h, isClient] at hb)
    (fun h => by simp [h, isClient] at hb) hexec
  have hstage := stage_of_client hb he
  have hsettled : ∃ s, s ≠ 0 ∧ t.settled = t.engine.setStage s ∧
      t'.settled = t'.engine.setStage s ∧ t.engine.merger.mergeStage ≠ 0 := by
    cases hcase : t.pc with
    | idle => exact absurd hcase hpc
    | migrating =>
        exact ⟨2, by simp, by simp [settled, hcase], by simp [settled, hpc', hcase],
          by simp [hok.migrating hcase]⟩
    | redeleting =>
        exact ⟨5, by simp, by simp [settled, hcase], by simp [settled, hpc', hcase],
          by simp [hok.redeleting hcase]⟩
  obtain ⟨s, hs, heq, heq', h0⟩ := hsettled
  refine ⟨⟨fun h => hstage.trans (hok.migrating (hpc' ▸ h)),
    fun h => hstage.trans (hok.redeleting (hpc' ▸ h))⟩, ?_, ?_⟩
  · rw [heq]
    cases b <;> exact hen
  · rw [heq, heq', exec_setStage hb h0 hs, he]
    rfl

/-- **The threads refine the engine**, as long as no handler runs in the gap: with the pending
write made, their runs are runs of the engine. -/
theorem settled_run (hrun : (threadSystem cap heap).Run l t) (hgap : ∀ q ∈ l, OutsideGap q) :
    t.PcOk ∧ ∃ l', (engineSystem (List SegPtr) cap heap).Run l' t.settled ∧
      actions l' = engineActions l := by
  refine System.Run.invariant (fun l t => (∀ q ∈ l, OutsideGap q) → t.PcOk ∧ ∃ l',
    (engineSystem (List SegPtr) cap heap).Run l' t.settled ∧ actions l' = engineActions l)
    (fun _ => ⟨⟨fun h => by simp [threadSystem] at h, fun h => by simp [threadSystem] at h⟩, [],
      .nil, rfl⟩) (fun {l t a t'} hrun ih hen hexec hgap => ?_) hrun hgap
  obtain ⟨hga, hgap⟩ := List.forall_mem_cons.mp hgap
  obtain ⟨hok, l', hrun', hacts⟩ := ih hgap
  cases a with
  | write =>
      have hstay : t'.PcOk ∧ t'.settled = t.settled := by
        obtain ⟨e, pc⟩ := t
        cases pc <;> obtain rfl := Except.ok.inj hexec <;>
          exact ⟨⟨fun h => by simp at h, fun h => by simp at h⟩, rfl⟩
      exact ⟨hstay.1, l', hstay.2 ▸ hrun', hacts⟩
  | run b =>
      obtain ⟨hen, hproc⟩ := hen
      have hstep : t'.PcOk ∧ b.Enabled cap (engineActions l) t.settled ∧
          Engine.exec cap b t.settled = .ok t'.settled := by
        by_cases hpc : t.pc = .idle
        · obtain ⟨hok', he⟩ := settled_step_idle hpc hexec
          exact ⟨hok', (settled_of_idle hpc).symm ▸ hen, he⟩
        · refine settled_step_gap hok hpc ?_ hen hexec
          cases b <;> first | rfl | exact absurd (hproc rfl) hpc | exact absurd (hga rfl) hpc
      refine ⟨hstep.1, (t.settled, b) :: l', hrun'.step ?_ hstep.2.2, congrArg (b :: ·) hacts⟩
      show b.Enabled cap (actions l') t.settled
      rw [hacts]
      exact hstep.2.1

/-! ## The course of the stages -/

/-- What a step may do to the stage.  `View.Move` has the moves of the procedures; the enqueuing
ones leave theirs to a write. -/
inductive StageMove : ThreadStep → ℕ → ℕ → Prop
  | move {a : ThreadStep} {s s' : ℕ} (ha : a.isHandler = false) (h : View.Move s s') :
      StageMove a s s'
  | migrated : StageMove .write 1 2
  | replaced : StageMove (.run .replaceSegs) 2 3
  | redeleted : StageMove (.run .redelete) 5 6

/-- The stages one step of the engine can lead to. -/
lemma stageMove_of_view {pk : DocPtr → ℕ} {b : Action} {v v' : View} (h : View.Step pk b v v')
    (hb : b ≠ .procMigrate) : StageMove (.run b) v.stage v'.stage := by
  cases h with
  | neutral ha hmove =>
      refine .move ?_ hmove
      cases b <;> first | rfl | exact absurd trivial ha
  | remove => exact .move rfl (.stay _)
  | add => exact .move rfl (.stay _)
  | migrate => exact absurd rfl hb
  | replace h2 => exact h2 ▸ .replaced
  | redelete h5 => exact h5 ▸ .redeleted

/-- **Every step outside the gap moves the stage as it should.** -/
lemma stageMove_of_run (hcap : 1 ≤ cap) (hrun : (threadSystem cap heap).Run ((t, a) :: l) t')
    (hgap : ∀ q ∈ (t, a) :: l, OutsideGap q) :
    StageMove a t.engine.merger.mergeStage t'.engine.merger.mergeStage := by
  obtain ⟨hga, hgap⟩ := List.forall_mem_cons.mp hgap
  obtain ⟨hrun, hen, hexec⟩ := hrun.of_cons
  obtain ⟨hok, l', hrun', hacts⟩ := settled_run hrun hgap
  obtain ⟨log, hinv⟩ := inv_of_run hcap hrun'
  cases a with
  | write =>
      obtain ⟨e, pc⟩ := t
      cases pc with
      | idle => exact absurd rfl hen
      | migrating =>
          obtain rfl := Except.ok.inj hexec
          exact (hok.migrating rfl : e.merger.mergeStage = 1) ▸ .migrated
      | redeleting =>
          obtain rfl := Except.ok.inj hexec
          exact (hok.redeleting rfl : e.merger.mergeStage = 4) ▸ .move rfl .redelete
  | run b =>
      obtain ⟨hen, hproc⟩ := hen
      by_cases hpc : t.pc = .idle
      · by_cases hm : b = .procMigrate
        · exact .move (hm ▸ rfl) (stage_of_enqueue (.inl hm) hexec ▸ .stay _)
        by_cases hr : b = .procRedelete
        · exact .move (hr ▸ rfl) (stage_of_enqueue (.inr hr) hexec ▸ .stay _)
        rw [settled_of_idle hpc, hacts] at hinv
        exact stageMove_of_view (hinv.step hcap hen (exec_run hm hr hexec).1) hm
      · have hb : isClient b = true := by
          cases b <;> first | rfl | exact absurd (hproc rfl) hpc | exact absurd (hga rfl) hpc
        have he := (exec_run (fun h => by simp [h, isClient] at hb)
          (fun h => by simp [h, isClient] at hb) hexec).1
        rw [stage_of_client hb he]
        refine .move ?_ (.stay _)
        cases b <;> first | rfl | simp [isClient] at hb

/-- The steps since the stage was last 0. -/
def thisCycle (l : List (Threads × ThreadStep)) : List (Threads × ThreadStep) :=
  l.takeWhile fun q => decide (q.1.engine.merger.mergeStage ≠ 0)

/-- How often a handler has run in the cycle in progress. -/
def ranInCycle (l : List (Threads × ThreadStep)) (b : Action) : ℕ :=
  (thisCycle l).countP fun q => decide (q.2 = .run b)

/-- Stage 5 has been passed in the cycle in progress. -/
def Passed5 (l : List (Threads × ThreadStep)) : Prop :=
  ∃ q ∈ thisCycle l, q.1.engine.merger.mergeStage = 5

instance (l : List (Threads × ThreadStep)) : Decidable (Passed5 l) :=
  inferInstanceAs (Decidable (∃ q ∈ thisCycle l, q.1.engine.merger.mergeStage = 5))

/-- What has happened in the cycle in progress, by its stage. -/
structure CycleOk (l : List (Threads × ThreadStep)) (s : ℕ) : Prop where
  le : ∀ q ∈ thisCycle l, q.1.engine.merger.mergeStage ≤ s
  replaced : ranInCycle l .replaceSegs = if 3 ≤ s then 1 else 0
  redeleted : ranInCycle l .redelete = if s = 6 ∧ Passed5 l then 1 else 0

/-- The first step of a cycle. -/
lemma cycleOk_first {s' : ℕ} (h0 : t.engine.merger.mergeStage = 0)
    (hmove : StageMove a t.engine.merger.mergeStage s') : CycleOk ((t, a) :: l) s' := by
  have hnil : thisCycle ((t, a) :: l) = [] := by simp [thisCycle, h0]
  have hs' : s' ≤ 1 := by
    rw [h0] at hmove
    cases hmove with
    | move _ h => cases h <;> omega
  refine ⟨by simp [hnil], ?_, ?_⟩
  · rw [if_neg (by omega), ranInCycle, hnil, List.countP_nil]
  · rw [if_neg (by omega), ranInCycle, hnil, List.countP_nil]

/-- One more step of the cycle. -/
lemma CycleOk.step {s' : ℕ} (h : CycleOk l t.engine.merger.mergeStage)
    (h0 : t.engine.merger.mergeStage ≠ 0) (hs' : s' ≠ 0)
    (hmove : StageMove a t.engine.merger.mergeStage s') : CycleOk ((t, a) :: l) s' := by
  have hcons : thisCycle ((t, a) :: l) = (t, a) :: thisCycle l := by simp [thisCycle, h0]
  have hran : ∀ b, ranInCycle ((t, a) :: l) b = ranInCycle l b + if a = .run b then 1 else 0 := by
    intro b
    simp [ranInCycle, hcons, List.countP_cons]
  have hpassed : Passed5 ((t, a) :: l) ↔ t.engine.merger.mergeStage = 5 ∨ Passed5 l := by
    rw [Passed5, hcons, List.exists_mem_cons_iff]
    rfl
  have hnot5 : t.engine.merger.mergeStage < 5 → ¬Passed5 l := fun hlt ⟨q, hq, h5⟩ => by
    have := h.le q hq
    omega
  have hle : t.engine.merger.mergeStage ≤ s' := by
    generalize t.engine.merger.mergeStage = s at hmove
    cases hmove with
    | move _ hm => cases hm <;> omega
    | _ => omega
  refine ⟨?_, ?_, ?_⟩
  · rw [hcons]
    exact List.forall_mem_cons.mpr ⟨hle, fun q hq => (h.le q hq).trans hle⟩
  · rw [hran, h.replaced]
    generalize t.engine.merger.mergeStage = s at hmove
    cases hmove with
    | move ha hm =>
        have hne : a ≠ .run .replaceSegs := fun he => by simp [he, ThreadStep.isHandler] at ha
        cases hm <;> simp_all
    | _ => simp
  · rw [hran, h.redeleted]
    simp only [hpassed]
    generalize t.engine.merger.mergeStage = s at hmove hnot5
    cases hmove with
    | move ha hm =>
        have hne : a ≠ .run .redelete := fun he => by simp [he, ThreadStep.isHandler] at ha
        cases hm with
        | stay => by_cases h6 : s' = 6 <;> simp [hne, h6]
        | discard => simp [hne, hnot5]
        | _ => simp_all
    | _ => simp

/-- **The counts of the cycle in progress**, in every run outside the gap. -/
lemma cycleOk_of_run (hcap : 1 ≤ cap) (hrun : (threadSystem cap heap).Run l t)
    (hgap : ∀ q ∈ l, OutsideGap q) (h0 : t.engine.merger.mergeStage ≠ 0) :
    CycleOk l t.engine.merger.mergeStage := by
  refine System.Run.invariant (fun l t => (∀ q ∈ l, OutsideGap q) →
    t.engine.merger.mergeStage ≠ 0 → CycleOk l t.engine.merger.mergeStage)
    (fun _ h0 => absurd rfl h0) (fun {l t a t'} hrun ih hen hexec hgap h0' => ?_) hrun hgap h0
  have hmove := stageMove_of_run hcap (hrun.step hen hexec) hgap
  by_cases h0 : t.engine.merger.mergeStage = 0
  · exact cycleOk_first h0 hmove
  · exact (ih (List.forall_mem_cons.mp hgap).2 h0).step h0 h0' hmove

/-- **The handshake.**  In every run of the two threads in which no handler runs between the
enqueue of its task and the write that follows, the merger never waits for a task that is not in
the queue, every step moves the stage as it should (in particular a handler runs at its own
stage), and in a cycle each handler has run once as soon as its stage is passed. -/
theorem handshake (hcap : 1 ≤ cap) (hrun : (threadSystem cap heap).Run l t)
    (hgap : ∀ q ∈ l, OutsideGap q) :
    ¬t.Stuck ∧
    (∀ l₁ l₂ s s' a, l = l₂ ++ (s, a) :: l₁ → exec cap a s = .ok s' →
      StageMove a s.engine.merger.mergeStage s'.engine.merger.mergeStage) ∧
    (t.engine.merger.mergeStage ≠ 0 →
      ranInCycle l .replaceSegs = (if 3 ≤ t.engine.merger.mergeStage then 1 else 0) ∧
      ranInCycle l .redelete = if t.engine.merger.mergeStage = 6 ∧ Passed5 l then 1 else 0) := by
  refine ⟨fun hstuck => ?_, fun l₁ l₂ s s' a heq hexec => ?_, fun h0 => ?_⟩
  · obtain ⟨hpc, hstuck⟩ := hstuck
    obtain ⟨-, l', hrun', -⟩ := settled_run hrun hgap
    obtain ⟨log, hinv⟩ := inv_of_run hcap hrun'
    rw [settled_of_idle hpc] at hinv
    cases hinv.phase with
    | migrated m1 m2 n hstage hqueue => simp [hstage, hqueue] at hstuck
    | redeleting n hstage hqueue => simp [hstage, hqueue] at hstuck
    | _ => omega
  · subst heq
    obtain ⟨s₁, hpath, hen, hexec₁, -⟩ := System.Path.split hrun
    obtain rfl := Except.ok.inj (hexec.symm.trans hexec₁)
    exact stageMove_of_run hcap (hpath.cons hen hexec)
      fun q hq => hgap q (List.mem_append_right _ hq)
  · have hok := cycleOk_of_run hcap hrun hgap h0
    exact ⟨hok.replaced, hok.redeleted⟩

/-- `handshake` for a whole cycle. -/
theorem handshake_sample :
    ∃ l t, (threadSystem 1 sampleHeap).Run l t ∧ t.engine.merger.mergeStage = 6 ∧
      ranInCycle l .replaceSegs = 1 ∧ ranInCycle l .redelete = 1 := by
  obtain ⟨l, t, hrun, htest⟩ := System.exists_run_of_execAll (M := threadSystem 1 sampleHeap)
    (fun l t => decide ((∀ q ∈ l, q.2.isHandler = true → q.1.pc = .idle) ∧
      t.engine.merger.mergeStage = 6 ∧ Passed5 l))
    [.run (.add 1), .run (.add 2), .run (.add 3), .run (.remove 1), .run .procCheck,
      .run .procMigrate, .write, .run .replaceSegs, .run .procRelease, .run .procRedelete, .write,
      .run .redelete] (by decide +kernel)
  obtain ⟨hgap, hstage, hpassed⟩ := of_decide_eq_true htest
  obtain ⟨-, -, hcounts⟩ := handshake le_rfl hrun hgap
  obtain ⟨hrep, hred⟩ := hcounts (by simp [hstage])
  exact ⟨l, t, hrun, hstage, by simpa [hstage] using hrep, by simpa [hstage, hpassed] using hred⟩

/-- **A lost stage**: the replace handler runs before the merger has written stage 2, and the
merger then waits for it at stage 2 for ever. -/
theorem handshake_lost :
    ∃ l t, (threadSystem 1 sampleHeap).Run l t ∧ t.Stuck ∧ t.engine.merger.mergeStage = 2 := by
  obtain ⟨l, t, hrun, htest⟩ := System.exists_run_of_execAll (M := threadSystem 1 sampleHeap)
    (fun _ t => decide (t.Stuck ∧ t.engine.merger.mergeStage = 2))
    [.run (.add 1), .run (.add 2), .run (.add 3), .run (.remove 1), .run .procCheck,
      .run .procMigrate, .run .replaceSegs, .write] (by decide +kernel)
  exact ⟨l, t, hrun, of_decide_eq_true htest⟩

end Threads

end TsEngine
