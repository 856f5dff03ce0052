import TsEngine.Engine.LookupFrames
import TsEngine.Framework.RefCount

/-!
# Lookups and released segments

A lookup that is counted in a segment keeps it from being released; one that has fetched the
pointer and is not yet counted, or is no longer counted and has still to read the next pointer,
does not.  `lookup_safe_iff` shows that these two windows, and a wrapped counter, are all there is:
no step of a lookup in a run touches anything released if and only if no release in it finds a
counter at zero while a lookup is in a window at that segment, or `2 ^ 32` of them are counted
in it.

The invariant (`Protected`) says where the pointers of the lookups can lead.  A segment is in use
while it is listed, and after that until it is released; the `next` pointers of such segments lead
to segments in use; and the documents of such segments are not released.
-/

namespace TsEngine

open Framework

/-! ## Steps that do not unlink -/

namespace View

variable {pk : DocPtr → ℕ} {a : Action} {v v' : View}

/-- Only the replace handler unlinks segments. -/
lemma Step.listed_subset (h : Step pk a v v') (ha : a ≠ .replaceSegs) : v.listed ⊆ v'.listed := by
  cases h with
  | add => exact fun p hp => .inl hp
  | replace => exact absurd rfl ha
  | _ => exact fun p hp => hp

/-- Only the replace handler leads to stage 3. -/
lemma Step.stage_eq_three (h : Step pk a v v') (ha : a ≠ .replaceSegs) (hstage : v'.stage = 3) :
    v.stage = 3 := by
  cases h with
  | neutral _ hmove => exact (hmove.eq_of_waiting (.inr hstage)).trans hstage
  | remove => exact hstage
  | add => exact hstage
  | migrate => exact absurd hstage (by simp)
  | replace => exact absurd rfl ha
  | redelete => exact absurd hstage (by simp)

end View

namespace Engine

variable {cap : ℕ} {heap : DocHeap} {as : List Action} {l : List (ListEngine × Action)}
  {e e' : ListEngine} {u v : Utlist SegPtr} {log : SegPtr → List DocPtr} {p : SegPtr}
  {lookups : List Lookup} {lk lk' : Lookup} {i : ℕ}

/-! ## Segments in use -/

/-- A source that the replace handler has unlinked and that has not been released. -/
def Detached (e : ListEngine) (p : SegPtr) : Prop :=
  e.merger.mergeStage = 3 ∧ p ∈ e.merger.sources

/-- The segment is listed, or it is a source that has not been released. -/
def InUse (e : ListEngine) (p : SegPtr) : Prop := p ∈ e.segments ∨ e.Detached p

lemma Inv.unlisted (h : Inv cap heap as e log) (hp : e.Detached p) :
    p ∉ e.segments ∧ p < e.nextSeg ∧ p ∉ e.freedSegs := by
  obtain ⟨n, -, -, hold⟩ := h.phase_replaced hp.1
  have hsource := mem_sources.mp hp.2
  exact ⟨hold.notMem p hsource, hold.lt p hsource, hold.notFreed p hsource⟩

lemma Inv.inUse (h : Inv cap heap as e log) (hp : e.InUse p) :
    p < e.nextSeg ∧ p ∉ e.freedSegs := by
  rcases hp with hp | hp
  · exact ⟨h.lt p hp, h.notFreed p hp⟩
  · exact (h.unlisted hp).2

/-- Where the lookups can be, and what they can reach from there. -/
structure Protected (e : ListEngine) (u : Utlist SegPtr) (lookups : List Lookup) : Prop where
  inUse : ∀ lk ∈ lookups, ∀ p, lk.segment = some p → e.InUse p
  counted : Counted (2 ^ 32) e.processes (lookups.map Lookup.inside)
  next : ∀ p, e.Detached p → ∀ q, u.next p = some q → q ∈ e.segments
  docs : ∀ p, e.Detached p → ∀ tokens, ∀ x ∈ (e.segs p).walked tokens, x ∉ e.freedDocs

lemma segment_of_inside (h : lk.inside = some p) : lk.segment = some p := by
  unfold Lookup.inside at h
  unfold Lookup.segment
  cases hpc : lk.pc <;> simp_all

/-- A lookup at a segment is counted in it, or in one of its windows. -/
lemma inside_or_inWindow (h : lk.segment = some p) : lk.inside = some p ∨ lk.InWindow p := by
  unfold Lookup.segment at h
  unfold Lookup.inside Lookup.InWindow
  cases hpc : lk.pc <;> simp_all

/-- **Under the invariant no lookup touches what has been released.** -/
lemma Protected.safe (h : Protected e u lookups) (hinv : Inv cap heap as e log)
    (hledger : Ledger as e.view e.merger.deleted e.freedDocs) (hlk : lk ∈ lookups) :
    ¬lk.TouchesReleased (e.relist u) := by
  rintro (⟨p, hp, hfreed⟩ | ⟨x, hx, hfreed⟩)
  · exact (hinv.inUse (h.inUse lk hlk p hp)).2 hfreed
  · have hpc : ∃ p, lk.segment = some p ∧ x ∈ (e.segs p).walked lk.request.tokens := by
      unfold Lookup.reads at hx
      unfold Lookup.segment
      cases hpc : lk.pc <;> simp_all
    obtain ⟨p, hp, hx⟩ := hpc
    rcases h.inUse lk hlk p hp with hlisted | hdetached
    · exact hledger.unlisted x hfreed p hlisted (hinv.mem_docPtrs_of_walked hlisted hx)
    · exact h.docs p hdetached _ x hx hfreed

/-! ## Steps of the engine -/

/-- An address that has not been used is counted at zero. -/
lemma Protected.fresh (h : Protected e u lookups) (hinv : Inv cap heap as e log) :
    (e.segs e.nextSeg).processes = 0 := by
  have hcount : (lookups.map Lookup.inside).count (some e.nextSeg) = 0 := by
    refine List.count_eq_zero.mpr fun hmem => ?_
    obtain ⟨lk, hlk, hin⟩ := List.mem_map.mp hmem
    exact lt_irrefl _ (hinv.inUse (h.inUse lk hlk _ (segment_of_inside hin))).1
  have hzero := h.counted e.nextSeg
  rw [hcount] at hzero
  exact hzero

/-- The replace handler turns the sources from listed into detached segments. -/
lemma Protected.replaceSegs (h : Protected e u lookups) (hcap : 1 ≤ cap)
    (hrun : (engineSystem (List SegPtr) cap heap).Run l e) (hu : u.Begun 0 e.segments)
    (hen : Action.Enabled cap (actions l) e .replaceSegs)
    (hexec : Engine.exec cap .replaceSegs e = .ok e')
    (hpexec : Engine.exec cap .replaceSegs (e.relist u) = .ok (e'.relist v)) :
    Protected e' v lookups := by
  obtain ⟨log, hinv⟩ := inv_of_run hcap hrun
  have hledger := ledger_of_run hcap hrun
  have hnext := hinv.next_replaceSegs (sourcesOrdered_of_run hcap hrun) hu hen hexec hpexec
  have hcount := processes_exec rfl (h.fresh hinv) hexec
  obtain ⟨m1, m2, n, hstage, hsrc, hnew, heq⟩ := hinv.replaceSegs_spec hen
  obtain rfl := Except.ok.inj (heq.symm.trans hexec)
  refine ⟨fun lk hlk q hq => ?_, ?_, fun q hq => hnext q hq.2, fun q hq tokens x hx => ?_⟩
  · have hq : q ∈ e.segments := (h.inUse lk hlk q hq).elim id fun hd => by
      have h3 := hd.1
      omega
    by_cases hsource : q = m1 ∨ q = m2
    · refine .inr ⟨rfl, mem_sources.mpr ?_⟩
      rcases hsource with rfl | rfl
      · exact .inl hsrc.mseg1
      · exact .inr hsrc.mseg2
    · exact .inl (hinv.mem_replacedSegments.mpr (.inr ⟨hq, not_or.mp hsource⟩))
  · rw [hcount]
    exact h.counted
  · have hq : q ∈ e.segments := hsrc.mem (mem_sources.mp hq.2)
    rw [replaced_segs_of_ne (hnew.ne_of_mem hq)] at hx
    exact fun hfreed => hledger.unlisted x hfreed q hq (hinv.mem_docPtrs_of_walked hq hx)

/-- A step that leaves the list, and detached segments detached, keeps the invariant. -/
lemma Protected.keep (h : Protected e u lookups) (hcap : 1 ≤ cap)
    (hrun : (engineSystem (List SegPtr) cap heap).Run l e) {a : Action}
    (ha : a ≠ .replaceSegs) (hlookup : a.isLookup = false) (hen : a.Enabled cap (actions l) e)
    (hexec : Engine.exec cap a e = .ok e')
    (hpexec : Engine.exec cap a (e.relist u) = .ok (e'.relist v))
    (hkept : ∀ lk ∈ lookups, ∀ p, lk.segment = some p → e.Detached p → e'.Detached p)
    (hback : ∀ p, e'.Detached p → e.Detached p ∧ e'.freedDocs = e.freedDocs) :
    Protected e' v lookups := by
  obtain ⟨log, hinv⟩ := inv_of_run hcap hrun
  have hsub : ∀ q ∈ e.segments, q ∈ e'.segments := (hinv.step hcap hen hexec).listed_subset ha
  refine ⟨fun lk hlk q hq => ?_, ?_, fun q hq r hr => ?_, fun q hq tokens x hx => ?_⟩
  · exact (h.inUse lk hlk q hq).imp (hsub q) (hkept lk hlk q hq)
  · rw [processes_exec hlookup (h.fresh hinv) hexec]
    exact h.counted
  · obtain ⟨hq, -⟩ := hback q hq
    have hnext : v.next q = u.next q := next_exec ha (hinv.unlisted hq).2.1.ne hpexec
    exact hsub r (h.next q hq r (hnext ▸ hr))
  · obtain ⟨hq, hfreed⟩ := hback q hq
    obtain ⟨hout, hlt, -⟩ := hinv.unlisted hq
    rw [hinv.segs_exec hcap hq.1 hlookup hen hexec hlt hout] at hx
    rw [hfreed]
    exact h.docs q hq tokens x hx

/-- **A step of the engine's threads**, where a release finds no lookup behind a counter at
zero. -/
lemma Protected.step (h : Protected e u lookups) (hcap : 1 ≤ cap)
    (hrun : (engineSystem (List SegPtr) cap heap).Run l e) (hu : u.Begun 0 e.segments)
    {a : Action} (hlookup : a.isLookup = false) (hen : a.Enabled cap (actions l) e)
    (hexec : Engine.exec cap a e = .ok e')
    (hpexec : Engine.exec cap a (e.relist u) = .ok (e'.relist v))
    (hguard : a = .procRelease → Service.Guarded ⟨e.relist u, lookups⟩) :
    Protected e' v lookups := by
  obtain ⟨log, hinv⟩ := inv_of_run hcap hrun
  by_cases hreplace : a = .replaceSegs
  · subst hreplace
    exact h.replaceSegs hcap hrun hu hen hexec hpexec
  have hstage : e'.merger.mergeStage = 3 → e.merger.mergeStage = 3 :=
    (hinv.step hcap hen hexec).stage_eq_three hreplace
  by_cases hrelease : a = .procRelease ∧ e.merger.mergeStage = 3
  · obtain ⟨rfl, h3⟩ := hrelease
    have hreleased := released_of_exec h3 hexec
    refine h.keep hcap hrun hreplace hlookup hen hexec hpexec (fun lk hlk q hq hd => ?_)
      fun q hq => ⟨⟨h3, hreleased.sources q hq.2⟩, ?_⟩
    · by_cases hzero : (e.segs q).processes = 0
      · -- the counter hides no lookup
        obtain ⟨hwindow, hcount⟩ := hguard rfl h3 q hd.2 hzero
        have hin := (h.counted.notMem_iff (by norm_num) hzero).mpr hcount
        rcases inside_or_inWindow hq with hq | hq
        · exact absurd (List.mem_map.mpr ⟨lk, hlk, hq⟩) hin
        · exact absurd hq (hwindow lk hlk)
      · exact hreleased.kept q hd.2 hzero
    · rcases hreleased.stage with ⟨-, hfreed⟩ | h4 | h6
      · exact hfreed
      · exact absurd (h4.symm.trans hq.1) (by norm_num)
      · exact absurd (h6.symm.trans hq.1) (by norm_num)
  · have haside : e.merger.mergeStage = 3 → Aside e e' := fun h3 =>
      hinv.aside hcap h3 hen hexec fun ha => hrelease ⟨ha, h3⟩
    have hsources : ∀ h3 : e.merger.mergeStage = 3, e'.merger.sources = e.merger.sources :=
      fun h3 => by
        unfold Merger.sources
        rw [(haside h3).mseg1, (haside h3).mseg2]
    refine h.keep hcap hrun hreplace hlookup hen hexec hpexec (fun lk hlk q hq hd => ?_)
      fun q hq => ?_
    · exact ⟨(haside hd.1).stage.trans hd.1, (hsources hd.1).symm ▸ hd.2⟩
    · have h3 := hstage hq.1
      exact ⟨⟨h3, hsources h3 ▸ hq.2⟩, (haside h3).freedDocs⟩

/-! ## Steps of the lookups -/

lemma processes_lookup {L : Type} (e : Engine L) (p : SegPtr) (f : ℕ → ℕ) :
    (e.modifySeg p fun s => { s with processes := f s.processes }).processes =
      Function.update e.processes p (f (e.processes p)) := by
  funext q
  unfold processes modifySeg
  by_cases hq : q = p
  · subst hq
    simp
  · simp [hq]

lemma walked_lookup {L : Type} (e : Engine L) (p q : SegPtr) (f : ℕ → ℕ) (tokens : List CString) :
    ((e.modifySeg p fun s => { s with processes := f s.processes }).segs q).walked tokens =
      (e.segs q).walked tokens := by
  show (Function.update e.segs p { e.segs p with processes := f (e.segs p).processes } q).walked
    tokens = _
  by_cases hq : q = p
  · subst hq
    rw [Function.update_self]
    cases tokens <;> rfl
  · rw [Function.update_of_ne hq]

/-- What the lookups are counted in. -/
lemma getElem?_inside (hlk : lookups[i]? = some lk) :
    (lookups.map Lookup.inside)[i]? = some lk.inside := by
  rw [List.getElem?_map, hlk]
  rfl

/-- A lookup moves on to a segment in use. -/
lemma Protected.move (h : Protected e u lookups) (hlk : lookups[i]? = some lk)
    (hinside : lk'.inside = lk.inside) (huse : ∀ p, lk'.segment = some p → e.InUse p) :
    Protected e u (lookups.set i lk') := by
  refine { h with inUse := fun lk₁ hlk₁ q hq => ?_, counted := ?_ }
  · rcases List.mem_or_eq_of_mem_set hlk₁ with hmem | rfl
    · exact h.inUse lk₁ hmem q hq
    · exact huse q hq
  · rw [List.map_set, hinside]
    exact h.counted.stay (getElem?_inside hlk)

/-- A lookup counts itself in or out. -/
lemma Protected.count (h : Protected e u lookups) (hlk : lookups[i]? = some lk) (f : ℕ → ℕ)
    (hcounted : Counted (2 ^ 32) (Function.update e.processes p (f (e.processes p)))
      ((lookups.map Lookup.inside).set i lk'.inside))
    (huse : ∀ q, lk'.segment = some q → lk.segment = some q) :
    Protected (e.modifySeg p fun s => { s with processes := f s.processes }) u
      (lookups.set i lk') := by
  refine ⟨fun lk₁ hlk₁ q hq => ?_, ?_, h.next, fun q hq tokens x hx => ?_⟩
  · rcases List.mem_or_eq_of_mem_set hlk₁ with hmem | rfl
    · exact h.inUse lk₁ hmem q hq
    · exact h.inUse lk (List.mem_of_getElem? hlk) q (huse q hq)
  · rw [processes_lookup, List.map_set]
    exact hcounted
  · rw [walked_lookup] at hx
    exact h.docs q hq tokens x hx

/-- A pointer that is fetched leads to a segment in use. -/
lemma Protected.fetch (h : Protected e u lookups) (hlk : lookups[i]? = some lk)
    (hinside : lk.inside = none) {o : Option SegPtr} (ho : ∀ p, o = some p → e.InUse p) :
    Protected e u (lookups.set i (lk.fetch o)) := by
  cases o with
  | none => exact h.move hlk hinside.symm fun p hp => by simp [Lookup.fetch, Lookup.segment] at hp
  | some q =>
      refine h.move hlk hinside.symm fun p hp => ho p ?_
      simpa [Lookup.fetch, Lookup.segment] using hp

/-- **A step of a lookup.** -/
lemma Protected.lookup (h : Protected e u lookups) (hu : u.Begun 0 e.segments)
    (hlk : lookups[i]? = some lk) {pe' : PtrEngine}
    (hstep : lk.step (e.relist u) = .ok (pe', lk')) :
    ∃ e' : ListEngine, pe' = e'.relist u ∧ Protected e' u (lookups.set i lk') ∧
      (e' = e ∨ ∃ p, e' = e.lookupEnter p ∨ e' = e.lookupLeave p) := by
  have huse := h.inUse lk (List.mem_of_getElem? hlk)
  unfold Lookup.step at hstep
  split_ifs at hstep
  have hin := getElem?_inside hlk
  cases hpc : lk.pc with
  | start =>
      simp only [hpc, Except.ok.injEq, Prod.mk.injEq] at hstep
      obtain ⟨rfl, rfl⟩ := hstep
      refine ⟨e, rfl, h.fetch hlk (by simp [Lookup.inside, hpc]) fun p hp => .inl ?_, .inl rfl⟩
      have hhead : u.head = e.segments.head? := hu.represents.chain.head_eq
      exact List.mem_of_mem_head? (hhead ▸ hp)
  | fetched p =>
      simp only [hpc, Except.ok.injEq, Prod.mk.injEq] at hstep
      obtain ⟨rfl, rfl⟩ := hstep
      refine ⟨e.lookupEnter p, rfl, h.count hlk (fun k => (k + 1) % 2 ^ 32) ?_ fun q hq => ?_,
        .inr ⟨p, .inl rfl⟩⟩
      · rw [show lk.inside = none by simp [Lookup.inside, hpc]] at hin
        exact h.counted.enter hin p
      · simpa [Lookup.segment, hpc] using hq
  | counted p =>
      simp only [hpc] at hstep
      obtain ⟨lk₁, -, heq⟩ := map_eq_ok.mp hstep
      obtain ⟨rfl, rfl⟩ := Prod.mk.inj heq
      refine ⟨e, rfl, h.move hlk (by simp [Lookup.inside, hpc]) fun q hq => ?_, .inl rfl⟩
      exact huse q (by simpa [Lookup.segment, hpc] using hq)
  | searched p =>
      simp only [hpc, Except.ok.injEq, Prod.mk.injEq] at hstep
      obtain ⟨rfl, rfl⟩ := hstep
      have hleave : (lk.leave p).inside = none ∧
          ∀ q, (lk.leave p).segment = some q → q = p := by
        unfold Lookup.leave Lookup.inside Lookup.segment
        split_ifs
        · simp
        · simp [eq_comm]
      refine ⟨e.lookupLeave p, rfl, h.count hlk (fun k => (k + (2 ^ 32 - 1)) % 2 ^ 32) ?_
        fun q hq => ?_, .inr ⟨p, .inr rfl⟩⟩
      · rw [show lk.inside = some p by simp [Lookup.inside, hpc]] at hin
        rw [hleave.1]
        exact h.counted.leave (by norm_num) hin
      · rw [hleave.2 q hq]
        simp [Lookup.segment, hpc]
  | left p =>
      simp only [hpc, Except.ok.injEq, Prod.mk.injEq] at hstep
      obtain ⟨rfl, rfl⟩ := hstep
      refine ⟨e, rfl, h.fetch hlk (by simp [Lookup.inside, hpc]) fun q hq => .inl ?_, .inl rfl⟩
      rcases huse p (by simp [Lookup.segment, hpc]) with hp | hp
      · exact (hu.represents.mem_of_next hp hq).1
      · exact h.next p hp q hq
  | returned code =>
      simp only [hpc, Except.ok.injEq, Prod.mk.injEq] at hstep
      obtain ⟨rfl, rfl⟩ := hstep
      exact ⟨e, rfl, h.move hlk rfl huse, .inl rfl⟩

end Engine

namespace Service

variable {cap : ℕ} {heap : DocHeap} {as as' : List Action} {l : List (Service × ServiceAction)}
  {s s' : Service}

/-! ## Runs -/

/-- Whether an action is enabled depends on the additions before it only. -/
lemma enabled_congr {L : Type} {e : Engine L} {a : Action}
    (has : as.filter Action.isAdd = as'.filter Action.isAdd) :
    a.Enabled cap as e ↔ a.Enabled cap as' e := by
  cases a with
  | add d =>
      have hmem : Action.add d ∈ as ↔ Action.add d ∈ as' := by
        have hiff : ∀ as : List Action, Action.add d ∈ as.filter Action.isAdd ↔ .add d ∈ as :=
          fun as => by simp [List.mem_filter, Action.isAdd]
        rw [← hiff as, has, hiff]
      have hcount : Action.addCount as = Action.addCount as' := by
        unfold Action.addCount
        rw [List.countP_eq_length_filter, List.countP_eq_length_filter, has]
      simp only [Action.Enabled, hmem, hcount]
  | _ => rfl

/-- The state of a service on which the invariant holds, with a run that leads to its engine. -/
def Ok (cap : ℕ) (heap : DocHeap) (as : List Action) (s : Service) : Prop :=
  ∃ (l : List (ListEngine × Action)) (e : ListEngine) (u : Utlist SegPtr),
    (engineSystem (List SegPtr) cap heap).Run l e ∧
    (actions l).filter Action.isAdd = as.filter Action.isAdd ∧ s.engine = e.relist u ∧
    u.Begun 0 e.segments ∧ Engine.Protected e u s.lookups

lemma Ok.safe (hcap : 1 ≤ cap) (h : Ok cap heap as s) : s.Safe := by
  obtain ⟨l, e, u, hrun, -, heq, -, hprot⟩ := h
  obtain ⟨log, hinv⟩ := Engine.inv_of_run hcap hrun
  intro lk hlk
  rw [heq]
  exact hprot.safe hinv (Engine.ledger_of_run hcap hrun) hlk

/-- **One step keeps the invariant**, if a release is guarded. -/
lemma Ok.step (hcap : 1 ≤ cap) (h : Ok cap heap (engineActions l) s) {a : ServiceAction}
    (hen : s.Enabled cap (engineActions l) a) (hexec : Service.exec cap a s = .ok s')
    (hguard : a = .engine .procRelease → s.Guarded) :
    Ok cap heap (engineActions ((s, a) :: l)) s' := by
  obtain ⟨l', e, u, hrun, hadds, heq, hu, hprot⟩ := h
  obtain ⟨pe, lookups⟩ := s
  obtain rfl : pe = e.relist u := heq
  cases a with
  | engine a =>
      obtain ⟨log, hinv⟩ := Engine.inv_of_run hcap hrun
      obtain ⟨hlookup, hen⟩ := hen
      have hen : a.Enabled cap (actions l') e :=
        (enabled_congr hadds.symm).mp (Engine.enabled_relist.mp hen)
      obtain ⟨pe', hpexec, rfl⟩ := map_eq_ok.mp hexec
      obtain ⟨e', v, he, rfl, hv⟩ := hinv.list_step hu hen hpexec
      refine ⟨(e, a) :: l', e', v, hrun.step hen he, ?_, rfl, hv,
        hprot.step hcap hrun hu hlookup hen he hpexec fun ha => hguard (by rw [ha])⟩
      show (a :: actions l').filter _ = (a :: engineActions l).filter _
      rw [List.filter_cons, List.filter_cons, hadds]
  | request request total =>
      obtain rfl := Except.ok.inj hexec
      refine ⟨l', e, u, hrun, hadds, rfl, hu, { hprot with inUse := ?_, counted := ?_ }⟩
      · intro lk hlk p hp
        rcases List.mem_append.mp hlk with hlk | hlk
        · exact hprot.inUse lk hlk p hp
        · rw [List.mem_singleton.mp hlk] at hp
          unfold Lookup.call Lookup.segment at hp
          split_ifs at hp
      · have hinside : (Lookup.call request total).inside = none := by
          unfold Lookup.call Lookup.inside
          split_ifs <;> rfl
        rw [List.map_append, List.map_singleton, hinside]
        exact hprot.counted.append_none
  | lookup i =>
      have hlk : lookups[i]? = some lookups[i] := List.getElem?_eq_getElem hen
      simp only [Service.exec, hlk] at hexec
      obtain ⟨⟨pe', lk'⟩, hstep, rfl⟩ := map_eq_ok.mp hexec
      obtain ⟨e', rfl, hprot', hcase⟩ := hprot.lookup hu hlk hstep
      rcases hcase with rfl | ⟨p, rfl | rfl⟩
      · exact ⟨l', e', u, hrun, hadds, rfl, hu, hprot'⟩
      · exact ⟨(e, .lookupEnter p) :: l', _, u, hrun.step trivial rfl, hadds, rfl, hu, hprot'⟩
      · exact ⟨(e, .lookupLeave p) :: l', _, u, hrun.step trivial rfl, hadds, rfl, hu, hprot'⟩

/-- **The invariant along a run** whose releases are guarded. -/
lemma ok_of_run (hcap : 1 ≤ cap) (hrun : (serviceSystem cap heap).Run l s)
    (hguard : ∀ q ∈ l, q.2 = .engine .procRelease → q.1.Guarded) :
    Ok cap heap (engineActions l) s := by
  revert hguard
  refine System.Run.invariant (fun l s => (∀ q ∈ l, q.2 = .engine .procRelease → q.1.Guarded) →
    Ok cap heap (engineActions l) s) (fun _ => ?_) ?_ hrun
  · refine ⟨[], .new heap, .single 0, .nil, rfl, rfl, Utlist.begun_single 0, ?_⟩
    refine ⟨by simp [serviceSystem], counted_nil _, fun p hp => ?_, fun p hp => ?_⟩
    · exact absurd hp.1 (by simp [Engine.new, Merger.new])
    · exact absurd hp.1 (by simp [Engine.new, Merger.new])
  · intro l s a s' _ ih hen hexec hguard
    obtain ⟨hstep, hguard⟩ := List.forall_mem_cons.mp hguard
    exact (ih hguard).step hcap hen hexec hstep

/-! ## The windows -/

/-- **A release that is not guarded** leaves a lookup at a segment that it has released. -/
lemma not_safe_of_not_guarded (hexec : Service.exec cap (.engine .procRelease) s = .ok s')
    (hguard : ¬s.Guarded) : ¬s'.Safe := by
  simp only [Guarded, not_forall] at hguard
  obtain ⟨hstage, p, hp, hzero, hhidden⟩ := hguard
  obtain ⟨e', hrelease, rfl⟩ := map_eq_ok.mp hexec
  have hfreed := (Engine.released_of_exec hstage hrelease).freed p hp hzero
  have hlk : ∃ lk ∈ s.lookups, lk.segment = some p := by
    by_contra hnone
    refine hhidden ⟨fun lk hlk hwindow => hnone ⟨lk, hlk, ?_⟩, ?_⟩
    · rcases hwindow with hpc | hpc
      · simp [Lookup.segment, hpc]
      · simp [Lookup.segment, hpc]
    · have hcount : (s.lookups.map Lookup.inside).count (some p) = 0 := by
        refine List.count_eq_zero.mpr fun hmem => hnone ?_
        obtain ⟨lk, hlk, hin⟩ := List.mem_map.mp hmem
        exact ⟨lk, hlk, Engine.segment_of_inside hin⟩
      rw [hcount]
      norm_num
  obtain ⟨lk, hlk, hsegment⟩ := hlk
  exact fun hsafe => hsafe lk hlk (.inl ⟨p, hsegment, hfreed⟩)

/-- **When lookups are safe from the merger.**  In no state of a run is a lookup about to touch a
segment or a document that has been released, if and only if every release of the run is guarded:
at stage 3, no lookup is between the fetch of a pointer to a source and its count, or between its
discount and the read of the next pointer, when the counter of that source is zero, and the
counter has not wrapped. -/
theorem lookup_safe_iff (hcap : 1 ≤ cap) (hrun : (serviceSystem cap heap).Run l s) :
    (s.Safe ∧ ∀ q ∈ l, q.1.Safe) ↔ ∀ q ∈ l, q.2 = .engine .procRelease → q.1.Guarded := by
  constructor
  · rintro ⟨hsafe, hsafes⟩ ⟨t, a⟩ hq rfl
    by_contra hguard
    obtain ⟨l₁, l₂, t', rfl, -, -, hexec, hpath⟩ := hrun.split hq
    apply not_safe_of_not_guarded hexec hguard
    -- the state after the release is the source of the next step, or the last one
    cases hlast : l₂.getLast? with
    | none =>
        obtain rfl := List.getLast?_eq_none_iff.mp hlast
        cases hpath
        exact hsafe
    | some q =>
        have hstart := hpath.fst_of_mem_getLast? q hlast
        exact hstart ▸ hsafes q (List.mem_append_left _ (List.mem_of_getLast? hlast))
  · intro hguard
    refine ⟨(ok_of_run hcap hrun hguard).safe hcap, fun ⟨t, a⟩ hq => ?_⟩
    obtain ⟨l₁, l₂, t', rfl, hrun₁, -, -, -⟩ := hrun.split hq
    refine (ok_of_run hcap hrun₁ fun q hq => hguard q ?_).safe hcap
    exact List.mem_append_right l₂ (List.mem_cons_of_mem _ hq)

/-- `lookup_safe_iff` for a lookup that is counted in one of the sources while a release frees the
other. -/
theorem lookup_safe_iff_sample :
    ∃ l s, (serviceSystem 1 Engine.sampleHeap).Run l s ∧ s.engine.freedSegs = [0] ∧
      s.lookups.map Lookup.pc = [.returned errorCodeSuccess] ∧ s.Safe ∧ ∀ q ∈ l, q.1.Safe := by
  obtain ⟨l, s, hrun, htest⟩ := System.exists_run_of_execAll
    (M := serviceSystem 1 Engine.sampleHeap)
    (fun l s => decide ((∀ q ∈ l, q.2 = .engine .procRelease → q.1.Guarded) ∧
      s.engine.freedSegs = [0] ∧ s.lookups.map Lookup.pc = [.returned errorCodeSuccess]))
    [.engine (.add 1), .engine (.add 2), .engine (.add 3), .engine (.remove 1),
      .engine .procCheck, .engine .procMigrate, .request ⟨[[97]], 10⟩ 0, .lookup 0, .lookup 0,
      .lookup 0, .lookup 0, .lookup 0, .lookup 0, .engine .replaceSegs, .engine .procRelease,
      .lookup 0, .lookup 0, .lookup 0] (by decide +kernel)
  obtain ⟨hguard, hfreed, hpc⟩ := of_decide_eq_true htest
  obtain ⟨hsafe, hsafes⟩ := (lookup_safe_iff le_rfl hrun).mpr hguard
  exact ⟨l, s, hrun, hfreed, hpc, hsafe, hsafes⟩

/-- **A lookup that is too slow**: it has fetched the pointer to a source when the source is
unlinked and, with its counter at zero, released. -/
theorem lookup_touches_released :
    ∃ l s lk, (serviceSystem 1 Engine.sampleHeap).Run l s ∧ lk ∈ s.lookups ∧
      lk.pc = .fetched 1 ∧ 1 ∈ s.engine.freedSegs ∧ lk.TouchesReleased s.engine ∧ ¬s.Safe := by
  obtain ⟨l, s, hrun, htest⟩ := System.exists_run_of_execAll
    (M := serviceSystem 1 Engine.sampleHeap)
    (fun _ s => decide (s.lookups.map Lookup.pc = [.fetched 1] ∧ 1 ∈ s.engine.freedSegs))
    [.engine (.add 1), .engine (.add 2), .engine (.add 3), .engine (.remove 1),
      .engine .procCheck, .engine .procMigrate, .request ⟨[[97]], 10⟩ 0, .lookup 0, .lookup 0,
      .lookup 0, .lookup 0, .lookup 0, .engine .replaceSegs, .engine .procRelease]
    (by decide +kernel)
  obtain ⟨hpc, hfreed⟩ := of_decide_eq_true htest
  obtain ⟨lk, hlookups, hpc⟩ := List.map_eq_singleton_iff.mp hpc
  have hlk : lk ∈ s.lookups := by simp [hlookups]
  have htouch : lk.TouchesReleased s.engine := .inl ⟨1, by simp [Lookup.segment, hpc], hfreed⟩
  exact ⟨l, s, lk, hrun, hlk, hpc, hfreed, htouch, fun hsafe => hsafe lk hlk htouch⟩

end Service

end TsEngine
