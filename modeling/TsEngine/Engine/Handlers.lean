import TsEngine.Engine.Invariant

/-!
# The document handlers keep the invariant

The loop over all segments, the roll-over and the addition to the active segment, one after
another.  Each is first reduced to an equation that names the fields it changes
(`removeFromAll_eq`, `rollOver_of_le`, `addToActive_eq`); `Inv.bitsOnly` then covers every step that
only sets deletion bits or counts lookups, and `Inv.rollOver` and `Inv.addToActive` the other two.
-/

namespace TsEngine

open Framework Segment

namespace Engine

variable {cap : ℕ} {heap : DocHeap} {as : List Action} {e : ListEngine}
  {log : SegPtr → List DocPtr} {p : SegPtr} {d x : DocPtr} {pk : ℕ}

/-! ## Steps that only set deletion bits -/

/-- The segments after a step that only sets bits of listed segments, at ids of documents they
list. -/
def BitsOnly (e : ListEngine) (segs' : SegPtr → Segment) : Prop :=
  ∀ p, ∃ added, BitsAdded added (e.segs p) (segs' p) ∧
    ∀ i, added i → p ∈ e.segments ∧ ∃ x ∈ (e.segs p).docPtrs, (e.docs x).docId = i

/-- **Setting deletion bits keeps the invariant**, at every stage. -/
lemma Inv.bitsOnly (h : Inv cap heap as e log) {segs' : SegPtr → Segment}
    (hsegs : e.BitsOnly segs') (pks : List ℕ) :
    Inv cap heap as
      { e with segs := segs', merger := { e.merger with mergingDeletion := pks } } log := by
  choose added hbits hadded using hsegs
  have hlog : ∀ p ∈ e.segments, ∀ i, added p i → ∃ x ∈ log p, (e.docs x).docId = i := by
    intro p hp i hi
    obtain ⟨-, x, hx, heq⟩ := hadded p i hi
    exact ⟨x, (h.mem_docPtrs hp).mp hx, heq⟩
  have hdead : ∀ m1, (∀ x ∈ log m1, (e.segs m1).isDeleted e.docs x = true) →
      ∀ x ∈ log m1, (segs' m1).isDeleted e.docs x = true :=
    fun m1 hall x hx => (hbits m1).isDeleted_iff.mpr (.inl (hall x hx))
  have hsrc : ∀ {m1 m2}, Sources e log m1 m2 → Sources
      { e with segs := segs', merger := { e.merger with mergingDeletion := pks } } log m1 m2 :=
    fun {m1 m2} hsrc => { hsrc with dead := hdead m1 hsrc.dead }
  have hlinked : ∀ {n}, Linked e n → Linked
      { e with segs := segs', merger := { e.merger with mergingDeletion := pks } } n :=
    fun {n} hnew => { hnew with
      mem_iff := hnew.mem_iff.trans (by rw [(hbits n).numTotalDocs_eq]) }
  refine ⟨⟨h.nodup, h.lt, h.notFreed, h.freedLt, h.active, ?_, ?_, ?_, ?_⟩,
    ⟨fun p hp => (hbits p).represents (h.represents p hp) (hlog p hp),
      fun p hp hm => (h.sound p hp hm).bitsAdded (hbits p) (hlog p hp),
      h.disjoint, h.added, h.checked⟩, ?_, h.sameDocs⟩
  · exact (hbits e.segmentActive).state_eq.trans h.activeState
  · exact fun p hp hne => (hbits p).state_eq.trans (h.otherState p hp hne)
  · exact fun p hp hne => (hbits p).numTotalDocs_eq.symm ▸ h.nonempty p hp hne
  · exact fun p hp => (hbits p).numTotalDocs_eq.symm ▸ h.leCap p hp
  · cases h.phase with
    | idle hstage hqueue => exact .idle hstage hqueue
    | checked m1 m2 hstage hqueue hs => exact .checked m1 m2 hstage hqueue (hsrc hs)
    | migrated m1 m2 n hstage hqueue hs hnew =>
        have hnone : ∀ i, ¬added n i := fun i hi => hnew.notMem (hadded n i hi).1
        refine .migrated m1 m2 n hstage hqueue (hsrc hs) { hnew with
          state := (hbits n).state_eq.trans hnew.state
          sound := hnew.sound.bitsAdded (hbits n) fun i hi => absurd hi (hnone i)
          leCap := (hbits n).numTotalDocs_eq.symm ▸ hnew.leCap
          clean := fun i => Bool.eq_false_iff.mpr fun hi => ?_ }
        rcases ((hbits n).2.1 i).mp hi with hi | hi
        · exact Bool.eq_false_iff.mp (hnew.clean i) hi
        · exact hnone i hi
    | replaced n hstage hqueue hnew hold =>
        exact .replaced n hstage hqueue (hlinked hnew) { hold with }
    | released n hstage hqueue hnew hmem => exact .released n hstage hqueue (hlinked hnew) hmem
    | redeleting n hstage hqueue hnew hmem =>
        exact .redeleting n hstage hqueue (hlinked hnew) hmem
    | finished hstage hqueue => exact .finished hstage hqueue

/-! ### The loop over all segments -/

lemma foldl_modifySeg {L : Type} [SegmentList L] (f : DocHeap → Segment → Segment) :
    ∀ {l : List SegPtr}, l.Nodup → ∀ e : Engine L,
      l.foldl (fun e seg => e.modifySeg seg (f e.docs)) e =
        { e with segs := fun p => if p ∈ l then f e.docs (e.segs p) else e.segs p }
  | [], _, e => by simp
  | seg :: l, hnodup, e => by
      obtain ⟨hseg, hl⟩ := List.nodup_cons.mp hnodup
      rw [List.foldl_cons, foldl_modifySeg f hl]
      unfold modifySeg
      congr 1
      funext p
      by_cases hp : p = seg
      · subst hp
        simp [hseg]
      · simp [hp]

/-- The loop removes the key from every listed segment. -/
lemma removeFromAll_eq {L : Type} [SegmentList L] {e : Engine L} (hnodup : e.listed.Nodup)
    (pk : ℕ) : e.removeFromAll pk =
      { e with segs := fun p =>
          if p ∈ e.listed then ((e.segs p).removeDocument e.docs pk).2 else e.segs p } :=
  foldl_modifySeg (fun docs s => (s.removeDocument docs pk).2) hnodup e

lemma removeFromAll_list (hnodup : e.segments.Nodup) (pk : ℕ) : e.removeFromAll pk =
    { e with segs := fun p =>
        if p ∈ e.segments then ((e.segs p).removeDocument e.docs pk).2 else e.segs p } :=
  removeFromAll_eq (e := e) hnodup pk

lemma bitsOnly_remove (e : ListEngine) (pk : ℕ) :
    e.BitsOnly fun p =>
      if p ∈ e.segments then ((e.segs p).removeDocument e.docs pk).2 else e.segs p := by
  intro p
  by_cases hp : p ∈ e.segments
  · refine ⟨_, by simpa [hp] using bitsAdded_removeDocument e.docs (e.segs p) pk, ?_⟩
    rintro i ⟨x, hx, rfl⟩
    exact ⟨hp, x, mem_docPtrs_of_mem_entries hx, rfl⟩
  · exact ⟨fun _ => False, by simpa [hp] using bitsAdded_refl (e.segs p), fun i hi => hi.elim⟩

lemma Inv.removeFromAll (h : Inv cap heap as e log) (pk : ℕ) :
    Inv cap heap as (e.removeFromAll pk) log := by
  rw [removeFromAll_list h.nodup]
  exact h.bitsOnly (bitsOnly_remove e pk) e.merger.mergingDeletion

lemma Inv.removeDocumentHandler (h : Inv cap heap as e log) (pk : ℕ) :
    Inv cap heap as (e.removeDocumentHandler pk) log := by
  unfold Engine.removeDocumentHandler
  rw [removeFromAll_list h.nodup]
  dsimp only
  split_ifs
  · exact h.bitsOnly (bitsOnly_remove e pk) _
  · exact h.bitsOnly (bitsOnly_remove e pk) e.merger.mergingDeletion

/-! ### Lookups -/

lemma Inv.processes (h : Inv cap heap as e log) (seg : SegPtr) (f : ℕ → ℕ) :
    Inv cap heap as (e.modifySeg seg fun s => { s with processes := f s.processes }) log := by
  refine h.bitsOnly (fun p => ⟨fun _ => False, ?_, fun i hi => hi.elim⟩) e.merger.mergingDeletion
  by_cases hp : p = seg
  · subst hp
    exact ⟨⟨(e.segs p).deletion, (e.segs p).numTotalDeleted, f (e.segs p).processes, by simp⟩,
      by simp, by simp⟩
  · simpa [hp] using bitsAdded_refl (e.segs p)

lemma Inv.lookupEnter (h : Inv cap heap as e log) (seg : SegPtr) :
    Inv cap heap as (e.lookupEnter seg) log :=
  h.processes seg fun k => (k + 1) % 2 ^ 32

lemma Inv.lookupLeave (h : Inv cap heap as e log) (seg : SegPtr) :
    Inv cap heap as (e.lookupLeave seg) log :=
  h.processes seg fun k => (k + (2 ^ 32 - 1)) % 2 ^ 32

/-! ## Steps that only touch the active segment -/

/-- The merger's view is not affected by a step that leaves every segment but the active one, and
the ids of the documents in them, alone. -/
lemma Inv.phase_of_activeOnly (h : Inv cap heap as e log) {e' : ListEngine}
    {log' : SegPtr → List DocPtr} (hsame : e.docs.SameDocs e'.docs)
    (hmerger : e'.merger = e.merger) (hqueue : e'.inputQueue = e.inputQueue)
    (hfreed : e'.freedSegs = e.freedSegs) (hnext : e.nextSeg ≤ e'.nextSeg)
    (hmem : ∀ p < e.nextSeg, p ∈ e'.segments ↔ p ∈ e.segments)
    (hactive : e'.segmentActive = e.segmentActive ∨ e.nextSeg ≤ e'.segmentActive)
    (hseg : ∀ p < e.nextSeg, p ≠ e.segmentActive → e'.segs p = e.segs p ∧ log' p = log p)
    (hids : ∀ p ∈ e.segments, p ≠ e.segmentActive → ∀ x ∈ log p,
      (e'.docs x).docId = (e.docs x).docId) :
    Phase cap e' log' := by
  have hinactive : ∀ p < e.nextSeg, p ≠ e.segmentActive → p ≠ e'.segmentActive := by
    intro p hp hne
    rcases hactive with heq | hle
    · rwa [heq]
    · exact (hp.trans_le hle).ne
  have hsrc : ∀ {m1 m2}, Sources e log m1 m2 → Sources e' log' m1 m2 := by
    intro m1 m2 hsrc
    have h1 := h.lt m1 hsrc.mem1
    have h2 := h.lt m2 hsrc.mem2
    refine ⟨hmerger ▸ hsrc.mseg1, hmerger ▸ hsrc.mseg2, hsrc.ne, (hmem m1 h1).mpr hsrc.mem1,
      (hmem m2 h2).mpr hsrc.mem2, hinactive m1 h1 hsrc.inactive1,
      hinactive m2 h2 hsrc.inactive2, ?_⟩
    intro x hx
    rw [(hseg m1 h1 hsrc.inactive1).2] at hx
    rw [(hseg m1 h1 hsrc.inactive1).1, isDeleted, hids m1 hsrc.mem1 hsrc.inactive1 x hx]
    exact hsrc.dead x hx
  have hlinked : ∀ {n}, Linked e n → Linked e' n := by
    intro n hnew
    refine ⟨hmerger ▸ hnew.newseg, hnew.lt.trans_le hnext, hfreed ▸ hnew.notFreed,
      hinactive n hnew.lt hnew.inactive, ?_⟩
    rw [hmem n hnew.lt, (hseg n hnew.lt hnew.inactive).1]
    exact hnew.mem_iff
  cases h.phase with
  | idle hstage hq => exact .idle (hmerger ▸ hstage) (hqueue ▸ hq)
  | checked m1 m2 hstage hq hs => exact .checked m1 m2 (hmerger ▸ hstage) (hqueue ▸ hq) (hsrc hs)
  | migrated m1 m2 n hstage hq hs hnew =>
      have hne : n ≠ e.segmentActive := fun heq => hnew.notMem (heq ▸ h.active)
      obtain ⟨hsegn, hlogn⟩ := hseg n hnew.lt hne
      have hlogm := (hseg m2 (h.lt m2 hs.mem2) hs.inactive2).2
      refine .migrated m1 m2 n (hmerger ▸ hstage) (hqueue ▸ hq) (hsrc hs) ⟨hmerger ▸ hnew.newseg,
        fun hn => hnew.notMem ((hmem n hnew.lt).mp hn), hnew.pos, hnew.lt.trans_le hnext,
        hfreed ▸ hnew.notFreed, hsegn ▸ hnew.state, ?_, hsegn ▸ hnew.leCap, hsegn ▸ hnew.clean, ?_⟩
      · rw [hsegn, hlogn]
        exact hnew.sound.congr hsame fun x hx =>
          hids m2 hs.mem2 hs.inactive2 x (hnew.fromSource x hx)
      · rw [hlogn, hlogm]
        exact hnew.fromSource
  | replaced n hstage hq hnew hold =>
      refine .replaced n (hmerger ▸ hstage) (hqueue ▸ hq) (hlinked hnew) ⟨?_, ?_, ?_, ?_, ?_⟩ <;>
        simp only [hmerger, hfreed]
      · exact hold.ne
      · exact fun m hm hmem' => hold.notMem m hm ((hmem m (hold.lt m hm)).mp hmem')
      · exact fun m hm => (hold.lt m hm).trans_le hnext
      · exact hold.notFreed
      · exact hold.neNew
  | released n hstage hq hnew hn =>
      exact .released n (hmerger ▸ hstage) (hqueue ▸ hq) (hlinked hnew)
        ((hmem n hnew.lt).mpr hn)
  | redeleting n hstage hq hnew hn =>
      exact .redeleting n (hmerger ▸ hstage) (hqueue ▸ hq) (hlinked hnew)
        ((hmem n hnew.lt).mpr hn)
  | finished hstage hq => exact .finished (hmerger ▸ hstage) (hqueue ▸ hq)

/-! ## Rolling over -/

lemma rollOver_of_lt {L : Type} [SegmentList L] {e : Engine L}
    (h : (e.segs e.segmentActive).numTotalDocs < cap) : e.rollOver cap = e :=
  if_neg (by omega)

/-- The engine once the full active segment is `VALID` and a new one has taken its place. -/
def rolledOver {L : Type} [SegmentList L] (e : Engine L) : Engine L :=
  { e with
    segs := fun p =>
      if p = e.nextSeg then Segment.new
      else if p = e.segmentActive then { e.segs p with state := (e.segs p).state + 1 }
      else e.segs p
    nextSeg := e.nextSeg + 1
    segments := SegmentList.dlPrepend e.nextSeg e.segments
    segmentActive := e.nextSeg }

lemma rollOver_of_le {L : Type} [SegmentList L] {e : Engine L}
    (h : cap ≤ (e.segs e.segmentActive).numTotalDocs) (hlt : e.segmentActive < e.nextSeg) :
    e.rollOver cap = e.rolledOver := by
  unfold rollOver rolledOver
  rw [if_pos h]
  simp only [modifySeg]
  congr 1
  funext p
  by_cases hp : p = e.nextSeg
  · simp [hp]
  · by_cases hactive : p = e.segmentActive
    · subst hactive
      simp [hlt.ne]
    · simp [hp, hactive]

lemma rolledOver_segs_nextSeg {L : Type} [SegmentList L] (e : Engine L) :
    e.rolledOver.segs e.nextSeg = Segment.new :=
  if_pos rfl

lemma rolledOver_segs_of_ne {L : Type} [SegmentList L] {e : Engine L} (hp : p ≠ e.nextSeg)
    (hactive : p ≠ e.segmentActive) : e.rolledOver.segs p = e.segs p := by
  simp only [rolledOver, if_neg hp, if_neg hactive]

/-- The segments there were do not change but in their state. -/
lemma rolledOver_segs {L : Type} [SegmentList L] {e : Engine L} (hp : p ≠ e.nextSeg) :
    ∃ k, e.rolledOver.segs p = { e.segs p with state := k } := by
  by_cases hactive : p = e.segmentActive
  · refine ⟨(e.segs p).state + 1, ?_⟩
    simp only [rolledOver, if_neg hp, if_pos hactive]
  · exact ⟨(e.segs p).state, rolledOver_segs_of_ne hp hactive⟩

lemma mem_rolledOver_segments : p ∈ e.rolledOver.segments ↔ p = e.nextSeg ∨ p ∈ e.segments :=
  List.mem_cons

/-- The active segment is never one that is being merged. -/
lemma Inv.not_merging_active (h : Inv cap heap as e log) : ¬e.Merging e.segmentActive := by
  rintro ⟨hstage, hm⟩
  cases h.phase with
  | migrated m1 m2 n hstage' hqueue hsrc hnew =>
      rw [hsrc.mseg1, hsrc.mseg2] at hm
      rcases hm with hm | hm
      · exact hsrc.inactive1 (Option.some.inj hm)
      · exact hsrc.inactive2 (Option.some.inj hm)
  | _ => simp_all

lemma Inv.rolledOver_listShape (h : Inv cap heap as e log)
    (hfull : (e.segs e.segmentActive).numTotalDocs ≠ 0) : ListShape cap e.rolledOver := by
  have hfresh : ∀ p ∈ e.segments, p ≠ e.nextSeg := fun p hp => (h.lt p hp).ne
  refine ⟨?nodup, ?lt, ?notFreed, ?freedLt, List.mem_cons_self, ?activeState, ?otherState,
    ?nonempty, ?leCap⟩
  case nodup => exact List.nodup_cons.mpr ⟨fun hp => hfresh _ hp rfl, h.nodup⟩
  case lt =>
    intro p hp
    rcases mem_rolledOver_segments.mp hp with rfl | hp
    · exact Nat.lt_succ_self _
    · exact (h.lt p hp).trans (Nat.lt_succ_self _)
  case notFreed =>
    intro p hp
    rcases mem_rolledOver_segments.mp hp with rfl | hp
    · exact fun hfreed => (h.freedLt _ hfreed).ne rfl
    · exact h.notFreed p hp
  case freedLt => exact fun p hp => (h.freedLt p hp).trans (Nat.lt_succ_self _)
  case activeState => exact congrArg Segment.state (rolledOver_segs_nextSeg e)
  case otherState =>
    intro p hp hne
    have hp := (mem_rolledOver_segments.mp hp).resolve_left hne
    by_cases hactive : p = e.segmentActive
    · subst hactive
      simp [Engine.rolledOver, hfresh _ hp, h.activeState, segmentStateActive, segmentStateValid]
    · rw [rolledOver_segs_of_ne hne hactive]
      exact h.otherState p hp hactive
  case nonempty =>
    intro p hp hne
    have hp := (mem_rolledOver_segments.mp hp).resolve_left hne
    obtain ⟨k, hk⟩ := rolledOver_segs hne
    rw [hk]
    by_cases hactive : p = e.segmentActive
    · exact hactive ▸ hfull
    · exact h.nonempty p hp hactive
  case leCap =>
    intro p hp
    rcases mem_rolledOver_segments.mp hp with rfl | hp
    · rw [rolledOver_segs_nextSeg]
      exact Nat.zero_le cap
    · obtain ⟨k, hk⟩ := rolledOver_segs (hfresh p hp)
      rw [hk]
      exact h.leCap p hp

/-- The new segment is listed with nothing in it. -/
lemma Inv.rolledOver_contents (h : Inv cap heap as e log) :
    Contents as e.rolledOver (Function.update log e.nextSeg []) := by
  have hfresh : ∀ p ∈ e.segments, p ≠ e.nextSeg := fun p hp => (h.lt p hp).ne
  have hlog : ∀ p ∈ e.segments, Function.update log e.nextSeg [] p = log p :=
    fun p hp => Function.update_of_ne (hfresh p hp) _ _
  have hfrom : ∀ p ∈ e.rolledOver.segments, ∀ x ∈ Function.update log e.nextSeg [] p,
      p ∈ e.segments ∧ x ∈ log p := by
    intro p hp x hx
    rcases mem_rolledOver_segments.mp hp with rfl | hp
    · simp at hx
    · exact ⟨hp, hlog p hp ▸ hx⟩
  refine ⟨?represents, ?sound, ?disjoint, ?added, ?checked⟩
  case represents =>
    intro p hp
    rcases mem_rolledOver_segments.mp hp with rfl | hp
    · rw [rolledOver_segs_nextSeg, Function.update_self]
      exact new_represents e.docs
    · obtain ⟨k, hk⟩ := rolledOver_segs (hfresh p hp)
      rw [hk, hlog p hp]
      exact (h.represents p hp).setState k
  case sound =>
    intro p hp hm
    rcases mem_rolledOver_segments.mp hp with rfl | hp
    · rw [rolledOver_segs_nextSeg, Function.update_self]
      exact sound_new e.docs
    · obtain ⟨k, hk⟩ := rolledOver_segs (hfresh p hp)
      rw [hk, hlog p hp]
      exact (h.sound p hp hm).setState k
  case disjoint =>
    intro p hp q hq hpq x hxp hxq
    obtain ⟨hp, hxp⟩ := hfrom p hp x hxp
    obtain ⟨hq, hxq⟩ := hfrom q hq x hxq
    exact h.disjoint p hp q hq hpq hxp hxq
  case added =>
    intro p hp x hx
    obtain ⟨hp, hx⟩ := hfrom p hp x hx
    exact h.added p hp x hx
  case checked =>
    intro p hp x hx
    obtain ⟨hp, hx⟩ := hfrom p hp x hx
    exact h.checked p hp x hx

/-- **Rolling over keeps the invariant** and leaves room in the active segment. -/
lemma Inv.rollOver (h : Inv cap heap as e log) (hcap : 1 ≤ cap) :
    ∃ log', Inv cap heap as (e.rollOver cap) log' ∧
      ((e.rollOver cap).segs (e.rollOver cap).segmentActive).numTotalDocs < cap := by
  by_cases hfull : cap ≤ (e.segs e.segmentActive).numTotalDocs
  · rw [rollOver_of_le hfull (h.lt _ h.active)]
    have hphase : Phase cap e.rolledOver (Function.update log e.nextSeg []) := by
      refine h.phase_of_activeOnly (.refl _) rfl rfl rfl (Nat.le_succ _) ?_ (.inr le_rfl) ?_ ?_
      · intro p hp
        exact mem_rolledOver_segments.trans (or_iff_right hp.ne)
      · intro p hp hactive
        exact ⟨rolledOver_segs_of_ne hp.ne hactive, Function.update_of_ne hp.ne _ _⟩
      · exact fun _ _ _ _ _ => rfl
    refine ⟨_, ⟨h.rolledOver_listShape (by omega), h.rolledOver_contents, hphase, h.sameDocs⟩, ?_⟩
    show (e.rolledOver.segs e.nextSeg).numTotalDocs < cap
    rw [rolledOver_segs_nextSeg]
    exact hcap
  · rw [rollOver_of_lt (by omega)]
    exact ⟨log, h, by omega⟩

/-! ## Adding to the active segment -/

lemma addToActive_eq {L : Type} [SegmentList L] {e : Engine L}
    (hcheck : (e.docs d).check = true) : e.addToActive d = { e with
      docs := e.docs.setDocId d (e.segs e.segmentActive).generator.start
      segs := Function.update e.segs e.segmentActive
        ((e.segs e.segmentActive).addDocument e.docs d).2.2 } := by
  have hheap := (addDocument_added e.docs (e.segs e.segmentActive) hcheck).heap
  simp only [addToActive, hheap]

/-- A document that has not been added is in no segment the engine can reach. -/
lemma Inv.not_mem_log (h : Inv cap heap as e log) (hfresh : .add d ∉ as) (hp : p ∈ e.segments) :
    d ∉ log p := fun hd => hfresh (h.added p hp d hd)

lemma addToActive_segs_of_ne (hp : p ≠ e.segmentActive) : (e.addToActive d).segs p = e.segs p :=
  Function.update_of_ne hp _ _

lemma addToActive_segs_active :
    (e.addToActive d).segs e.segmentActive =
      ((e.segs e.segmentActive).addDocument e.docs d).2.2 :=
  Function.update_self _ _ _

lemma addToActive_docs (hcheck : (e.docs d).check = true) :
    (e.addToActive d).docs =
      e.docs.setDocId d (e.segs e.segmentActive).generator.start := by
  rw [addToActive_eq hcheck]

lemma Inv.addToActive_listShape (h : Inv cap heap as e log) (hcheck : (e.docs d).check = true)
    (hlt : (e.segs e.segmentActive).numTotalDocs < cap) : ListShape cap (e.addToActive d) where
  nodup := h.nodup
  lt := h.lt
  notFreed := h.notFreed
  freedLt := h.freedLt
  active := h.active
  activeState := by
    show ((e.addToActive d).segs e.segmentActive).state = _
    rw [addToActive_segs_active, (addDocument_added e.docs _ hcheck).state]
    exact h.activeState
  otherState p hp hne := by
    have hne : p ≠ e.segmentActive := hne
    rw [addToActive_segs_of_ne hne]
    exact h.otherState p hp hne
  nonempty p hp hne := by
    have hne : p ≠ e.segmentActive := hne
    rw [addToActive_segs_of_ne hne]
    exact h.nonempty p hp hne
  leCap p hp := by
    by_cases hactive : p = e.segmentActive
    · subst hactive
      rw [addToActive_segs_active, (addDocument_added e.docs _ hcheck).numTotalDocs]
      exact hlt
    · rw [addToActive_segs_of_ne hactive]
      exact h.leCap p hp

/-- Documents that are in a segment keep their ids when another is added. -/
lemma Inv.docId_addToActive (h : Inv cap heap as e log) (hfresh : .add d ∉ as)
    (hcheck : (e.docs d).check = true) (hp : p ∈ e.segments) :
    ∀ x ∈ log p, ((e.addToActive d).docs x).docId = (e.docs x).docId := by
  intro x hx
  have hne : x ≠ d := fun he => h.not_mem_log hfresh hp (he ▸ hx)
  rw [addToActive_docs hcheck, DocHeap.setDocId_of_ne e.docs _ hne]

lemma Inv.addToActive_contents (h : Inv cap heap as e log) (hfresh : .add d ∉ as)
    (hcheck : (e.docs d).check = true)
    (hroom : (e.segs e.segmentActive).numTotalDocs + 2 < 2 ^ 32)
    (hdead : ∀ x ∈ log e.segmentActive, (e.docs x).pk = (e.docs d).pk →
      (e.segs e.segmentActive).isDeleted e.docs x = true) :
    Contents (.add d :: as) (e.addToActive d)
      (Function.update log e.segmentActive (log e.segmentActive ++ [d])) := by
  have hsound := h.sound _ h.active h.not_merging_active
  have hd : ∀ p ∈ e.segments, d ∉ log p := fun p hp => h.not_mem_log hfresh hp
  have hstart : (e.segs e.segmentActive).generator.start + 1 < 2 ^ 32 := by
    rw [hsound.start]
    omega
  have hnew := hsound.addDocument (hd _ h.active) hcheck hstart hdead
  rw [← addToActive_docs hcheck, ← addToActive_segs_active] at hnew
  have hsame : e.docs.SameDocs (e.addToActive d).docs := by
    rw [addToActive_docs hcheck]
    exact .setDocId d _
  have hids := fun p hp => h.docId_addToActive (p := p) hfresh hcheck hp
  have hlog : ∀ p, p ≠ e.segmentActive →
      Function.update log e.segmentActive (log e.segmentActive ++ [d]) p = log p :=
    fun p hp => Function.update_of_ne hp _ _
  have hmemlog : ∀ p x, x ∈ Function.update log e.segmentActive (log e.segmentActive ++ [d]) p →
      x ∈ log p ∨ p = e.segmentActive ∧ x = d := by
    intro p x hx
    by_cases hp : p = e.segmentActive
    · subst hp
      simpa using hx
    · exact .inl (hlog p hp ▸ hx)
  refine ⟨?represents, ?sound, ?disjoint, ?added, ?checked⟩
  case represents =>
    intro p hp
    by_cases hactive : p = e.segmentActive
    · subst hactive
      rw [Function.update_self]
      exact hnew.toRepresents
    · rw [addToActive_segs_of_ne hactive, hlog p hactive]
      exact (h.represents p hp).congr hsame (hids p hp)
  case sound =>
    intro p hp hm
    by_cases hactive : p = e.segmentActive
    · subst hactive
      rw [Function.update_self]
      exact hnew
    · rw [addToActive_segs_of_ne hactive, hlog p hactive]
      exact (h.sound p hp hm).congr hsame (hids p hp)
  case disjoint =>
    intro p hp q hq hpq x hxp hxq
    rcases hmemlog p x hxp with hxp' | ⟨hp', rfl⟩
    · rcases hmemlog q x hxq with hxq' | ⟨-, rfl⟩
      · exact h.disjoint p hp q hq hpq hxp' hxq'
      · exact hd p hp hxp'
    · rcases hmemlog q x hxq with hxq' | ⟨hq', -⟩
      · exact hd q hq hxq'
      · exact hpq (hp'.trans hq'.symm)
  case added =>
    intro p hp x hx
    rcases hmemlog p x hx with hx | ⟨-, rfl⟩
    · exact List.mem_cons_of_mem _ (h.added p hp x hx)
    · exact List.mem_cons_self
  case checked =>
    intro p hp x hx
    rw [hsame.check]
    rcases hmemlog p x hx with hx | ⟨-, rfl⟩
    · exact h.checked p hp x hx
    · exact hcheck

/-- **Adding to the active segment keeps the invariant**, if there is room for the document and
what the segment holds under its key is deleted. -/
lemma Inv.addToActive (h : Inv cap heap as e log) (hfresh : .add d ∉ as)
    (hcheck : (e.docs d).check = true)
    (hlt : (e.segs e.segmentActive).numTotalDocs < cap)
    (hroom : (e.segs e.segmentActive).numTotalDocs + 2 < 2 ^ 32)
    (hdead : ∀ x ∈ log e.segmentActive, (e.docs x).pk = (e.docs d).pk →
      (e.segs e.segmentActive).isDeleted e.docs x = true) :
    Inv cap heap (.add d :: as) (e.addToActive d)
      (Function.update log e.segmentActive (log e.segmentActive ++ [d])) := by
  have hsame : e.docs.SameDocs (e.addToActive d).docs := by
    rw [addToActive_docs hcheck]
    exact .setDocId d _
  refine ⟨h.addToActive_listShape hcheck hlt, h.addToActive_contents hfresh hcheck hroom hdead, ?_,
    h.sameDocs.trans hsame⟩
  exact h.phase_of_activeOnly hsame rfl rfl rfl le_rfl (fun _ _ => Iff.rfl) (.inl rfl)
    (fun p _ hp => ⟨addToActive_segs_of_ne hp, Function.update_of_ne hp _ _⟩)
    fun p hp _ => h.docId_addToActive hfresh hcheck hp

/-- A segment has no more documents than have been added. -/
lemma length_le_addCount {l : List DocPtr} (hnodup : l.Nodup) (hadded : ∀ x ∈ l, .add x ∈ as) :
    l.length ≤ Action.addCount as := by
  have hinj : Function.Injective Action.add := fun a b hab => by simpa using hab
  have hsub : (l.map Action.add) ⊆ as.filter Action.isAdd := by
    intro a ha
    obtain ⟨x, hx, rfl⟩ := List.mem_map.mp ha
    exact List.mem_filter.mpr ⟨hadded x hx, rfl⟩
  have hle := (List.subperm_of_subset (hnodup.map hinj) hsub).length_le
  rwa [List.length_map, ← List.countP_eq_length_filter] at hle

lemma rollOver_docs {L : Type} [SegmentList L] (cap : ℕ) (e : Engine L) :
    (e.rollOver cap).docs = e.docs := by
  unfold rollOver
  split_ifs <;> rfl

/-- **The add handler keeps the invariant.** -/
lemma Inv.addDocumentHandler (h : Inv cap heap as e log) (hcap : 1 ≤ cap)
    (hen : (Action.add d).Enabled cap as e) :
    ∃ log', Inv cap heap (.add d :: as) (e.addDocumentHandler cap d) log' := by
  obtain ⟨hcheck, hfresh, hroom⟩ := hen
  obtain ⟨log₁, h₁, hlt⟩ := h.rollOver hcap
  rw [← rollOver_docs cap e] at hcheck
  unfold Engine.addDocumentHandler
  generalize e.rollOver cap = e₁ at h₁ hlt hcheck
  have h₂ := h₁.removeFromAll (e₁.docs d).pk
  dsimp only
  rw [removeFromAll_list h₁.nodup] at h₂ ⊢
  have hnum : ((e₁.segs e₁.segmentActive).removeDocument e₁.docs (e₁.docs d).pk).2.numTotalDocs =
      (e₁.segs e₁.segmentActive).numTotalDocs :=
    (bitsAdded_removeDocument _ _ _).numTotalDocs_eq
  have hcount : (e₁.segs e₁.segmentActive).numTotalDocs ≤ Action.addCount as := by
    have hrep := h₁.represents _ h₁.active
    rw [hrep.numTotalDocs]
    exact length_le_addCount hrep.nodup (h₁.added _ h₁.active)
  refine ⟨_, h₂.addToActive hfresh hcheck ?_ ?_ ?_⟩
  · simpa [h₁.active, hnum] using hlt
  · simp only [h₁.active, if_true, hnum]
    omega
  · intro x hx hpk
    simp only [h₁.active, if_true]
    rw [← hpk]
    exact (h₁.represents _ h₁.active).isDeleted_removeDocument hx

end Engine

end TsEngine
