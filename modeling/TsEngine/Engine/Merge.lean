import TsEngine.Engine.Choose

/-!
# The merger's procedures and handlers keep the invariant

Migration is the step with content.  `foldl_migrateDocument` follows the copying loop, and
`Inv.mergeProcMigrate_eq` draws the picture at the level of the engine: nothing of the first
source is copied, the live documents of the second are, in the order of its primary key table,
and they are renumbered `1, 2, …` by the new segment while both sources still list them.

The other procedures move pointers.  `Inv.replaced` is where the new segment takes the
place of the two sources and every listed segment is sound again.
-/

namespace TsEngine

open Framework Segment

namespace Engine

variable {cap : ℕ} {heap : DocHeap} {as : List Action} {e e' : ListEngine}
  {log : SegPtr → List DocPtr} {p m1 m2 n : SegPtr} {x : DocPtr}

/-! ## The copying loop -/

/-- The documents `xs`, still to be visited, can be copied into `new`, which holds `logN`: the
live ones have keys of their own, and the ids suffice. -/
structure Copyable (deletion : Bitmap) (docs : DocHeap) (new : Segment) (logN xs : List DocPtr) :
    Prop where
  nodup : xs.Nodup
  checked : ∀ x ∈ xs, (docs x).check = true
  fresh : ∀ x ∈ xs, x ∉ logN
  livePk : ∀ x ∈ xs, ∀ y ∈ xs, (docs x).pk = (docs y).pk →
    deletion.get (docs x).docId = false → deletion.get (docs y).docId = false → x = y
  newPk : ∀ x ∈ xs, deletion.get (docs x).docId = false → ∀ y ∈ logN, (docs y).pk ≠ (docs x).pk
  sound : new.Sound docs logN
  clean : ∀ i, new.deletion.get i = false
  room : new.generator.start + xs.length < 2 ^ 32

section

variable {deletion : Bitmap} {docs : DocHeap} {new : Segment} {logN xs : List DocPtr}

lemma Copyable.skip (h : Copyable deletion docs new logN (x :: xs)) :
    Copyable deletion docs new logN xs where
  nodup := (List.nodup_cons.mp h.nodup).2
  checked y hy := h.checked y (List.mem_cons_of_mem _ hy)
  fresh y hy := h.fresh y (List.mem_cons_of_mem _ hy)
  livePk y hy z hz := h.livePk y (List.mem_cons_of_mem _ hy) z (List.mem_cons_of_mem _ hz)
  newPk y hy := h.newPk y (List.mem_cons_of_mem _ hy)
  sound := h.sound
  clean := h.clean
  room := by
    have hroom := h.room
    rw [List.length_cons] at hroom
    omega

/-- A document that has been copied is not visited again, so its new id does not matter. -/
lemma Copyable.copy (h : Copyable deletion docs new logN (x :: xs))
    (hlive : deletion.get (docs x).docId = false) :
    Copyable deletion (docs.setDocId x new.generator.start) (new.addDocument docs x).2.2
      (logN ++ [x]) xs := by
  obtain ⟨hx, -⟩ := List.nodup_cons.mp h.nodup
  have hroom := h.room
  rw [List.length_cons] at hroom
  have hcheck := h.checked x List.mem_cons_self
  have hadd := addDocument_added docs new hcheck
  have hsame : docs.SameDocs (docs.setDocId x new.generator.start) := .setDocId x _
  have hkeep : ∀ y ∈ xs, docs.setDocId x new.generator.start y = docs y := fun y hy => by
    have hne : y ≠ x := fun heq => hx (heq ▸ hy)
    rw [DocHeap.setDocId_of_ne docs _ hne]
  have hskip := h.skip
  refine ⟨hskip.nodup, fun y hy => ?_, fun y hy hmem => ?_, fun y hy z hz => ?_,
    fun y hy hlive' z hz => ?_, ?_, fun i => ?_, ?_⟩
  · rw [hsame.check]
    exact hskip.checked y hy
  · rcases List.mem_append.mp hmem with hmem | hmem
    · exact hskip.fresh y hy hmem
    · exact hx (List.mem_singleton.mp hmem ▸ hy)
  · rw [hkeep y hy, hkeep z hz]
    exact hskip.livePk y hy z hz
  · rw [hkeep y hy] at hlive' ⊢
    rw [(hsame z).1]
    rcases List.mem_append.mp hz with hz | hz
    · exact hskip.newPk y hy hlive' z hz
    · obtain rfl := List.mem_singleton.mp hz
      intro hpk
      have heq := h.livePk z List.mem_cons_self y (List.mem_cons_of_mem _ hy) hpk hlive hlive'
      exact hx (heq ▸ hy)
  · exact h.sound.addDocument (h.fresh x List.mem_cons_self) hcheck (by omega) fun y hy hpk =>
      absurd hpk (h.newPk x List.mem_cons_self hlive y hy)
  · rw [hadd.deletion]
    exact h.clean i
  · rw [hadd.generator, DocidGenerator.incr, Nat.mod_eq_of_lt (by omega)]
    show new.generator.start + 1 + xs.length < 2 ^ 32
    omega

/-- The outcome `s` of copying the documents `live` into `new`. -/
structure Copied (docs : DocHeap) (new : Segment) (logN live : List DocPtr)
    (s : DocHeap × Segment × List DocPtr) : Prop where
  sameDocs : docs.SameDocs s.1
  frame : ∀ x, x ∉ live → s.1 x = docs x
  ids : (live.map fun x => (s.1 x).docId) = List.range' new.generator.start live.length
  sound : s.2.1.Sound s.1 (logN ++ live)
  clean : ∀ i, s.2.1.deletion.get i = false
  state : s.2.1.state = new.state

/-- **The copying loop** copies the live documents in order and sets the deleted ones aside. -/
lemma foldl_migrateDocument (h : Copyable deletion docs new logN xs) (deleted : List DocPtr) :
    Copied docs new logN (xs.filter fun x => !deletion.get (docs x).docId)
      (xs.foldl (migrateDocument deletion) (docs, new, deleted)) ∧
    (xs.foldl (migrateDocument deletion) (docs, new, deleted)).2.2 =
      deleted ++ xs.filter fun x => deletion.get (docs x).docId := by
  induction xs generalizing docs new logN deleted with
  | nil =>
      exact ⟨⟨.refl docs, fun _ _ => rfl, rfl, by simpa using h.sound, h.clean, rfl⟩, by simp⟩
  | cons x xs ih =>
      rw [List.foldl_cons]
      cases hdel : deletion.get (docs x).docId with
      | true =>
          have hstep : migrateDocument deletion (docs, new, deleted) x =
              (docs, new, deleted ++ [x]) := by simp [migrateDocument, hdel]
          obtain ⟨hcopied, hrest⟩ := ih h.skip (deleted ++ [x])
          rw [hstep, hrest, List.filter_cons_of_neg (by simp [hdel]),
            List.filter_cons_of_pos (p := fun x => deletion.get (docs x).docId) hdel]
          exact ⟨hcopied, by simp⟩
      | false =>
          have hadd := addDocument_added docs new (h.checked x List.mem_cons_self)
          have hx := (List.nodup_cons.mp h.nodup).1
          have hstep : migrateDocument deletion (docs, new, deleted) x =
              (docs.setDocId x new.generator.start, (new.addDocument docs x).2.2, deleted) := by
            simp only [migrateDocument, hdel, Bool.false_eq_true, if_false, hadd.heap]
          obtain ⟨hcopied, hrest⟩ := ih (h.copy hdel) deleted
          have hkeep : ∀ y ∈ xs, docs.setDocId x new.generator.start y = docs y := fun y hy => by
            have hne : y ≠ x := fun heq => hx (heq ▸ hy)
            rw [DocHeap.setDocId_of_ne docs _ hne]
          have hlive : (xs.filter fun y =>
              !deletion.get (docs.setDocId x new.generator.start y).docId) =
              xs.filter fun y => !deletion.get (docs y).docId :=
            List.filter_congr fun y hy => by rw [hkeep y hy]
          have hdead : (xs.filter fun y =>
              deletion.get (docs.setDocId x new.generator.start y).docId) =
              xs.filter fun y => deletion.get (docs y).docId :=
            List.filter_congr fun y hy => by rw [hkeep y hy]
          have hxlive : x ∉ xs.filter fun y => !deletion.get (docs y).docId :=
            fun hmem => hx (List.mem_filter.mp hmem).1
          have hstart : (new.addDocument docs x).2.2.generator.start = new.generator.start + 1 := by
            have hroom := h.room
            rw [List.length_cons] at hroom
            rw [hadd.generator, DocidGenerator.incr, Nat.mod_eq_of_lt (by omega)]
          rw [hlive] at hcopied
          rw [hdead] at hrest
          rw [hstep, hrest, List.filter_cons_of_pos (by simp [hdel]),
            List.filter_cons_of_neg (p := fun x => deletion.get (docs x).docId) (by simp [hdel])]
          refine ⟨⟨(DocHeap.SameDocs.setDocId x _).trans hcopied.sameDocs, fun y hy => ?_, ?_, ?_,
            hcopied.clean, ?_⟩, rfl⟩
          · rw [List.mem_cons, not_or] at hy
            rw [hcopied.frame y hy.2, DocHeap.setDocId_of_ne docs _ hy.1]
          · rw [List.map_cons, List.length_cons, List.range'_succ, hcopied.ids, hstart,
              hcopied.frame x hxlive, DocHeap.setDocId_self]
          · simpa using hcopied.sound
          · rw [hcopied.state, hadd.state]

end

/-- From a source with every document deleted nothing is copied. -/
lemma segmentMigrate_of_dead {old new : Segment} {docs : DocHeap} (deleted : List DocPtr)
    (hdead : ∀ x ∈ old.docPtrs, old.isDeleted docs x = true) :
    segmentMigrate old (docs, new, deleted) = (docs, new, deleted ++ old.docPtrs) := by
  suffices h : ∀ xs : List DocPtr, (∀ x ∈ xs, old.isDeleted docs x = true) → ∀ deleted,
      xs.foldl (migrateDocument old.deletion.clone) (docs, new, deleted) =
        (docs, new, deleted ++ xs) from h _ hdead deleted
  intro xs
  induction xs with
  | nil => simp
  | cons x xs ih =>
      intro hxs deleted
      have hx : old.deletion.get (docs x).docId = true := hxs x List.mem_cons_self
      rw [List.foldl_cons, migrateDocument, Bitmap.get_clone, if_pos hx,
        ih fun y hy => hxs y (List.mem_cons_of_mem _ hy)]
      simp

/-! ## The migration -/

lemma deref_eq_ok {L : Type} {e : Engine L} {o : Option SegPtr} :
    e.deref o = .ok p ↔ o = some p ∧ p ∉ e.freedSegs := by
  cases o with
  | none => simp [deref]
  | some q =>
      by_cases hq : q ∈ e.freedSegs
      · simp only [deref, hq, if_true, Option.some.injEq, reduceCtorEq, false_iff]
        rintro ⟨rfl, hp⟩
        exact hp hq
      · simp only [deref, hq, if_false, Except.ok.injEq, Option.some.injEq]
        constructor
        · rintro rfl
          exact ⟨rfl, hq⟩
        · exact And.left

lemma deref_of_not_freed {L : Type} {e : Engine L} (hp : p ∉ e.freedSegs) :
    e.deref (some p) = .ok p :=
  deref_eq_ok.mpr ⟨rfl, hp⟩

/-- The engine after the migration, where `s` is what the copying loops end in. -/
def migrated (e : ListEngine) (s : DocHeap × Segment × List DocPtr) : ListEngine :=
  { e with
    docs := s.1
    segs := Function.update e.segs e.nextSeg s.2.1
    nextSeg := e.nextSeg + 1
    inputQueue := [.replace]
    merger := { e.merger with newseg := some e.nextSeg, deleted := s.2.2, mergeStage := 2 } }

/-- **What a migration does**: it copies the live documents of the second source, and no other,
into a segment of their own, and sets the other documents of both sources aside. -/
lemma Inv.mergeProcMigrate_eq (h : Inv cap heap as e log) (hstage : e.merger.mergeStage = 1) :
    ∃ m1 m2 s, Sources e log m1 m2 ∧ Copied e.docs .new [] ((e.segs m2).livePtrs e.docs) s ∧
      s.2.2 = (e.segs m1).docPtrs ++
        (e.segs m2).docPtrs.filter (fun x => (e.segs m2).isDeleted e.docs x) ∧
      e.mergeProcMigrate = .ok (e.migrated s) := by
  obtain ⟨m1, m2, hqueue, hsrc⟩ : ∃ m1 m2, e.inputQueue = [] ∧ Sources e log m1 m2 := by
    cases h.phase with
    | checked m1 m2 _ hqueue hsrc => exact ⟨m1, m2, hqueue, hsrc⟩
    | _ => omega
  have hrep1 := h.represents m1 hsrc.mem1
  have hsound := h.sound m2 hsrc.mem2 fun hm => by simp [Merging, hstage] at hm
  have hmem : ∀ x, x ∈ (e.segs m2).docPtrs ↔ x ∈ log m2 := fun x => hsound.mem_docPtrs
  have hlen : (e.segs m2).docPtrs.length = (e.segs m2).numTotalDocs := by
    rw [hsound.walk.length_eq, hsound.numTotalDocs]
  have hcopy : Copyable (e.segs m2).deletion e.docs .new [] (e.segs m2).docPtrs := by
    refine ⟨hsound.walk.nodup_iff.mpr hsound.nodup, fun x hx => ?_, by simp, fun x hx y hy => ?_,
      by simp, sound_new _, by simp [Segment.new], ?_⟩
    · exact h.checked m2 hsrc.mem2 x ((hmem x).mp hx)
    · exact hsound.livePk x ((hmem x).mp hx) y ((hmem y).mp hy)
    · have hlt := hsound.start_lt
      rw [hsound.start] at hlt
      rw [hlen]
      show 1 + (e.segs m2).numTotalDocs < 2 ^ 32
      omega
  have hfirst : segmentMigrate (e.segs m1) (e.docs, .new, []) =
      (e.docs, .new, [] ++ (e.segs m1).docPtrs) :=
    segmentMigrate_of_dead [] fun x hx => hsrc.dead x (hrep1.mem_docPtrs.mp hx)
  obtain ⟨hcopied, haside⟩ := foldl_migrateDocument hcopy ([] ++ (e.segs m1).docPtrs)
  rw [List.nil_append] at haside
  refine ⟨m1, m2, segmentMigrate (e.segs m2) (e.docs, .new, [] ++ (e.segs m1).docPtrs), hsrc,
    hcopied, haside, ?_⟩
  rw [mergeProcMigrate, if_neg (by simp [hstage])]
  simp only [migrateAndEnqueue, hsrc.mseg1, hsrc.mseg2,
    deref_of_not_freed (h.notFreed m1 hsrc.mem1), deref_of_not_freed (h.notFreed m2 hsrc.mem2),
    hfirst, hqueue, bind, Except.bind, List.nil_append, migrated, setStage]

section

variable {s : DocHeap × Segment × List DocPtr}

lemma ListShape.migrated_segs (h : ListShape cap e) (hp : p ∈ e.segments) :
    (e.migrated s).segs p = e.segs p :=
  Function.update_of_ne (h.lt p hp).ne _ _

lemma migrated_segs_nextSeg : (e.migrated s).segs e.nextSeg = s.2.1 := Function.update_self _ _ _

lemma Inv.migrated_listShape (h : Inv cap heap as e log) : ListShape cap (e.migrated s) where
  nodup := h.nodup
  lt p hp := (h.lt p hp).trans (Nat.lt_succ_self _)
  notFreed := h.notFreed
  freedLt p hp := (h.freedLt p hp).trans (Nat.lt_succ_self _)
  active := h.active
  activeState := (congrArg Segment.state (h.migrated_segs h.active)).trans h.activeState
  otherState p hp hne := by
    rw [h.migrated_segs hp]
    exact h.otherState p hp hne
  nonempty p hp hne := by
    rw [h.migrated_segs hp]
    exact h.nonempty p hp hne
  leCap p hp := by
    rw [h.migrated_segs hp]
    exact h.leCap p hp

/-- Documents of other segments than the second source keep their ids. -/
lemma Inv.docs_of_copied (h : Inv cap heap as e log) (hsrc : Sources e log m1 m2)
    (hcopied : Copied e.docs .new [] ((e.segs m2).livePtrs e.docs) s) (hp : p ∈ e.segments)
    (hne : p ≠ m2) (hx : x ∈ log p) : s.1 x = e.docs x := by
  refine hcopied.frame x fun hlive => h.disjoint p hp m2 hsrc.mem2 hne hx ?_
  exact (h.mem_docPtrs hsrc.mem2).mp (mem_livePtrs.mp hlive).1

lemma Inv.migrated_contents (h : Inv cap heap as e log) (hstage : e.merger.mergeStage = 1)
    (hsrc : Sources e log m1 m2)
    (hcopied : Copied e.docs .new [] ((e.segs m2).livePtrs e.docs) s) :
    Contents as (e.migrated s)
      (Function.update log e.nextSeg ((e.segs m2).livePtrs e.docs)) := by
  have hlog : ∀ p ∈ e.segments,
      Function.update log e.nextSeg ((e.segs m2).livePtrs e.docs) p = log p :=
    fun p hp => Function.update_of_ne (h.lt p hp).ne _ _
  have hids : ∀ p ∈ e.segments, p ≠ m2 → ∀ x ∈ log p, (s.1 x).docId = (e.docs x).docId :=
    fun p hp hne x hx => congrArg Document.docId (h.docs_of_copied hsrc hcopied hp hne hx)
  refine ⟨?represents, ?sound, ?disjoint, ?added, ?checked⟩
  case represents =>
    intro p hp
    rw [h.migrated_segs hp, hlog p hp]
    by_cases hne : p = m2
    · -- a set bit belongs to a deleted document, and those keep their ids
      subst hne
      have hrep := h.represents p hp
      refine ⟨hrep.toIndexed.congr hcopied.sameDocs,
        ⟨fun i hi => ?_, hrep.numTotalDeleted⟩⟩
      obtain ⟨x, hx, rfl⟩ := hrep.bit i hi
      have hdead : x ∉ (e.segs p).livePtrs e.docs := fun hmem => by
        have hdel := (mem_livePtrs.mp hmem).2
        rw [isDeleted, hi] at hdel
        exact absurd hdel (by simp)
      exact ⟨x, hx, congrArg Document.docId (hcopied.frame x hdead)⟩
    · exact (h.represents p hp).congr hcopied.sameDocs (hids p hp hne)
  case sound =>
    intro p hp hm
    have hne : p ≠ m2 := fun heq => hm ⟨rfl, .inr (heq ▸ hsrc.mseg2)⟩
    rw [h.migrated_segs hp, hlog p hp]
    exact (h.sound p hp fun hm' => by simp [Merging, hstage] at hm').congr hcopied.sameDocs
      (hids p hp hne)
  case disjoint =>
    intro p hp q hq hpq
    rw [hlog p hp, hlog q hq]
    exact h.disjoint p hp q hq hpq
  case added =>
    intro p hp x hx
    rw [hlog p hp] at hx
    exact h.added p hp x hx
  case checked =>
    intro p hp x hx
    rw [hlog p hp] at hx
    exact (hcopied.sameDocs.check x).trans (h.checked p hp x hx)

/-- The new segment waits to be linked, with as many documents as the second source has live. -/
lemma Inv.migrated_phase (h : Inv cap heap as e log) (hsrc : Sources e log m1 m2)
    (hcopied : Copied e.docs .new [] ((e.segs m2).livePtrs e.docs) s) :
    Phase cap (e.migrated s)
      (Function.update log e.nextSeg ((e.segs m2).livePtrs e.docs)) := by
  refine .migrated m1 m2 e.nextSeg rfl rfl
    ⟨hsrc.mseg1, hsrc.mseg2, hsrc.ne, hsrc.mem1, hsrc.mem2, hsrc.inactive1, hsrc.inactive2,
      ?dead⟩
    ⟨rfl, fun hmem => (h.lt _ hmem).ne rfl, Nat.zero_lt_of_lt (h.lt _ h.active),
      Nat.lt_succ_self _, fun hfreed => (h.freedLt _ hfreed).ne rfl, ?state, ?sound, ?leCap,
      ?clean, ?fromSource⟩
  case dead =>
    intro x hx
    rw [Function.update_of_ne (h.lt m1 hsrc.mem1).ne] at hx
    rw [h.migrated_segs hsrc.mem1]
    show (e.segs m1).isDeleted s.1 x = true
    rw [isDeleted, h.docs_of_copied hsrc hcopied hsrc.mem1 hsrc.ne hx]
    exact hsrc.dead x hx
  case state =>
    rw [migrated_segs_nextSeg]
    exact hcopied.state
  case sound =>
    rw [migrated_segs_nextSeg, Function.update_self]
    exact hcopied.sound
  case leCap =>
    have hle := h.leCap m2 hsrc.mem2
    rw [(h.represents m2 hsrc.mem2).numTotalDocs,
      ← (h.represents m2 hsrc.mem2).walk.length_eq] at hle
    rw [migrated_segs_nextSeg, hcopied.sound.numTotalDocs]
    exact (List.length_filter_le _ _).trans hle
  case clean =>
    rw [migrated_segs_nextSeg]
    exact hcopied.clean
  case fromSource =>
    intro x hx
    rw [Function.update_self] at hx
    rw [Function.update_of_ne (h.lt m2 hsrc.mem2).ne]
    exact (h.mem_docPtrs hsrc.mem2).mp (mem_livePtrs.mp hx).1

end

/-- **The migration keeps the invariant** and does not fault.  Between the two sources and the new
segment, only the new one is left sound. -/
lemma Inv.mergeProcMigrate (h : Inv cap heap as e log) :
    ∃ e' log', e.mergeProcMigrate = .ok e' ∧ Inv cap heap as e' log' := by
  by_cases hstage : e.merger.mergeStage = 1
  · obtain ⟨m1, m2, s, hsrc, hcopied, -, heq⟩ := h.mergeProcMigrate_eq hstage
    exact ⟨_, _, heq, h.migrated_listShape, h.migrated_contents hstage hsrc hcopied,
      h.migrated_phase hsrc hcopied, h.sameDocs.trans hcopied.sameDocs⟩
  · exact ⟨e, log, if_pos hstage, h⟩

/-! ## The replacement -/

/-- The list of segments after the replace handler. -/
def replacedSegments (e : ListEngine) (m1 m2 n : SegPtr) : List SegPtr :=
  if 0 < (e.segs n).numTotalDocs then n :: (e.segments.erase m1).erase m2
  else (e.segments.erase m1).erase m2

/-- The engine after the replace handler. -/
def replaced (e : ListEngine) (m1 m2 n : SegPtr) : ListEngine :=
  { e with
    segments := e.replacedSegments m1 m2 n
    segs :=
      if 0 < (e.segs n).numTotalDocs then
        Function.update e.segs n { e.segs n with state := (e.segs n).state + 1 }
      else e.segs
    inputQueue := []
    merger := { e.merger with mergeStage := 3 } }

/-- With its task in the queue, the replace handler runs and does not fault. -/
lemma Inv.replaceSegs_spec (h : Inv cap heap as e log) (hqueue : .replace ∈ e.inputQueue) :
    ∃ m1 m2 n, e.merger.mergeStage = 2 ∧ Sources e log m1 m2 ∧ Unlinked cap e log m2 n ∧
      (e.dequeue .replace).replaceSegsHandler = .ok (e.replaced m1 m2 n) := by
  obtain ⟨m1, m2, n, hstage, hqueue, hsrc, hnew⟩ : ∃ m1 m2 n, e.merger.mergeStage = 2 ∧
      e.inputQueue = [.replace] ∧ Sources e log m1 m2 ∧ Unlinked cap e log m2 n := by
    cases h.phase with
    | migrated m1 m2 n hstage hqueue hsrc hnew => exact ⟨m1, m2, n, hstage, hqueue, hsrc, hnew⟩
    | _ => simp_all
  refine ⟨m1, m2, n, hstage, hsrc, hnew, ?_⟩
  have hderef : ∀ {q}, q ∉ e.freedSegs → (e.dequeue .replace).deref (some q) = .ok q :=
    fun hq => deref_of_not_freed hq
  have h1 : (e.dequeue .replace).merger.mseg1 = some m1 := hsrc.mseg1
  have h2 : (e.dequeue .replace).merger.mseg2 = some m2 := hsrc.mseg2
  have hn : (e.dequeue .replace).merger.newseg = some n := hnew.newseg
  have hsegs : (e.dequeue .replace).segs = e.segs := rfl
  simp only [replaceSegsHandler, h1, h2, hn, hsegs, hderef (h.notFreed m1 hsrc.mem1),
    hderef (h.notFreed m2 hsrc.mem2), hderef hnew.notFreed, SegmentList.dlDelete_list, bind,
    Except.bind]
  unfold replaced replacedSegments
  split_ifs <;> simp [dequeue, modifySeg, setStage, hqueue]

lemma ListShape.mem_erase (h : ListShape cap e) :
    p ∈ (e.segments.erase m1).erase m2 ↔ p ∈ e.segments ∧ p ≠ m1 ∧ p ≠ m2 := by
  rw [(h.nodup.erase m1).mem_erase_iff, h.nodup.mem_erase_iff]
  tauto

lemma ListShape.mem_replacedSegments (h : ListShape cap e) :
    p ∈ e.replacedSegments m1 m2 n ↔
      p = n ∧ 0 < (e.segs n).numTotalDocs ∨ p ∈ e.segments ∧ p ≠ m1 ∧ p ≠ m2 := by
  unfold replacedSegments
  split_ifs with hpos
  · simp [h.mem_erase, hpos]
  · simp [h.mem_erase, hpos]

lemma replaced_segs_of_ne (hp : p ≠ n) : (e.replaced m1 m2 n).segs p = e.segs p := by
  unfold Engine.replaced
  split_ifs
  · exact Function.update_of_ne hp _ _
  · rfl

/-- No segment changes but in its state. -/
lemma replaced_segs (e : ListEngine) (m1 m2 n p : SegPtr) :
    ∃ k, (e.replaced m1 m2 n).segs p = { e.segs p with state := k } := by
  by_cases hp : p = n
  · subst hp
    unfold Engine.replaced
    split_ifs
    · exact ⟨(e.segs p).state + 1, Function.update_self _ _ _⟩
    · exact ⟨(e.segs p).state, rfl⟩
  · exact ⟨(e.segs p).state, replaced_segs_of_ne hp⟩

lemma replaced_numTotalDocs (e : ListEngine) (m1 m2 n p : SegPtr) :
    ((e.replaced m1 m2 n).segs p).numTotalDocs = (e.segs p).numTotalDocs := by
  obtain ⟨k, hk⟩ := replaced_segs e m1 m2 n p
  rw [hk]

lemma Unlinked.ne_of_mem (hnew : Unlinked cap e log m2 n) (hp : p ∈ e.segments) : p ≠ n :=
  fun heq => hnew.notMem (heq ▸ hp)

lemma Inv.replaced_listShape (h : Inv cap heap as e log) (hsrc : Sources e log m1 m2)
    (hnew : Unlinked cap e log m2 n) : ListShape cap (e.replaced m1 m2 n) := by
  refine ⟨?nodup, ?lt, ?notFreed, h.freedLt, ?active, ?activeState, ?otherState, ?nonempty, ?leCap⟩
  case nodup =>
    have hrest := (h.nodup.erase m1).erase m2
    show (e.replacedSegments m1 m2 n).Nodup
    unfold replacedSegments
    split_ifs
    · exact List.nodup_cons.mpr ⟨fun hn => hnew.notMem (h.mem_erase.mp hn).1, hrest⟩
    · exact hrest
  case lt =>
    intro q hq
    rcases h.mem_replacedSegments.mp hq with ⟨rfl, -⟩ | ⟨hq, -⟩
    · exact hnew.lt
    · exact h.lt q hq
  case notFreed =>
    intro q hq
    rcases h.mem_replacedSegments.mp hq with ⟨rfl, -⟩ | ⟨hq, -⟩
    · exact hnew.notFreed
    · exact h.notFreed q hq
  case active =>
    exact h.mem_replacedSegments.mpr (.inr ⟨h.active, hsrc.inactive1.symm, hsrc.inactive2.symm⟩)
  case activeState =>
    exact (congrArg Segment.state (replaced_segs_of_ne (hnew.ne_of_mem h.active))).trans
      h.activeState
  case otherState =>
    intro q hq hqa
    rcases h.mem_replacedSegments.mp hq with ⟨rfl, hpos⟩ | ⟨hq, -⟩
    · simp [Engine.replaced, hpos, hnew.state, segmentStateActive, segmentStateValid]
    · rw [replaced_segs_of_ne (hnew.ne_of_mem hq)]
      exact h.otherState q hq hqa
  case nonempty =>
    intro q hq hqa
    rw [replaced_numTotalDocs]
    rcases h.mem_replacedSegments.mp hq with ⟨rfl, hpos⟩ | ⟨hq, -⟩
    · exact hpos.ne'
    · exact h.nonempty q hq hqa
  case leCap =>
    intro q hq
    rw [replaced_numTotalDocs]
    rcases h.mem_replacedSegments.mp hq with ⟨rfl, -⟩ | ⟨hq, -⟩
    · exact hnew.leCap
    · exact h.leCap q hq

/-- Every document of a segment that is listed afterwards is one of a segment other than `m1` that
is listed before, and no two take it from the same one. -/
lemma Inv.replaced_from (h : Inv cap heap as e log) (hsrc : Sources e log m1 m2)
    (hnew : Unlinked cap e log m2 n) (hp : p ∈ e.replacedSegments m1 m2 n) :
    ∃ q ∈ e.segments, (∀ x ∈ log p, x ∈ log q) ∧ (p = n ∧ q = m2 ∨ p ≠ n ∧ q = p ∧ p ≠ m2) := by
  rcases h.mem_replacedSegments.mp hp with ⟨rfl, -⟩ | ⟨hp, -, h2⟩
  · exact ⟨m2, hsrc.mem2, hnew.fromSource, .inl ⟨rfl, rfl⟩⟩
  · exact ⟨p, hp, fun x hx => hx, .inr ⟨hnew.ne_of_mem hp, rfl, h2⟩⟩

lemma Inv.replaced_contents (h : Inv cap heap as e log) (hsrc : Sources e log m1 m2)
    (hnew : Unlinked cap e log m2 n) : Contents as (e.replaced m1 m2 n) log := by
  have hsound : ∀ q ∈ e.replacedSegments m1 m2 n, (e.segs q).Sound e.docs (log q) := by
    intro q hq
    rcases h.mem_replacedSegments.mp hq with ⟨rfl, -⟩ | ⟨hq, h1, h2⟩
    · exact hnew.sound
    · exact h.sound q hq fun hm => (hsrc.eq_or_eq hm.2).elim h1 h2
  refine ⟨?represents, ?sound, ?disjoint, ?added, ?checked⟩
  case represents =>
    intro q hq
    obtain ⟨k, hk⟩ := replaced_segs e m1 m2 n q
    rw [hk]
    exact (hsound q hq).toRepresents.setState k
  case sound =>
    intro q hq _
    obtain ⟨k, hk⟩ := replaced_segs e m1 m2 n q
    rw [hk]
    exact (hsound q hq).setState k
  case disjoint =>
    intro p hp q hq hpq x hxp hxq
    obtain ⟨p', hp', hsubp, hcp⟩ := h.replaced_from hsrc hnew hp
    obtain ⟨q', hq', hsubq, hcq⟩ := h.replaced_from hsrc hnew hq
    refine h.disjoint p' hp' q' hq' (fun heq => ?_) (hsubp x hxp) (hsubq x hxq)
    subst heq
    rcases hcp with ⟨rfl, rfl⟩ | ⟨-, rfl, h2⟩
    · rcases hcq with ⟨rfl, -⟩ | ⟨-, rfl, h2⟩
      · exact hpq rfl
      · exact h2 rfl
    · rcases hcq with ⟨-, rfl⟩ | ⟨-, rfl, -⟩
      · exact h2 rfl
      · exact hpq rfl
  case added =>
    intro q hq x hx
    obtain ⟨q', hq', hsub, -⟩ := h.replaced_from hsrc hnew hq
    exact h.added q' hq' x (hsub x hx)
  case checked =>
    intro q hq x hx
    obtain ⟨q', hq', hsub, -⟩ := h.replaced_from hsrc hnew hq
    exact h.checked q' hq' x (hsub x hx)

/-- The sources are unlisted and the new segment is listed, unless it is empty. -/
lemma Inv.replaced_phase (h : Inv cap heap as e log) (hsrc : Sources e log m1 m2)
    (hnew : Unlinked cap e log m2 n) : Phase cap (e.replaced m1 m2 n) log := by
  refine .replaced n rfl rfl ⟨hnew.newseg, hnew.lt, hnew.notFreed,
    (hnew.ne_of_mem h.active).symm, ?_⟩ ⟨fun m hm1 hm2 => ?_, fun m hm hmem => ?_,
    fun m hm => h.lt m (hsrc.mem hm), fun m hm => h.notFreed m (hsrc.mem hm),
    fun m hm => hnew.ne_of_mem (hsrc.mem hm)⟩
  · rw [replaced_numTotalDocs]
    show n ∈ e.replacedSegments m1 m2 n ↔ _
    rw [h.mem_replacedSegments, Nat.pos_iff_ne_zero]
    exact ⟨fun hn => hn.elim (·.2) fun hn => absurd hn.1 hnew.notMem, fun hn => .inl ⟨rfl, hn⟩⟩
  · have hm1 := hm1.symm.trans hsrc.mseg1
    have hm2 := hm2.symm.trans hsrc.mseg2
    exact hsrc.ne (Option.some.inj (hm1.symm.trans hm2))
  · rcases h.mem_replacedSegments.mp hmem with ⟨rfl, -⟩ | ⟨-, h1, h2⟩
    · exact hnew.notMem (hsrc.mem hm)
    · exact (hsrc.eq_or_eq hm).elim h1 h2

/-- **Replacing the sources by the new segment keeps the invariant**, and ends the time in which
segments with stale ids are listed. -/
lemma Inv.replaced (h : Inv cap heap as e log) (hsrc : Sources e log m1 m2)
    (hnew : Unlinked cap e log m2 n) :
    Inv cap heap as (e.replaced m1 m2 n) log where
  toListShape := h.replaced_listShape hsrc hnew
  toContents := h.replaced_contents hsrc hnew
  phase := h.replaced_phase hsrc hnew
  sameDocs := h.sameDocs

/-! ## Steps that only move pointers -/

/-- A step outside stage 2 that changes the merger, the queue and what has been freed. -/
lemma Inv.pointers (h : Inv cap heap as e log) (hstage : e.merger.mergeStage ≠ 2)
    {freedSegs : List SegPtr} {freedDocs : List DocPtr} {inputQueue : List MergerTask}
    {merger : Merger} (hnot : ∀ p ∈ e.segments, p ∉ freedSegs)
    (hlt : ∀ p ∈ freedSegs, p < e.nextSeg)
    (hphase : Phase cap { e with freedSegs, freedDocs, inputQueue, merger } log) :
    Inv cap heap as { e with freedSegs, freedDocs, inputQueue, merger } log :=
  { h with
    notFreed := hnot
    freedLt := hlt
    sound := fun p hp _ => h.sound p hp fun hm => hstage hm.1
    phase := hphase }

/-! ### The release -/

/-- At stage 3 the invariant is about `replaced`. -/
lemma Inv.phase_replaced (h : Inv cap heap as e log) (hstage : e.merger.mergeStage = 3) :
    ∃ n, e.inputQueue = [] ∧ Linked e n ∧ Unlisted e n := by
  cases h.phase with
  | replaced n _ hqueue hnew hold => exact ⟨n, hqueue, hnew, hold⟩
  | _ => omega

/-- Freeing one of the two sources, which is then forgotten. -/
lemma Inv.freeSource (h : Inv cap heap as e log) (hstage : e.merger.mergeStage = 3) {m : SegPtr}
    {merger : Merger} (hm : e.merger.mseg1 = some m ∨ e.merger.mseg2 = some m)
    (hmstage : merger.mergeStage = 3) (hnewseg : merger.newseg = e.merger.newseg)
    (hsub : ∀ q, merger.mseg1 = some q ∨ merger.mseg2 = some q →
      (e.merger.mseg1 = some q ∨ e.merger.mseg2 = some q) ∧ q ≠ m)
    (hne : ∀ q, merger.mseg1 = some q → merger.mseg2 ≠ some q) :
    Inv cap heap as { e with freedSegs := m :: e.freedSegs, merger } log := by
  obtain ⟨n, hqueue, hnew, hold⟩ := h.phase_replaced hstage
  refine h.pointers (by omega) ?_ ?_ ?_
  · intro p hp hfreed
    rcases List.mem_cons.mp hfreed with rfl | hfreed
    · exact hold.notMem p hm hp
    · exact h.notFreed p hp hfreed
  · intro p hp
    rcases List.mem_cons.mp hp with rfl | hp
    · exact hold.lt p hm
    · exact h.freedLt p hp
  · refine .replaced n hmstage hqueue { hnew with
      newseg := hnewseg.trans hnew.newseg
      notFreed := fun hfreed => ?_ } ⟨hne, fun q hq => hold.notMem q (hsub q hq).1,
      fun q hq => hold.lt q (hsub q hq).1, fun q hq hfreed => ?_,
      fun q hq => hold.neNew q (hsub q hq).1⟩
    · rcases List.mem_cons.mp hfreed with rfl | hfreed
      · exact hold.neNew n hm rfl
      · exact hnew.notFreed hfreed
    · rcases List.mem_cons.mp hfreed with rfl | hfreed
      · exact (hsub q hq).2 rfl
      · exact hold.notFreed q (hsub q hq).1 hfreed

/-- What the release of one source can do: nothing, or free it and forget it. -/
lemma releaseSource_cases {L : Type} [SegmentList L] {e e' : Engine L}
    {source : Merger → Option SegPtr} {forget : Merger → Merger}
    (hexec : e.releaseSource source forget = .ok e') :
    ∃ m, source e.merger = some m ∧ m ∉ e.freedSegs ∧
      ((e.segs m).processes ≠ 0 ∧ e' = e ∨ (e.segs m).processes = 0 ∧
        e' = { e with freedSegs := m :: e.freedSegs, merger := forget e.merger }) := by
  obtain ⟨m, hderef, hexec⟩ := bind_eq_ok.mp hexec
  obtain ⟨hm, hfreed⟩ := deref_eq_ok.mp hderef
  refine ⟨m, hm, hfreed, ?_⟩
  split_ifs at hexec with hproc
  · exact .inr ⟨hproc, by simpa [freeSegment] using hexec.symm⟩
  · exact .inl ⟨hproc, by simpa using hexec.symm⟩

lemma Inv.releaseMseg1 (h : Inv cap heap as e log) (hstage : e.merger.mergeStage = 3)
    (hexec : e.releaseMseg1 = .ok e') : Inv cap heap as e' log ∧ e'.merger.mergeStage = 3 := by
  obtain ⟨n, -, -, hold⟩ := h.phase_replaced hstage
  obtain ⟨m, hm, -, ⟨-, rfl⟩ | ⟨-, rfl⟩⟩ := releaseSource_cases hexec
  · exact ⟨h, hstage⟩
  · refine ⟨h.freeSource hstage (.inl hm) hstage rfl (fun q hq => ?_) (by simp), hstage⟩
    rcases hq with hq | hq
    · simp at hq
    · exact ⟨.inr hq, fun heq => hold.ne m hm (heq ▸ hq)⟩

lemma Inv.releaseMseg2 (h : Inv cap heap as e log) (hstage : e.merger.mergeStage = 3)
    (hexec : e.releaseMseg2 = .ok e') : Inv cap heap as e' log ∧ e'.merger.mergeStage = 3 := by
  obtain ⟨n, -, -, hold⟩ := h.phase_replaced hstage
  obtain ⟨m, hm, -, ⟨-, rfl⟩ | ⟨-, rfl⟩⟩ := releaseSource_cases hexec
  · exact ⟨h, hstage⟩
  · refine ⟨h.freeSource hstage (.inr hm) hstage rfl (fun q hq => ?_) (by simp), hstage⟩
    rcases hq with hq | hq
    · exact ⟨.inl hq, fun heq => hold.ne q hq (heq ▸ hm)⟩
    · simp at hq

/-- With both sources gone the rest of the release cannot fault, and leaves stage 3. -/
lemma Inv.releaseDocuments_spec (h : Inv cap heap as e log) (hstage : e.merger.mergeStage = 3) :
    ∃ n, Linked e n ∧ Unlisted e n ∧ e.releaseDocuments =
      if 0 < (e.segs n).numTotalDocs then
        .ok ({ e with freedDocs := e.merger.deleted.reverse ++ e.freedDocs }.setStage 4)
      else .ok (({ e with freedDocs := e.merger.deleted.reverse ++ e.freedDocs }.freeSegment
        n).setStage 6) := by
  obtain ⟨n, -, hnew, hold⟩ := h.phase_replaced hstage
  refine ⟨n, hnew, hold, ?_⟩
  have hderef : deref { e with freedDocs := e.merger.deleted.reverse ++ e.freedDocs }
      e.merger.newseg = .ok n := by
    rw [hnew.newseg]
    exact deref_of_not_freed hnew.notFreed
  simp only [releaseDocuments, hderef, bind, Except.bind]

lemma Inv.releaseDocuments (h : Inv cap heap as e log) (hstage : e.merger.mergeStage = 3)
    (hexec : e.releaseDocuments = .ok e') : Inv cap heap as e' log := by
  obtain ⟨n, hnew, -, heq⟩ := h.releaseDocuments_spec hstage
  obtain ⟨-, hqueue, -⟩ := h.phase_replaced hstage
  rw [heq] at hexec
  split_ifs at hexec with hpos
  · obtain rfl := Except.ok.inj hexec
    apply h.pointers (by omega) h.notFreed h.freedLt
    exact .released n rfl hqueue { hnew with } (hnew.mem_iff.mpr hpos.ne')
  · obtain rfl := Except.ok.inj hexec
    have hnot : n ∉ e.segments := fun hn => hpos (Nat.pos_of_ne_zero (hnew.mem_iff.mp hn))
    refine h.pointers (by omega) (fun p hp hfreed => ?_) (fun p hp => ?_) (.finished rfl hqueue)
    · rcases List.mem_cons.mp hfreed with rfl | hfreed
      · exact hnot hp
      · exact h.notFreed p hp hfreed
    · rcases List.mem_cons.mp hp with rfl | hp
      · exact hnew.lt
      · exact h.freedLt p hp

/-- **The release keeps the invariant**, as long as it does not fault. -/
lemma Inv.mergeProcRelease (h : Inv cap heap as e log) (hexec : e.mergeProcRelease = .ok e') :
    Inv cap heap as e' log := by
  unfold Engine.mergeProcRelease at hexec
  split_ifs at hexec with hstage
  · obtain rfl := Except.ok.inj hexec
    exact h
  have hstage : e.merger.mergeStage = 3 := by simpa using hstage
  obtain ⟨e₁, h1, hexec⟩ := bind_eq_ok.mp hexec
  obtain ⟨e₂, h2, hexec⟩ := bind_eq_ok.mp hexec
  obtain ⟨hinv₁, hstage₁⟩ := h.releaseMseg1 hstage h1
  obtain ⟨hinv₂, hstage₂⟩ := hinv₁.releaseMseg2 hstage₁ h2
  split_ifs at hexec
  · exact hinv₂.releaseDocuments hstage₂ hexec
  · obtain rfl := Except.ok.inj hexec
    exact hinv₂

/-! ### The second deletion and the reset -/

lemma Inv.mergeProcRedelete (h : Inv cap heap as e log) :
    Inv cap heap as e.mergeProcRedelete log := by
  unfold Engine.mergeProcRedelete
  split_ifs with hstage
  · exact h
  have hstage : e.merger.mergeStage = 4 := by simpa using hstage
  obtain ⟨n, hqueue, hnew, hmem⟩ : ∃ n, e.inputQueue = [] ∧ Linked e n ∧ n ∈ e.segments := by
    cases h.phase with
    | released n _ hqueue hnew hmem => exact ⟨n, hqueue, hnew, hmem⟩
    | _ => omega
  apply h.pointers (by omega) h.notFreed h.freedLt
  exact .redeleting n rfl (by simp [redeleteEnqueue, hqueue]) { hnew with } hmem

/-- With its task in the queue, the redelete handler sets bits of the new segment, which is
listed, and moves on to stage 6. -/
lemma Inv.redelete_spec (h : Inv cap heap as e log) (hqueue : .redelete ∈ e.inputQueue) :
    ∃ n, e.merger.mergeStage = 5 ∧ Linked e n ∧ n ∈ e.segments ∧
      (e.dequeue .redelete).redeleteHandler = .ok { e with
        segs := Function.update e.segs n (e.merger.mergingDeletion.foldl
          (fun seg pk => (seg.removeDocument e.docs pk).2) (e.segs n))
        inputQueue := []
        merger := { e.merger with mergeStage := 6 } } := by
  obtain ⟨n, hstage, hqueue, hnew, hmem⟩ : ∃ n, e.merger.mergeStage = 5 ∧
      e.inputQueue = [.redelete] ∧ Linked e n ∧ n ∈ e.segments := by
    cases h.phase with
    | redeleting n hstage hqueue hnew hmem => exact ⟨n, hstage, hqueue, hnew, hmem⟩
    | _ => simp_all
  refine ⟨n, hstage, hnew, hmem, ?_⟩
  have hderef : (e.dequeue .redelete).deref (e.dequeue .redelete).merger.newseg = .ok n := by
    show (e.dequeue .redelete).deref e.merger.newseg = .ok n
    rw [hnew.newseg]
    exact deref_of_not_freed hnew.notFreed
  unfold redeleteHandler
  rw [hderef]
  split_ifs with hnil
  · have hnil : e.merger.mergingDeletion = [] := hnil
    simp [setStage, dequeue, hqueue, hnil]
  · simp [setStage, dequeue, modifySeg, hqueue, bind, Except.bind]

lemma Inv.redelete (h : Inv cap heap as e log) (hqueue : .redelete ∈ e.inputQueue) :
    ∃ e', (e.dequeue .redelete).redeleteHandler = .ok e' ∧ Inv cap heap as e' log := by
  obtain ⟨n, hstage, hnew, hmem, heq⟩ := h.redelete_spec hqueue
  refine ⟨_, heq, ?_⟩
  have hbits : e.BitsOnly (Function.update e.segs n (e.merger.mergingDeletion.foldl
      (fun seg pk => (seg.removeDocument e.docs pk).2) (e.segs n))) := by
    intro p
    by_cases hp : p = n
    · subst hp
      refine ⟨_, by simpa using bitsAdded_foldl_removeDocument e.docs (e.segs p) _, ?_⟩
      rintro i ⟨pk, -, x, hx, rfl⟩
      exact ⟨hmem, x, mem_docPtrs_of_mem_entries hx, rfl⟩
    · exact ⟨fun _ => False, by simpa [hp] using bitsAdded_refl (e.segs p), fun i hi => hi.elim⟩
  have hinv := h.bitsOnly hbits e.merger.mergingDeletion
  exact hinv.pointers (by simp [hstage]) h.notFreed h.freedLt (.finished rfl rfl)

lemma Inv.mergeProcReset (h : Inv cap heap as e log) : Inv cap heap as e.mergeProcReset log := by
  unfold Engine.mergeProcReset
  split_ifs with hstage
  · exact h
  have hstage : e.merger.mergeStage = 6 := by simpa using hstage
  have hqueue : e.inputQueue = [] := by
    cases h.phase with
    | finished _ hqueue => exact hqueue
    | _ => omega
  exact h.pointers (by omega) h.notFreed h.freedLt (.idle rfl hqueue)

/-! ## Every run -/

/-- **One step keeps the invariant.** -/
lemma Inv.exec (h : Inv cap heap as e log) (hcap : 1 ≤ cap) {a : Action}
    (hen : a.Enabled cap as e) (hexec : Engine.exec cap a e = .ok e') :
    ∃ log', Inv cap heap (a :: as) e' log' := by
  have hmono : ∀ {e₁ : ListEngine} {log₁}, Inv cap heap as e₁ log₁ →
      Inv cap heap (a :: as) e₁ log₁ := fun h => h.mono (List.subset_cons_self _ _)
  cases a with
  | add d =>
      obtain rfl := Except.ok.inj hexec
      exact h.addDocumentHandler hcap hen
  | remove pk =>
      obtain rfl := Except.ok.inj hexec
      exact ⟨log, hmono (h.removeDocumentHandler pk)⟩
  | replaceSegs =>
      obtain ⟨m1, m2, n, -, hsrc, hnew, heq⟩ := h.replaceSegs_spec hen
      obtain rfl := Except.ok.inj (heq.symm.trans hexec)
      exact ⟨log, hmono (h.replaced hsrc hnew)⟩
  | redelete =>
      obtain ⟨e₁, heq, hinv⟩ := h.redelete hen
      obtain rfl := Except.ok.inj (heq.symm.trans hexec)
      exact ⟨log, hmono hinv⟩
  | procCheck =>
      obtain ⟨e₁, heq, hinv⟩ := h.mergeProcCheck
      obtain rfl := Except.ok.inj (heq.symm.trans hexec)
      exact ⟨log, hmono hinv⟩
  | procMigrate =>
      obtain ⟨e₁, log₁, heq, hinv⟩ := h.mergeProcMigrate
      obtain rfl := Except.ok.inj (heq.symm.trans hexec)
      exact ⟨log₁, hmono hinv⟩
  | procRelease => exact ⟨log, hmono (h.mergeProcRelease hexec)⟩
  | procRedelete =>
      obtain rfl := Except.ok.inj hexec
      exact ⟨log, hmono h.mergeProcRedelete⟩
  | procReset =>
      obtain rfl := Except.ok.inj hexec
      exact ⟨log, hmono h.mergeProcReset⟩
  | lookupEnter seg =>
      obtain rfl := Except.ok.inj hexec
      exact ⟨log, hmono (h.lookupEnter seg)⟩
  | lookupLeave seg =>
      obtain rfl := Except.ok.inj hexec
      exact ⟨log, hmono (h.lookupLeave seg)⟩

/-- **The invariant holds in every reachable state.** -/
theorem inv_of_run (hcap : 1 ≤ cap) {l : List (ListEngine × Action)}
    (hrun : (engineSystem (List SegPtr) cap heap).Run l e) :
    ∃ log, Inv cap heap (actions l) e log :=
  System.Run.invariant (M := engineSystem (List SegPtr) cap heap)
    (fun l e => ∃ log, Inv cap heap (actions l) e log) ⟨_, inv_new cap heap⟩
    (fun _ ⟨_, hinv⟩ hen hexec => hinv.exec hcap hen hexec) hrun

end Engine

end TsEngine
