import TsEngine.Engine.LookupSafety
import TsEngine.Store.LookupLimits

/-!
# A call of `ts_engine_lookup`

What one call returns that has the engine to itself: `Lookup.steps` is the call, step by step, from
any state of the engine that `Engine.Serves` its segments, which every reachable one does.

`lookup_composes` says that the response holds the first `limit` documents of what the segments
return one after the other, in the order of the list, and that the engine is as it was.  That the
limit handed to a segment never wraps is `Lookup.Within`, which every step keeps.
-/

namespace TsEngine

open Framework

/-- The next `n` steps of a call that no other thread interrupts. -/
def Lookup.steps : ℕ → PtrEngine → Lookup → Except Fault (PtrEngine × Lookup)
  | 0, e, lk => .ok (e, lk)
  | n + 1, e, lk => do
      let (e, lk) ← lk.step e
      steps n e lk

/-! ## The limit -/

namespace Lookup

variable {e e' e'' : PtrEngine} {lk lk' lk'' : Lookup} {p : SegPtr} {limit m n : ℕ}

/-- A call under a limit: what it hands to a segment is what is left of it. -/
structure Within (limit : ℕ) (lk : Lookup) : Prop where
  limit_eq : lk.limit = limit
  docs : lk.response.docs.length ≤ limit
  request : lk.request.limit ≤ limit

variable (lk) in
/-- The segment is searched for as many documents as the response has room for. -/
lemma search_eq {full : List DocPtr}
    (hfull : (e.segs p).Unbounded e.docs lk.request.tokens full) (hlimit : lk.limit < 2 ^ 32)
    (hdocs : lk.response.docs.length ≤ lk.limit) : ∃ lk', lk.search e p = .ok lk' ∧
      lk'.request = ⟨lk.request.tokens, lk.limit - lk.response.docs.length⟩ ∧
      lk'.limit = lk.limit ∧ lk'.pc = lk.pc ∧
      lk'.response.docs = lk.response.docs ++
        (full.take (lk.limit - lk.response.docs.length)).map fun x => (e.docs x).clone := by
  obtain ⟨code, ctn, total, hok, hlist⟩ :=
    hfull.lookup (lk.limit - lk.response.docs.length) .init lk.total
  rw [DocidContainer.toList_init, List.nil_append] at hlist
  unfold search
  rw [subU32_eq hlimit hdocs]
  dsimp only
  rw [hok]
  exact ⟨_, rfl, rfl, rfl, rfl, by rw [hlist]⟩

/-- **No step exceeds the limit**, whatever the engine looks like. -/
lemma Within.step (h : lk.Within limit) (hlimit : limit < 2 ^ 32)
    (hstep : lk.step e = .ok (e', lk')) : lk'.Within limit := by
  obtain ⟨hlk, hdocs, hrequest⟩ := h
  subst hlk
  unfold Lookup.step at hstep
  split_ifs at hstep
  cases hpc : lk.pc with
  | start =>
      simp only [hpc, Except.ok.injEq, Prod.mk.injEq] at hstep
      obtain ⟨-, rfl⟩ := hstep
      unfold Lookup.fetch
      split
      · exact ⟨rfl, hdocs, hrequest⟩
      · exact ⟨rfl, hdocs, hrequest⟩
  | fetched p =>
      simp only [hpc, Except.ok.injEq, Prod.mk.injEq] at hstep
      obtain ⟨-, rfl⟩ := hstep
      exact ⟨rfl, hdocs, hrequest⟩
  | counted p =>
      simp only [hpc] at hstep
      obtain ⟨lk₁, hsearch, heq⟩ := map_eq_ok.mp hstep
      obtain ⟨-, rfl⟩ := Prod.mk.inj heq
      obtain ⟨full, hfull⟩ := Segment.exists_unbounded e.docs (e.segs p) lk.request.tokens
      obtain ⟨lk₂, hok, hreq, hlim, -, hres⟩ := search_eq lk hfull hlimit hdocs
      obtain rfl := Except.ok.inj (hok.symm.trans hsearch)
      refine ⟨hlim, ?_, ?_⟩
      · show lk₂.response.docs.length ≤ _
        rw [hres, List.length_append, List.length_map, List.length_take]
        omega
      · show lk₂.request.limit ≤ _
        rw [hreq]
        exact Nat.sub_le _ _
  | searched p =>
      simp only [hpc, Except.ok.injEq, Prod.mk.injEq] at hstep
      obtain ⟨-, rfl⟩ := hstep
      unfold Lookup.leave
      split_ifs
      · exact ⟨rfl, hdocs, hrequest⟩
      · exact ⟨rfl, hdocs, hrequest⟩
  | left p =>
      simp only [hpc, Except.ok.injEq, Prod.mk.injEq] at hstep
      obtain ⟨-, rfl⟩ := hstep
      unfold Lookup.fetch
      split
      · exact ⟨rfl, hdocs, hrequest⟩
      · exact ⟨rfl, hdocs, hrequest⟩
  | returned code =>
      simp only [hpc, Except.ok.injEq, Prod.mk.injEq] at hstep
      obtain ⟨-, rfl⟩ := hstep
      exact ⟨rfl, hdocs, hrequest⟩

lemma Within.steps (h : lk.Within limit) (hlimit : limit < 2 ^ 32)
    (hsteps : steps n e lk = .ok (e', lk')) : lk'.Within limit := by
  induction n generalizing e lk with
  | zero =>
      obtain ⟨-, rfl⟩ := Prod.mk.inj (Except.ok.inj hsteps)
      exact h
  | succ n ih =>
      obtain ⟨⟨e₁, lk₁⟩, hstep, hrest⟩ := bind_eq_ok.mp hsteps
      exact ih (h.step hlimit hstep) hrest

/-! ## Steps in sequence -/

lemma steps_add (h : steps m e lk = .ok (e', lk')) (n : ℕ) :
    steps (m + n) e lk = steps n e' lk' := by
  induction m generalizing e lk with
  | zero =>
      obtain ⟨rfl, rfl⟩ := Prod.mk.inj (Except.ok.inj h)
      rw [Nat.zero_add]
  | succ m ih =>
      obtain ⟨⟨e₁, lk₁⟩, hstep, hrest⟩ := bind_eq_ok.mp h
      rw [Nat.succ_add_eq_add_succ, Nat.add_succ]
      simp only [steps, hstep, bind, Except.bind]
      exact ih hrest

/-- A call that has returned stays as it is. -/
lemma steps_returned {code : ℤ} (hpc : lk.pc = .returned code) (n : ℕ) :
    steps n e lk = .ok (e, lk) := by
  have hstep : lk.step e = .ok (e, lk) := by
    have htouch : ¬lk.TouchesReleased e := by simp [TouchesReleased, segment, reads, hpc]
    unfold Lookup.step
    rw [if_neg htouch, hpc]
  induction n with
  | zero => rfl
  | succ n ih => simp only [steps, hstep, bind, Except.bind, ih]

end Lookup

/-! ## Engines that serve lookups -/

namespace Engine

/-- The `next` pointers lead through `segs`, none of which has been released, nor any document that
a lookup can meet there; a counter is a `uint32_t`. -/
structure Serves (e : PtrEngine) (segs : List SegPtr) : Prop where
  chain : e.segments.IsChain segs
  kept : ∀ p ∈ segs, p ∉ e.freedSegs
  docs : ∀ p ∈ segs, ∀ tokens, ∀ x ∈ (e.segs p).walked tokens, x ∉ e.freedDocs
  counter : ∀ p ∈ segs, e.processes p < 2 ^ 32

lemma processes_lt_of_run {L : Type} [SegmentList L] {cap : ℕ} {heap : DocHeap}
    {l : List (Engine L × Action)} {e : Engine L} (hrun : (engineSystem L cap heap).Run l e)
    (p : SegPtr) : e.processes p < 2 ^ 32 := by
  refine System.Run.invariant (fun _ e => ∀ p, e.processes p < 2 ^ 32) (fun _ => by
    simp [engineSystem, Engine.new, processes, Segment.new]) ?_ hrun p
  intro _ e a e' _ ih _ hexec p
  have hupdate : ∀ q n, n < 2 ^ 32 → Function.update e.processes q n p < 2 ^ 32 := by
    intro q n hn
    rw [Function.update_apply]
    split_ifs
    · exact hn
    · exact ih p
  cases ha : a.isLookup with
  | false =>
      rcases processes_exec_cases ha hexec with hcount | hcount
      · exact hcount ▸ ih p
      · exact hcount ▸ hupdate e.nextSeg 0 (by norm_num)
  | true =>
      cases a with
      | lookupEnter q =>
          obtain rfl := Except.ok.inj hexec
          rw [show (e.lookupEnter q).processes = _ from
            processes_lookup e q fun n => (n + 1) % 2 ^ 32]
          exact hupdate q _ (Nat.mod_lt _ (by norm_num))
      | lookupLeave q =>
          obtain rfl := Except.ok.inj hexec
          rw [show (e.lookupLeave q).processes = _ from
            processes_lookup e q fun n => (n + (2 ^ 32 - 1)) % 2 ^ 32]
          exact hupdate q _ (Nat.mod_lt _ (by norm_num))
      | _ => cases ha

/-- **Every reachable engine serves its segments.** -/
lemma serves_of_run {cap : ℕ} {heap : DocHeap} {l : List (PtrEngine × Action)} {pe : PtrEngine}
    (hcap : 1 ≤ cap) (hrun : (engineSystem (Utlist SegPtr) cap heap).Run l pe) :
    ∃ segs, pe.Serves segs := by
  obtain ⟨l', e, u, hrun', -, rfl, hu⟩ := list_run_of_run hcap hrun
  obtain ⟨log, hinv⟩ := inv_of_run hcap hrun'
  have hledger := ledger_of_run hcap hrun'
  exact ⟨e.segments, hu.represents.chain, hinv.notFreed, fun p hp tokens x hx hfreed =>
    hledger.unlisted x hfreed p hp (hinv.mem_docPtrs_of_walked hp hx),
    fun p _ => processes_lt_of_run hrun p⟩

/-- Counting in and out again. -/
lemma lookupLeave_lookupEnter {L : Type} (e : Engine L) {p : SegPtr} (hp : e.processes p < 2 ^ 32) :
    (e.lookupEnter p).lookupLeave p = e := by
  have hcount : (((e.segs p).processes + 1) % 2 ^ 32 + (2 ^ 32 - 1)) % 2 ^ 32 =
      (e.segs p).processes := by
    have hp : (e.segs p).processes < 2 ^ 32 := hp
    omega
  unfold lookupEnter lookupLeave modifySeg
  dsimp only
  rw [Function.update_self, Function.update_idem, hcount, Function.update_eq_self]

end Engine

/-! ## One segment -/

section

variable {e : PtrEngine} {segs : List SegPtr} {lk : Lookup} {p : SegPtr} {full : List DocPtr}

lemma Segment.collectIds_processes (seg : Segment) (n : ℕ) (terms : List CString) :
    ({ seg with processes := n } : Segment).collectIds terms = seg.collectIds terms := by
  induction terms with
  | nil => rfl
  | cons term terms ih => simp only [Segment.collectIds, ih]

/-- A lookup does not look at the counter. -/
lemma Segment.lookup_processes (docs : DocHeap) (seg : Segment) (n : ℕ) :
    ({ seg with processes := n } : Segment).lookup docs = seg.lookup docs := by
  funext terms limit ctn total
  unfold Segment.lookup
  simp only [Segment.collectIds_processes]
  rfl

variable (lk) in
/-- **A visit**: count in, search, count out. -/
lemma Lookup.steps_visit (h : e.Serves segs) (hp : p ∈ segs) (hpc : lk.pc = .fetched p)
    (hfull : (e.segs p).Unbounded e.docs lk.request.tokens full) (hlimit : lk.limit < 2 ^ 32)
    (hdocs : lk.response.docs.length ≤ lk.limit) : ∃ lk', Lookup.steps 3 e lk = .ok (e, lk') ∧
      lk'.request.tokens = lk.request.tokens ∧ lk'.limit = lk.limit ∧
      lk'.response.docs = lk.response.docs ++
        (full.take (lk.limit - lk.response.docs.length)).map (fun x => (e.docs x).clone) ∧
      lk'.pc = if lk'.limit ≤ lk'.response.docs.length then .returned errorCodeSuccess
        else .left p := by
  set e₁ := e.lookupEnter p with he₁
  have hwalked : ∀ tokens, (e₁.segs p).walked tokens = (e.segs p).walked tokens :=
    Engine.walked_lookup e p p fun n => (n + 1) % 2 ^ 32
  have hseg : e₁.segs p = { e.segs p with processes := ((e.segs p).processes + 1) % 2 ^ 32 } :=
    Function.update_self ..
  have hfull₁ : (e₁.segs p).Unbounded e₁.docs lk.request.tokens full := by
    unfold Segment.Unbounded
    rw [hseg, Segment.lookup_processes]
    exact hfull
  have hstep₁ : lk.step e = .ok (e₁, { lk with pc := .counted p }) := by
    have htouch : ¬lk.TouchesReleased e := by
      simp [TouchesReleased, segment, reads, hpc, h.kept p hp]
    unfold Lookup.step
    rw [if_neg htouch, hpc]
  obtain ⟨lk₂, hsearch, hrequest, hlim, -, hres⟩ :=
    search_eq { lk with pc := .counted p } hfull₁ hlimit hdocs
  have hstep₂ : ({ lk with pc := .counted p } : Lookup).step e₁ =
      .ok (e₁, { lk₂ with pc := .searched p }) := by
    have htouch : ¬({ lk with pc := .counted p } : Lookup).TouchesReleased e₁ := by
      rintro (⟨q, hq, hfreed⟩ | ⟨x, hx, hfreed⟩)
      · obtain rfl := Option.some.inj hq
        exact h.kept p hp hfreed
      · have hx : x ∈ (e₁.segs p).walked lk.request.tokens := hx
        exact h.docs p hp lk.request.tokens x (hwalked lk.request.tokens ▸ hx) hfreed
    unfold Lookup.step
    rw [if_neg htouch]
    simp only [hsearch, Except.map]
  have hstep₃ : ({ lk₂ with pc := .searched p } : Lookup).step e₁ =
      .ok (e, ({ lk₂ with pc := .searched p } : Lookup).leave p) := by
    have htouch : ¬({ lk₂ with pc := .searched p } : Lookup).TouchesReleased e₁ := by
      have hkept : p ∉ e₁.freedSegs := h.kept p hp
      simp [TouchesReleased, segment, reads, hkept]
    unfold Lookup.step
    rw [if_neg htouch]
    simp only [he₁, Engine.lookupLeave_lookupEnter e (h.counter p hp)]
  refine ⟨({ lk₂ with pc := .searched p } : Lookup).leave p, ?_, ?_⟩
  · simp only [Lookup.steps, hstep₁, hstep₂, hstep₃, bind, Except.bind]
  · have htokens : lk₂.request.tokens = lk.request.tokens := by rw [hrequest]
    unfold Lookup.leave
    split_ifs with hleave
    · exact ⟨htokens, hlim, hres, rfl⟩
    · exact ⟨htokens, hlim, hres, rfl⟩

variable (lk) in
/-- **The rest of the walk**: from each segment as much as there is room for. -/
lemma Lookup.steps_walk {full : SegPtr → List DocPtr} (h : e.Serves segs) {start : Option SegPtr}
    {rest : List SegPtr} (hchain : Utlist.NextChain e.segments.next none start rest)
    (hsub : rest ⊆ segs)
    (hfull : ∀ p ∈ segs, (e.segs p).Unbounded e.docs lk.request.tokens (full p))
    (hlimit : lk.limit < 2 ^ 32) (hdocs : lk.response.docs.length ≤ lk.limit) :
    ∃ n lk', Lookup.steps n e (lk.fetch start) = .ok (e, lk') ∧
      lk'.pc = .returned errorCodeSuccess ∧
      lk'.response.docs = lk.response.docs ++
        ((rest.flatMap full).take (lk.limit - lk.response.docs.length)).map
          fun x => (e.docs x).clone := by
  induction rest generalizing start lk with
  | nil =>
      obtain rfl : start = none := hchain
      exact ⟨0, lk.fetch none, rfl, rfl, by simp [fetch]⟩
  | cons p rest ih =>
      obtain ⟨rfl, hrest⟩ := hchain
      have hp : p ∈ segs := hsub List.mem_cons_self
      obtain ⟨lk₁, hvisit, htokens, hlim, hres, hpc⟩ :=
        steps_visit (lk.fetch (some p)) h hp rfl (hfull p hp) hlimit hdocs
      have htokens : lk₁.request.tokens = lk.request.tokens := htokens
      have hlim : lk₁.limit = lk.limit := hlim
      have hres : lk₁.response.docs = lk.response.docs ++
        ((full p).take (lk.limit - lk.response.docs.length)).map fun x => (e.docs x).clone := hres
      have hlen : lk₁.response.docs.length =
          lk.response.docs.length + min (lk.limit - lk.response.docs.length) (full p).length := by
        rw [hres, List.length_append, List.length_map, List.length_take]
      rw [List.flatMap_cons, List.take_append, List.map_append, ← List.append_assoc, ← hres]
      split_ifs at hpc with hleave
      · have hnone : lk.limit - lk.response.docs.length - (full p).length = 0 := by omega
        exact ⟨3, lk₁, hvisit, hpc, by simp [hnone]⟩
      · have hstep : lk₁.step e = .ok (e, lk₁.fetch (e.segments.next p)) := by
          have htouch : ¬lk₁.TouchesReleased e := by
            simp [TouchesReleased, segment, reads, hpc, h.kept p hp]
          unfold Lookup.step
          rw [if_neg htouch, hpc]
        obtain ⟨n, lk', hsteps, hpc', hres'⟩ := ih lk₁ hrest
          (fun q hq => hsub (List.mem_cons_of_mem p hq)) (htokens ▸ hfull) (hlim ▸ hlimit)
          (by omega)
        refine ⟨3 + (n + 1), lk', ?_, hpc', ?_⟩
        · rw [steps_add hvisit]
          simp only [steps, hstep, bind, Except.bind]
          exact hsteps
        · rw [hres']
          congr 3
          omega

end

/-! ## The call -/

/-- **Lookups compose the segments under the limit.**  From any engine that serves the segments
`segs`, as every reachable one does (`Engine.serves_of_run`), a call with a limit in range returns
success, its response holds clones of the first `limit` documents that the segments return without
a limit, in the order of the list, and the engine is as it was.  In every state on the way, the
response and the limit handed to a segment are within the limit.  A call with a larger limit
returns an error and does nothing. -/
theorem lookup_composes {e : PtrEngine} {segs : List SegPtr} (h : e.Serves segs)
    (request : LookupRequest) (total : ℕ) :
    (request.limit ≤ lookupMaxSize → ∃ full : SegPtr → List DocPtr,
      (∀ p ∈ segs, (e.segs p).Unbounded e.docs request.tokens (full p)) ∧
      (∃ n lk, (∀ k, Lookup.steps (n + k) e (.call request total) = .ok (e, lk)) ∧
        lk.pc = .returned errorCodeSuccess ∧
        lk.response.docs =
          ((segs.flatMap full).take request.limit).map fun x => (e.docs x).clone) ∧
      ∀ k e' lk, Lookup.steps k e (.call request total) = .ok (e', lk) →
        lk.response.docs.length ≤ request.limit ∧ lk.request.limit ≤ request.limit) ∧
    (lookupMaxSize < request.limit → ∃ lk,
      (∀ k, Lookup.steps k e (.call request total) = .ok (e, lk)) ∧
      lk.pc = .returned errorCodeInvalidArgument ∧ lk.request = request ∧ lk.response = .init) := by
  constructor
  · intro hmax
    have hlimit : request.limit < 2 ^ 32 := hmax.trans_lt (by decide)
    choose full hfull using fun p => Segment.exists_unbounded e.docs (e.segs p) request.tokens
    refine ⟨full, fun p _ => hfull p, ?_, fun k e' lk hsteps => ?_⟩
    · have hpc : (Lookup.call request total).pc = .start := if_neg (by omega)
      have hstep : (Lookup.call request total).step e =
          .ok (e, (Lookup.call request total).fetch e.segments.head) := by
        have htouch : ¬(Lookup.call request total).TouchesReleased e := by
          simp [Lookup.TouchesReleased, Lookup.segment, Lookup.reads, hpc]
        unfold Lookup.step
        rw [if_neg htouch, hpc]
      obtain ⟨n, lk, hsteps, hret, hres⟩ := Lookup.steps_walk (.call request total) h h.chain
        (fun _ hp => hp) (fun p _ => hfull p) hlimit (Nat.zero_le _)
      refine ⟨n + 1, lk, fun k => ?_, hret, by simpa [Lookup.call, LookupResponse.init] using hres⟩
      have hcall : Lookup.steps (n + 1) e (.call request total) = .ok (e, lk) := by
        simp only [Lookup.steps, hstep, bind, Except.bind]
        exact hsteps
      rw [Lookup.steps_add hcall, Lookup.steps_returned hret]
    · have hcall : (Lookup.call request total).Within request.limit :=
        ⟨rfl, Nat.zero_le _, le_rfl⟩
      have hwithin := hcall.steps hlimit hsteps
      exact ⟨hwithin.docs, hwithin.request⟩
  · intro hmax
    have hpc : (Lookup.call request total).pc = .returned errorCodeInvalidArgument := if_pos hmax
    exact ⟨.call request total, Lookup.steps_returned hpc, hpc, rfl, rfl⟩

/-- `lookup_composes` where the limit is reached within the second of three segments: the documents
`5`, which is alone in the first segment, and `3`, which shares the second with `4`. -/
theorem lookup_composes_sample : ∃ l e, (engineSystem (Utlist SegPtr) 2 Engine.sampleHeap).Run l e ∧
    e.listed = [2, 1, 0] ∧ ∃ segs, e.Serves segs ∧ ∃ n lk,
      (∀ k, Lookup.steps (n + k) e (.call ⟨[[97]], 2⟩ 0) = .ok (e, lk)) ∧
      lk.pc = .returned errorCodeSuccess ∧ lk.response.docs.map (·.pk) = [5, 3] := by
  obtain ⟨l, e, hrun, htest⟩ := System.exists_run_of_execAll
    (M := engineSystem (Utlist SegPtr) 2 Engine.sampleHeap)
    (fun _ e => decide (e.listed = [2, 1, 0]) &&
      (Lookup.steps 8 e (.call ⟨[[97]], 2⟩ 0)).toOption.any fun (q : PtrEngine × Lookup) =>
        decide (q.2.pc = .returned errorCodeSuccess ∧ q.2.response.docs.map (·.pk) = [5, 3]))
    [.add 1, .add 2, .add 3, .add 4, .add 5] (by decide +kernel)
  obtain ⟨hlisted, hdocs⟩ := (Bool.and_eq_true _ _ ▸ htest :)
  obtain ⟨segs, hserves⟩ := Engine.serves_of_run (by decide) hrun
  obtain ⟨full, -, ⟨n, lk, hsteps, hpc, -⟩, -⟩ :=
    (lookup_composes hserves ⟨[[97]], 2⟩ 0).1 (by decide)
  refine ⟨l, e, hrun, of_decide_eq_true hlisted, segs, hserves, n, lk, hsteps, hpc, ?_⟩
  -- the call returns within eight steps, and then stays as it is
  cases height : Lookup.steps 8 e (.call ⟨[[97]], 2⟩ 0) with
  | error _ => simp [height, Except.toOption] at hdocs
  | ok q =>
      obtain ⟨e', lk'⟩ := q
      simp only [height, Except.toOption, Option.any_some, decide_eq_true_eq] at hdocs
      have hlast := hsteps 8
      rw [Nat.add_comm, Lookup.steps_add height, Lookup.steps_returned hdocs.1] at hlast
      obtain ⟨rfl, rfl⟩ := Prod.mk.inj (Except.ok.inj hlast)
      exact hdocs.2

end TsEngine
