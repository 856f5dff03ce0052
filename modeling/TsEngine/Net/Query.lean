import TsEngine.Engine.LookupCalls
import TsEngine.Engine.MergedStore
import TsEngine.Net.Adapter

/-!
# A lookup, from the request to the response

`ts_server_request_process_lookup` between the two messages: `ts_adapter_request` takes the terms
over, each once, the engine looks them up segment by segment, and `ts_adapter_response_lookup_new`
makes messages of the clones it has collected.

`query_answered` follows a request through a call that no other thread interrupts, in any engine
that a run of the tasks and of the merger reaches.  A lookup of no term, or of several, returns what
the store holds under the conditions of `Engine.ClearOfMerge`: the last document of each key, if it
has the terms, and as it was handed over.  A lookup of one term may return documents that have been
removed, for `ts_segment_lookup` does not look at the deletions then.
-/

namespace TsEngine

open Framework

namespace Proto

/-- `RequestLookup` of `protocol.proto`. -/
structure RequestLookup where
  terms : List CString
  limit : ℕ

/-- `ResponseLookup` of `protocol.proto`. -/
structure ResponseLookup where
  documents : List Document
  code : ℤ
  msg : String
  total : ℕ
  deriving DecidableEq

/-- `RESPONSE_LOOKUP__INIT`. -/
def ResponseLookup.init : ResponseLookup := ⟨[], 0, "", 0⟩

/-- The terms of a request as the strings they are, each once. -/
def RequestLookup.strings (m : RequestLookup) : List CString := (m.terms.map strdup).dedup

end Proto

/-! ## The request and the response -/

/-- `strcmp(s, t) == 0`. -/
def strcmpEq (s t : CString) : Bool := strdup s == strdup t

namespace LookupRequest

/-- `ts_lookup_request_new`. -/
def new : LookupRequest := ⟨[], 0⟩

/-- `ts_lookup_request_append`, and its return value. -/
def append (request : LookupRequest) (token : CString) : LookupRequest × ℤ :=
  if request.tokens.any (strcmpEq · token) then (request, -1)
  else ({ request with tokens := request.tokens ++ [strdup token] }, 0)

end LookupRequest

/-- `ts_adapter_request`. -/
def adapterRequest (lookup : Proto.RequestLookup) : LookupRequest :=
  { lookup.terms.foldl (fun request term => (request.append term).1) LookupRequest.new with
    limit := lookup.limit }

/-- `ts_adapter_response_lookup_new` up to the packing. -/
def adapterResponseLookup (response : LookupResponse) (code : ℤ) : Proto.ResponseLookup :=
  { Proto.ResponseLookup.init with
    code := if code < 0 then code else errorCodeSuccess
    total := response.total
    documents := response.docs.map adapterDocument2proto }

/-- `ts_server_request_process_lookup` from the unpacked request to the response to be packed, as
far as `n` steps of the call lead. -/
def requestProcessLookup (n : ℕ) (e : PtrEngine) (request : Proto.RequestLookup) (total : ℕ) :
    Except Fault (PtrEngine × Option Proto.ResponseLookup) := do
  let (e, lk) ← Lookup.steps n e (.call (adapterRequest request) total)
  match lk.pc with
  | .returned code => return (e, some (adapterResponseLookup lk.response code))
  | .start | .fetched _ | .counted _ | .searched _ | .left _ => return (e, none)

/-! ## The terms -/

/-- A copy is equal to what it is a copy of. -/
lemma strdup_strdup (s : CString) : strdup (strdup s) = strdup s := strdup_eq (nulFree_strdup s)

/-- The tokens after some more terms. -/
lemma tokens_foldl_append (terms : List CString) (request : LookupRequest)
    (hnodup : request.tokens.Nodup) (hcopies : ∀ t ∈ request.tokens, strdup t = t) :
    (terms.foldl (fun request term => (request.append term).1) request).tokens.Nodup ∧
    ∀ t, t ∈ (terms.foldl (fun request term => (request.append term).1) request).tokens ↔
      t ∈ request.tokens ∨ ∃ term ∈ terms, strdup term = t := by
  induction terms generalizing request with
  | nil => simpa using hnodup
  | cons term terms ih =>
      have hany : request.tokens.any (strcmpEq · term) = true ↔ strdup term ∈ request.tokens := by
        simp only [List.any_eq_true, strcmpEq, beq_iff_eq]
        constructor
        · rintro ⟨t, ht, heq⟩
          exact heq ▸ (hcopies t ht).symm ▸ ht
        · exact fun hmem => ⟨_, hmem, strdup_strdup term⟩
      simp only [List.foldl_cons, LookupRequest.append]
      split_ifs with hin
      · obtain ⟨hres, hmem⟩ := ih request hnodup hcopies
        refine ⟨hres, fun t => (hmem t).trans ⟨?_, ?_⟩⟩
        · exact fun h => h.imp_right fun ⟨u, hu, heq⟩ => ⟨u, List.mem_cons_of_mem _ hu, heq⟩
        · rintro (h | ⟨u, hu, rfl⟩)
          · exact .inl h
          · rcases List.mem_cons.mp hu with rfl | hu
            · exact .inl (hany.mp hin)
            · exact .inr ⟨u, hu, rfl⟩
      · have hfresh : strdup term ∉ request.tokens := fun h => hin (hany.mpr h)
        obtain ⟨hres, hmem⟩ := ih { request with tokens := request.tokens ++ [strdup term] }
          (List.nodup_append.mpr ⟨hnodup, List.nodup_singleton _, fun x hx y hy hxy =>
            hfresh (List.mem_singleton.mp hy ▸ hxy ▸ hx)⟩)
          (fun t ht => (List.mem_append.mp ht).elim (hcopies t) fun ht =>
            List.mem_singleton.mp ht ▸ strdup_strdup term)
        refine ⟨hres, fun t => (hmem t).trans ?_⟩
        simp only [List.mem_append, List.mem_cons, List.not_mem_nil, false_or, exists_eq_or_imp,
          or_assoc, eq_comm (a := t) (b := strdup term)]

/-- **The tokens of a request** are its terms, each once. -/
lemma tokens_adapterRequest (m : Proto.RequestLookup) :
    (adapterRequest m).tokens.Nodup ∧
      ∀ t, t ∈ (adapterRequest m).tokens ↔ ∃ term ∈ m.terms, strdup term = t := by
  obtain ⟨hnodup, hmem⟩ :=
    tokens_foldl_append m.terms .new List.nodup_nil (by simp [LookupRequest.new])
  exact ⟨hnodup, fun t => (hmem t).trans (by simp [LookupRequest.new])⟩

lemma length_tokens (m : Proto.RequestLookup) :
    (adapterRequest m).tokens.length = m.strings.length := by
  obtain ⟨hnodup, hmem⟩ := tokens_adapterRequest m
  refine ((List.perm_ext_iff_of_nodup hnodup (List.nodup_dedup _)).mpr fun t => ?_).length_eq
  rw [hmem, List.mem_dedup, List.mem_map]

/-! ## A segment -/

namespace Segment

variable {docs : DocHeap} {seg : Segment} {log full : List DocPtr} {terms : List CString}

lemma Sound.length_lt (h : seg.Sound docs log) : log.length < 2 ^ 32 := by
  have hstart := h.start_lt
  rw [h.start, h.numTotalDocs] at hstart
  omega

/-- What a lookup returns without a limit is determined. -/
lemma Unbounded.eq_toList (h : seg.Unbounded docs terms full) {ctn : DocidContainer DocPtr}
    {limit total total' : ℕ} (hpos : 1 ≤ limit) (hlimit : full.length ≤ limit)
    (hlookup : seg.lookup docs terms limit .init total = some (0, ctn, total')) :
    ctn.toList = full := by
  obtain ⟨ctn', total'', hlookup', hlist⟩ := h limit hpos hlimit .init total
  rw [hlookup, Option.some.injEq] at hlookup'
  obtain ⟨-, rfl, -⟩ := hlookup'
  simpa using hlist

/-- **Without a limit, no term or several return the matching documents.** -/
lemma Unbounded.perm (hfull : seg.Unbounded docs terms full) (h : seg.Sound docs log)
    (hterms : terms.length ≠ 1) : full.Perm (seg.matching docs log terms) := by
  set limit := max 1 (max full.length (seg.matching docs log terms).length) with hlimit
  have hpos : 1 ≤ limit := by omega
  obtain ⟨ctn, total', hlookup, hexact⟩ :=
    lookup_exact h.toRepresents h.toIds h.length_lt hterms hpos 0
  rw [hfull.eq_toList (by omega) (by omega) hlookup] at hexact
  refine (List.subperm_of_subset hexact.nodup hexact.subset).perm_of_length_le ?_
  rw [hexact.length]
  omega

/-- **Whatever the terms**, the documents returned are stored and have them. -/
lemma Unbounded.hasTerm (hfull : seg.Unbounded docs terms full) (h : seg.Sound docs log)
    {x : DocPtr} (hx : x ∈ full) : x ∈ log ∧ ∀ term ∈ terms, (docs x).hasTerm term = true := by
  by_cases hterms : terms.length = 1
  · obtain ⟨term, rfl⟩ := List.length_eq_one_iff.mp hterms
    set limit := max 1 full.length with hlimit
    have hpos : 1 ≤ limit := by omega
    obtain ⟨ctn, total', hlookup, hlist, -⟩ := lookup_singleton h.toRepresents h.length_lt term
      hpos .init 0
    rw [hfull.eq_toList (by omega) (by omega) hlookup, DocidContainer.toList_init,
      List.nil_append] at hlist
    rw [hlist] at hx
    split_ifs at hx
    · simp at hx
    · simpa using List.mem_of_mem_take hx
  · obtain ⟨hlog, -, hall⟩ := mem_matching.mp ((hfull.perm h hterms).mem_iff.mp hx)
    exact ⟨hlog, hall⟩

end Segment

/-! ## The messages -/

/-- The message of a clone does not depend on the id. -/
lemma adapterDocument2proto_clone_congr {d d' : Document} (hpk : d'.pk = d.pk)
    (hfields : d'.fields = d.fields) :
    adapterDocument2proto d'.clone = adapterDocument2proto d.clone := by
  have hclone : ∀ d : Document, d.clone.pk = d.pk ∧ d.clone.fields = (d.fields.map fun f =>
      if f.isIndexable then (Field.new f.name f.value).setIndexable
        else .new f.name f.value).foldl (Keyed.replace Field.name) [] := fun d =>
    (Document.foldl_fieldAdd (fun f : Field => if f.isIndexable then
      (Field.new f.name f.value).setIndexable else .new f.name f.value) d.fields
      { Document.new with docId := d.docId, pk := d.pk }).2
  rw [adapterDocument2proto, adapterDocument2proto, (hclone d').1, (hclone d).1, (hclone d').2,
    (hclone d).2, hpk, hfields]

/-! ## The engine -/

namespace Engine

variable {cap : ℕ} {heap : DocHeap} {l : List (PtrEngine × Action)} {pe : PtrEngine}

/-- A run on pointers and the one on the sequence, step by step. -/
lemma list_history_of_run (hcap : 1 ≤ cap)
    (hrun : (engineSystem (Utlist SegPtr) cap heap).Run l pe) :
    ∃ (l' : List (ListEngine × Action)) (e : ListEngine) (u : Utlist SegPtr),
      (engineSystem (List SegPtr) cap heap).Run l' e ∧ actions l' = actions l ∧
      pe = e.relist u ∧ u.Begun 0 e.segments ∧
      ((∀ q ∈ l, ClearOfMerge q) → ∀ q ∈ l', ClearOfMerge q) := by
  refine System.Run.invariant (fun l pe => ∃ (l' : List (ListEngine × Action)) (e : ListEngine)
    (u : Utlist SegPtr), (engineSystem (List SegPtr) cap heap).Run l' e ∧ actions l' = actions l ∧
    pe = e.relist u ∧ u.Begun 0 e.segments ∧
    ((∀ q ∈ l, ClearOfMerge q) → ∀ q ∈ l', ClearOfMerge q)) ?_ ?_ hrun
  · exact ⟨[], .new heap, .single 0, .nil, rfl, rfl, Utlist.begun_single 0, fun _ => by simp⟩
  · rintro l pe a pe' - ⟨l', e, u, hrun', hacts, rfl, hu, hclear⟩ hen hexec
    obtain ⟨log, hinv⟩ := inv_of_run hcap hrun'
    have hen : a.Enabled cap (actions l') e := hacts ▸ enabled_relist.mp hen
    obtain ⟨e', v, he, rfl, hv⟩ := hinv.list_step hu hen hexec
    refine ⟨(e, a) :: l', e', v, hrun'.step hen he, congrArg (a :: ·) hacts, rfl, hv,
      fun hall => ?_⟩
    obtain ⟨ha, hall⟩ := List.forall_mem_cons.mp hall
    refine List.forall_mem_cons.mpr ⟨?_, hclear hall⟩
    cases a <;> exact ha

end Engine

variable {cap : ℕ} {heap : DocHeap} {l : List (PtrEngine × Action)} {e : PtrEngine}

/-- The documents that the store of a history holds, with all of the terms. -/
structure StoreMatches (heap : DocHeap) (as : List Action) (terms : List CString)
    (docs : List DocPtr) : Prop where
  nodup : docs.Nodup
  mem_iff : ∀ x, x ∈ docs ↔ (∃ k, Engine.storeMap heap as k = some x) ∧
    ∀ term ∈ terms, (heap x).hasTerm (strdup term) = true

/-- **The segments together**, in a reachable engine that is not between migration and replacement:
what they return is stored and has the terms, and if there is not just one term, it is what the
store holds. -/
lemma exists_matching (hcap : 1 ≤ cap) (hrun : (engineSystem (Utlist SegPtr) cap heap).Run l e)
    (hstage : e.merger.mergeStage ≠ 2) (request : Proto.RequestLookup) {full : SegPtr → List DocPtr}
    (hfull : ∀ p, (e.segs p).Unbounded e.docs (adapterRequest request).tokens (full p)) :
    ∃ segs, e.Serves segs ∧ heap.SameDocs e.docs ∧
      (∀ x ∈ segs.flatMap full, .add x ∈ actions l ∧
        ∀ term ∈ request.terms, (heap x).hasTerm (strdup term) = true) ∧
      ((∀ q ∈ l, Engine.ClearOfMerge q) → request.strings.length ≠ 1 →
        ∃ docs, StoreMatches heap (actions l) request.terms docs ∧
          (segs.flatMap full).Perm docs) := by
  obtain ⟨segs, hserves⟩ := Engine.serves_of_run hcap hrun
  obtain ⟨l', e', u, hrun', hacts, rfl, hu, hclear'⟩ := Engine.list_history_of_run hcap hrun
  obtain rfl := hserves.chain.unique hu.represents.chain
  obtain ⟨log, hinv⟩ := Engine.inv_of_run hcap hrun'
  have hsound : ∀ p ∈ e'.segments, (e'.segs p).Sound e'.docs (log p) := fun p hp =>
    hinv.sound p hp fun hm => hstage hm.1
  have htokens := (tokens_adapterRequest request).2
  have hterms : ∀ {x}, (∀ t ∈ (adapterRequest request).tokens, (e'.docs x).hasTerm t = true) ↔
      ∀ term ∈ request.terms, (heap x).hasTerm (strdup term) = true := fun {x} => by
    simp only [htokens, hinv.sameDocs.hasTerm, forall_exists_index, and_imp,
      forall_apply_eq_imp_iff₂]
  refine ⟨e'.segments, hserves, hinv.sameDocs, fun x hx => ?_, fun hclear hlength => ?_⟩
  · obtain ⟨p, hp, hx⟩ := List.mem_flatMap.mp hx
    obtain ⟨hlog, hall⟩ := (hfull p).hasTerm (hsound p hp) hx
    exact ⟨hacts ▸ hinv.added p hp x hlog, hterms.mp hall⟩
  · rw [← length_tokens] at hlength
    have hperm := fun p hp => (hfull p).perm (hsound p hp) hlength
    refine ⟨e'.segments.flatMap full, ⟨?_, fun x => ?_⟩, .refl _⟩
    · refine List.nodup_flatMap.mpr ⟨fun p hp => ?_, hinv.nodup.imp_of_mem ?_⟩
      · exact (hperm p hp).nodup_iff.mpr ((hsound p hp).nodup.filter _)
      · intro p q hp hq hne x hx hy
        refine hinv.disjoint p hp q hq hne (a := x) ?_ ?_
        · exact List.mem_of_mem_filter ((hperm p hp).mem_iff.mp hx)
        · exact List.mem_of_mem_filter ((hperm q hq).mem_iff.mp hy)
    · have hlive : (∃ k, Engine.storeMap heap (actions l) k = some x) ↔ e'.Live x := by
        have halive := Engine.alive_iff_of_clear (x := x) hcap hrun' (hclear' hclear)
        rw [Engine.live_iff_view, ← View.alive_iff_live hstage, halive, hacts]
        exact ⟨fun ⟨k, hk⟩ => (Engine.pkOf_of_storeMap hk).symm ▸ hk, fun hk => ⟨_, hk⟩⟩
      rw [hlive, ← hterms, List.mem_flatMap]
      constructor
      · rintro ⟨p, hp, hx⟩
        obtain ⟨hlog, hdel, hall⟩ := Segment.mem_matching.mp ((hperm p hp).mem_iff.mp hx)
        exact ⟨⟨p, hp, (hinv.mem_docPtrs hp).mpr hlog, hdel⟩, hall⟩
      · rintro ⟨⟨p, hp, hx, hdel⟩, hall⟩
        refine ⟨p, hp, (hperm p hp).mem_iff.mpr (Segment.mem_matching.mpr ⟨?_, hdel, hall⟩)⟩
        exact (hinv.mem_docPtrs hp).mp hx

/-! ## The call -/

/-- A call with a limit in range returns what the segments return one after the other. -/
lemma exists_requestProcessLookup {segs : List SegPtr} (h : e.Serves segs)
    (request : Proto.RequestLookup) (total : ℕ) (hlimit : request.limit ≤ lookupMaxSize)
    {full : SegPtr → List DocPtr}
    (hfull : ∀ p, (e.segs p).Unbounded e.docs (adapterRequest request).tokens (full p)) :
    ∃ n response, (∀ k, requestProcessLookup (n + k) e request total = .ok (e, some response)) ∧
      response.code = errorCodeSuccess ∧
      response.documents = ((segs.flatMap full).take request.limit).map
        fun x => adapterDocument2proto (e.docs x).clone := by
  set lk₀ := Lookup.call (adapterRequest request) total with hlk₀
  have hlimit₀ : lk₀.limit = request.limit := rfl
  have hpc : lk₀.pc = .start := if_neg (not_lt.mpr hlimit)
  have hstep : lk₀.step e = .ok (e, lk₀.fetch e.segments.head) := by
    have htouch : ¬lk₀.TouchesReleased e := by
      simp [Lookup.TouchesReleased, Lookup.segment, Lookup.reads, hpc]
    unfold Lookup.step
    rw [if_neg htouch, hpc]
  obtain ⟨n, lk, hsteps, hret, hres⟩ := Lookup.steps_walk lk₀ h h.chain (fun _ hp => hp)
    (fun p _ => hfull p) (hlimit.trans_lt (by decide)) (Nat.zero_le _)
  have hcall : Lookup.steps (n + 1) e lk₀ = .ok (e, lk) := by
    simp only [Lookup.steps, hstep, bind, Except.bind]
    exact hsteps
  refine ⟨n + 1, adapterResponseLookup lk.response errorCodeSuccess, fun k => ?_, rfl, ?_⟩
  · have hall : Lookup.steps (n + 1 + k) e lk₀ = .ok (e, lk) := by
      rw [Lookup.steps_add hcall, Lookup.steps_returned hret]
    unfold requestProcessLookup
    rw [← hlk₀, hall]
    simp only [bind, Except.bind, hret]
    rfl
  · have hdocs : lk.response.docs =
        ((segs.flatMap full).take request.limit).map fun x => (e.docs x).clone := by
      simpa [hlk₀, Lookup.call, LookupResponse.init, adapterRequest] using hres
    rw [adapterResponseLookup, hdocs, List.map_map]
    rfl

/-- A call with a limit out of range returns at once. -/
lemma requestProcessLookup_of_lt (e : PtrEngine) (request : Proto.RequestLookup) (total n : ℕ)
    (hlimit : lookupMaxSize < request.limit) : requestProcessLookup n e request total =
      .ok (e, some ⟨[], errorCodeInvalidArgument, "", 0⟩) := by
  have hpc : (Lookup.call (adapterRequest request) total).pc =
      .returned errorCodeInvalidArgument := if_pos hlimit
  unfold requestProcessLookup
  rw [Lookup.steps_returned hpc]
  simp only [bind, Except.bind, hpc]
  rfl

/-- **What a client gets.**  In an engine that a run of tasks, merger and lookups has reached and
that is not between migration and replacement, a request for lookup that nothing interrupts is
answered: with an error and nothing else if its limit is out of range, else with the messages of at
most `limit` documents that have been added and have the terms.  If the request does not have just
one term, and no task has met a merge, these are documents that the store holds, each once, and all
those that match unless the limit is reached.  The message of a document that was itself made of a
message is that message in normal form. -/
theorem query_answered (hcap : 1 ≤ cap) (hrun : (engineSystem (Utlist SegPtr) cap heap).Run l e)
    (hstage : e.merger.mergeStage ≠ 2) (request : Proto.RequestLookup) (total : ℕ) :
    ∃ n response, (∀ k, requestProcessLookup (n + k) e request total = .ok (e, some response)) ∧
      (lookupMaxSize < request.limit → response = ⟨[], errorCodeInvalidArgument, "", 0⟩) ∧
      (request.limit ≤ lookupMaxSize → response.code = errorCodeSuccess ∧ ∃ xs,
        response.documents = xs.map (fun x => adapterDocument2proto (heap x).clone) ∧
        xs.length ≤ request.limit ∧
        (∀ x ∈ xs, .add x ∈ actions l ∧
          ∀ term ∈ request.terms, (heap x).hasTerm (strdup term) = true) ∧
        ((∀ q ∈ l, Engine.ClearOfMerge q) → request.strings.length ≠ 1 →
          ∃ docs, StoreMatches heap (actions l) request.terms docs ∧
            Exact request.limit docs xs) ∧
        ∀ x ∈ xs, ∀ m : Proto.Document, m.NulFree → heap x = adapterDocument m →
          adapterDocument2proto (heap x).clone = m.normal) := by
  by_cases hlimit : lookupMaxSize < request.limit
  · exact ⟨0, _, fun k => requestProcessLookup_of_lt e request total _ hlimit, fun _ => rfl,
      fun h => absurd hlimit (not_lt.mpr h)⟩
  have hlimit := not_lt.mp hlimit
  choose full hfull using fun p =>
    Segment.exists_unbounded e.docs (e.segs p) (adapterRequest request).tokens
  obtain ⟨segs, hserves, hsame, hsound, hexact⟩ :=
    exists_matching hcap hrun hstage request hfull
  obtain ⟨n, response, hcall, hcode, hdocuments⟩ :=
    exists_requestProcessLookup hserves request total hlimit hfull
  refine ⟨n, response, hcall, fun h => absurd hlimit (not_le.mpr h), fun _ => ⟨hcode,
    (segs.flatMap full).take request.limit, ?_, List.length_take_le _ _,
    fun x hx => hsound x (List.mem_of_mem_take hx), fun hclear hlength => ?_, ?_⟩⟩
  · rw [hdocuments]
    exact List.map_congr_left fun x _ => adapterDocument2proto_clone_congr (hsame x).1 (hsame x).2
  · obtain ⟨docs, hmatches, hperm⟩ := hexact hclear hlength
    exact ⟨docs, hmatches, exact_take hperm hmatches.nodup⟩
  · intro x _ m hm heq
    rw [heq]
    exact adapterDocument2proto_clone hm

/-- The documents of a run in which messages are added: document `d` is made of a message with the
primary key `d % 10` and two indexed terms. -/
def sampleMessage (d : ℕ) : Proto.Document :=
  ⟨d % 10, [⟨0, [97], [120], 0, true⟩, ⟨1, [98], [], 7, true⟩]⟩

/-- `query_answered` for a request with a term named twice, after an update and a whole merge. -/
theorem query_answered_sample : ∃ l e,
    (engineSystem (Utlist SegPtr) 1 fun d => adapterDocument (sampleMessage d)).Run l e ∧
    e.merger.mergeStage = 6 ∧
    ∃ n response xs, requestProcessLookup n e ⟨[[97], [98], [97]], 10⟩ 0 =
        .ok (e, some response) ∧
      response.documents =
        xs.map (fun x => adapterDocument2proto (adapterDocument (sampleMessage x)).clone) ∧
      ∃ docs, Exact 10 docs xs := by
  obtain ⟨l, e, hrun, htest⟩ := System.exists_run_of_execAll
    (M := engineSystem (Utlist SegPtr) 1 fun d => adapterDocument (sampleMessage d))
    (fun l e => decide ((∀ q ∈ l, Engine.ClearOfMerge q) ∧ e.merger.mergeStage = 6))
    [.add 1, .add 2, .add 3, .remove 1, .procCheck, .procMigrate, .replaceSegs, .add 12,
      .procRelease, .procRedelete, .redelete] (by decide +kernel)
  obtain ⟨hclear, hstage⟩ := of_decide_eq_true htest
  obtain ⟨n, response, hcall, -, hresponse⟩ :=
    query_answered le_rfl hrun (by simp [hstage]) ⟨[[97], [98], [97]], 10⟩ 0
  obtain ⟨-, xs, hdocuments, -, -, hexact, -⟩ := hresponse (by decide)
  obtain ⟨docs, -, hexact⟩ := hexact hclear (by decide)
  exact ⟨l, e, hrun, hstage, n + 0, response, xs, hcall 0, hdocuments, docs, hexact⟩

end TsEngine
