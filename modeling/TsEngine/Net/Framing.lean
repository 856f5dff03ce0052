import TsEngine.Net.Server

/-!
# The framing of a request

A request is its length as an `int` and as many bytes.  `framing_iff` says for which ways a request
may arrive the handler pushes its packet and nothing else, and for which ways a stream that breaks
off the connection is freed, whatever the uninitialised variable of the handler holds.

The header decides, for it is read once: if the first read returns all four bytes, the body may
arrive in any pieces (`serves_receiving_iff`).  A stream that is closed too early leaves the handler
with an event for every call and nothing to do, for it takes the `0` of its read for progress.
-/

namespace TsEngine

open Framework ReadState

variable {stale : Stale} {s s' t t' : ReadState} {fd len : ℕ} {got bs : List UInt8}
  {w w' : List (Arrival UInt8)}

/-! ## The event loop -/

/-- A call of the handler. -/
lemma serves_call_iff (h : s.readable = true) (hwire : s.wire ≠ [])
    (hexec : s.onReadHandler stale = .ok s') : Serves stale s t ↔ Serves stale s' t := by
  refine ⟨fun hserves => ?_, .call h hwire hexec⟩
  cases hserves with
  | done h' => simp [h] at h'
  | call _ _ hexec' hrest =>
      rw [hexec] at hexec'
      cases hexec'
      exact hrest

lemma serves_done_iff (h : s.readable = false) : Serves stale s t ↔ t = s := by
  refine ⟨fun hserves => ?_, fun heq => by subst heq; exact .done h⟩
  cases hserves with
  | done => rfl
  | call h' => simp [h] at h'

/-- The state that the event loop leaves is determined. -/
lemma ReadState.Serves.unique (h : Serves stale s t) (h' : Serves stale s t') : t' = t := by
  induction h with
  | done hdone => exact (serves_done_iff hdone).mp h'
  | call hr hwire hexec _ ih => exact ih ((serves_call_iff hr hwire hexec).mp h')

/-- A call that changes nothing is repeated for ever. -/
lemma not_serves_of_onReadHandler_eq (h : s.readable = true)
    (hexec : s.onReadHandler stale = .ok s) : ¬Serves stale s t := by
  intro hserves
  generalize hs : s = s₁ at hserves
  induction hserves with
  | done hdone => simp [← hs, h] at hdone
  | call _ _ hexec' _ ih =>
      subst hs
      rw [hexec] at hexec'
      cases hexec'
      exact ih rfl

/-! ## The body -/

/-- A connection that waits for the rest of a packet of which it has `got`. -/
def receiving (fd len : ℕ) (got : List UInt8) (wire : List (Arrival UInt8)) : ReadState :=
  ⟨some ⟨fd, .receiving, some ⟨len, got.length, got ++ List.replicate (len - got.length) 0⟩⟩, wire,
    true, []⟩

/-- A connection whose packet is complete. -/
def received (fd : ℕ) (data : List UInt8) (wire : List (Arrival UInt8)) : ReadState :=
  ⟨some ⟨fd, .recved, some ⟨data.length, data.length, data⟩⟩, wire, false,
    [⟨data.length, data.length, data⟩]⟩

/-- A connection that is given up. -/
def givenUp (wire : List (Arrival UInt8)) : ReadState := ⟨none, wire, false, []⟩

/-- The packet of `receiving` after one more chunk. -/
lemma fill_receiving (h : got.length + bs.length ≤ len) :
    NetPacket.fill ⟨len, got.length, got ++ List.replicate (len - got.length) 0⟩ bs =
      ⟨len, (got ++ bs).length, got ++ bs ++ List.replicate (len - (got ++ bs).length) 0⟩ := by
  simp only [NetPacket.fill, List.take_left, List.length_append, NetPacket.mk.injEq, true_and]
  rw [List.drop_append, List.drop_of_length_le (by omega), List.nil_append, List.drop_replicate]
  congr 2
  omega

/-- The call for a chunk that does not complete the packet. -/
lemma onReadHandler_data {b : UInt8} (h : got.length + (b :: bs).length < len) :
    (receiving fd len got (.data b bs :: w)).onReadHandler stale =
      .ok (receiving fd len (got ++ b :: bs) w) := by
  have htake : (b :: bs).take (len - got.length) = b :: bs := List.take_of_length_le (by omega)
  have hdrop : (b :: bs).drop (len - got.length) = [] := List.drop_of_length_le (by omega)
  have hne : len ≠ (got ++ b :: bs).length := by
    rw [List.length_append]
    omega
  simp only [onReadHandler, receiving, receive, Arrival.read, htake, hdrop, refill, reduceCtorEq,
    if_false]
  rw [fill_receiving (by omega)]
  simp only [hne, if_false]

/-- The call for a chunk that completes the packet. -/
lemma onReadHandler_complete {b : UInt8} (hlt : got.length < len)
    (h : len ≤ got.length + (b :: bs).length) :
    (receiving fd len got (.data b bs :: w)).onReadHandler stale =
      .ok (received fd (got ++ (b :: bs).take (len - got.length))
        (refill ((b :: bs).drop (len - got.length)) w)) := by
  have hlength : (got ++ (b :: bs).take (len - got.length)).length = len := by
    rw [List.length_append, List.length_take]
    omega
  simp only [onReadHandler, receiving, receive, Arrival.read, reduceCtorEq, if_false]
  rw [fill_receiving (by rw [List.length_take]; omega)]
  simp only [hlength, if_true, push, lt_irrefl, if_false, List.nil_append, received, Nat.sub_self,
    List.replicate_zero, List.append_nil]

/-- **What the pieces amount to** as long as they do not complete the packet. -/
lemma serves_receiving_iff (hw : Transient w) (h : got.length + (content w).length < len) :
    Serves stale (receiving fd len got (w ++ w')) t ↔
      Serves stale (receiving fd len (got ++ content w) w') t := by
  induction w generalizing got with
  | nil => simp [content]
  | cons a w ih =>
      cases a with
      | data b bs =>
          simp only [content, List.length_append] at h
          rw [List.cons_append, serves_call_iff rfl (by simp [receiving])
            (onReadHandler_data (by omega)), ih hw.tail (by rw [List.length_append]; omega)]
          simp [content]
      | again =>
          have hcall : (receiving fd len got (.again :: (w ++ w'))).onReadHandler stale =
              .ok (receiving fd len got (w ++ w')) := rfl
          rw [List.cons_append, serves_call_iff rfl (by simp [receiving]) hcall]
          exact ih hw.tail h
      | closed => exact absurd rfl (hw _ List.mem_cons_self).1
      | failed => exact absurd rfl (hw _ List.mem_cons_self).2

/-- **Once enough has arrived**, the packet is pushed. -/
lemma serves_receiving (stale : Stale) (fd : ℕ) (got : List UInt8) (w' : List (Arrival UInt8))
    (hw : Transient w) (hlt : got.length < len) (h : len ≤ got.length + (content w).length) :
    ∃ rest, Serves stale (receiving fd len got (w ++ w'))
      (received fd (got ++ (content w).take (len - got.length)) rest) := by
  induction w generalizing got with
  | nil => simp [content] at h; omega
  | cons a w ih =>
      cases a with
      | data b bs =>
          simp only [content, List.length_append] at h
          rw [List.cons_append]
          by_cases hfits : got.length + (b :: bs).length < len
          · obtain ⟨rest, hserves⟩ := ih (got ++ b :: bs) hw.tail
              (by rw [List.length_append]; omega) (by rw [List.length_append]; omega)
            refine ⟨rest, ?_⟩
            rw [serves_call_iff rfl (by simp [receiving]) (onReadHandler_data hfits)]
            have hdata : got ++ (content (.data b bs :: w)).take (len - got.length) =
                got ++ b :: bs ++ (content w).take (len - (got ++ b :: bs).length) := by
              rw [content, List.take_append, List.take_of_length_le (by omega), List.append_assoc,
                List.length_append, Nat.sub_add_eq]
            rwa [hdata]
          · refine ⟨refill ((b :: bs).drop (len - got.length)) (w ++ w'), ?_⟩
            rw [serves_call_iff rfl (by simp [receiving])
              (onReadHandler_complete hlt (by omega))]
            have hdata : (content (.data b bs :: w)).take (len - got.length) =
                (b :: bs).take (len - got.length) := by
              rw [content, List.take_append_of_le_length (by omega)]
            rw [hdata]
            exact .done rfl
      | again =>
          obtain ⟨rest, hserves⟩ := ih got hw.tail hlt h
          exact ⟨rest, .call rfl (by simp [receiving]) rfl hserves⟩
      | closed => exact absurd rfl (hw _ List.mem_cons_self).1
      | failed => exact absurd rfl (hw _ List.mem_cons_self).2

/-- A failure of the stream gives the connection up. -/
lemma serves_receiving_failed : Serves stale (receiving fd len got [.failed]) (givenUp [.failed]) :=
  .call rfl (by simp [receiving]) rfl (.done rfl)

/-- **The end of the stream** before the packet is complete: the handler is called for ever. -/
lemma not_serves_receiving_closed (hlt : got.length < len) :
    ¬Serves stale (receiving fd len got [.closed]) t := by
  apply not_serves_of_onReadHandler_eq rfl
  simp only [onReadHandler, receiving, receive, Arrival.read, reduceCtorEq, if_false]
  rw [fill_receiving (by simp; omega)]
  simp [hlt.ne']

/-! ## The header -/

@[simp]
lemma length_encode (n : ℕ) : (encode n).length = 4 := rfl

lemma toNat_ofNat (n : ℕ) : (UInt8.ofNat n).toNat = n % 256 := UInt8.toNat_ofNat'

lemma decode_four (a b c d : UInt8) : decode [a, b, c, d] =
    a.toNat + 256 * b.toNat + 65536 * c.toNat + 16777216 * d.toNat := by
  simp only [decode, List.map_cons, List.map_nil, Nat.ofDigits_cons, Nat.ofDigits_nil]
  push_cast
  ring

lemma decode_encode {n : ℕ} (hn : n < 2 ^ 32) : decode (encode n) = n := by
  simp only [encode, decode_four, toNat_ofNat]
  omega

/-- Four bytes are those of the number they stand for. -/
lemma encode_decode {bytes : List UInt8} (h : bytes.length = 4) :
    encode (decode bytes) = bytes ∧ decode bytes < 2 ^ 32 := by
  obtain ⟨a, b, c, d, rfl⟩ := List.length_eq_four.mp h
  have ha := a.toNat_lt
  have hb := b.toNat_lt
  have hc := c.toNat_lt
  have hd := d.toNat_lt
  rw [decode_four]
  refine ⟨?_, by omega⟩
  simp only [encode, List.cons.injEq, ← UInt8.toNat_inj, toNat_ofNat, and_true]
  omega

/-- The lengths that the handler accepts. -/
def ValidLength (n : ℕ) : Prop := 0 < n ∧ n ≤ maxPacketSize

instance : DecidablePred ValidLength := fun n =>
  inferInstanceAs (Decidable (0 < n ∧ n ≤ maxPacketSize))

lemma toInt32_invalid_iff {n : ℕ} (hn : n < 2 ^ 32) :
    (toInt32 n ≤ 0 ∨ (maxPacketSize : ℤ) < toInt32 n) ↔ ¬ValidLength n := by
  unfold toInt32 ValidLength maxPacketSize
  split_ifs <;> omega

/-- What `packet_len` holds after the read of the header. -/
def packetLen (stale : Stale) (chunk : List UInt8) : ℕ :=
  decode (chunk ++ stale.1.drop chunk.length)

lemma encode_packetLen (stale : Stale) {chunk : List UInt8} (h : chunk.length ≤ 4) :
    encode (packetLen stale chunk) = chunk ++ stale.1.drop chunk.length ∧
      packetLen stale chunk < 2 ^ 32 :=
  encode_decode (by rw [List.length_append, List.length_drop, stale.2]; omega)

/-- A variable that held `n` before holds `n` after a read of its first bytes. -/
lemma packetLen_encode {n : ℕ} {chunk : List UInt8} (hn : n < 2 ^ 32) (h : chunk <+: encode n) :
    packetLen ⟨encode n, length_encode n⟩ chunk = n := by
  have happend : chunk ++ (encode n).drop chunk.length = encode n :=
    List.prefix_iff_eq_append.mp h
  show decode (chunk ++ (encode n).drop chunk.length) = n
  rw [happend, decode_encode hn]

/-- A read that fails, or finds nothing yet, gives the connection up. -/
lemma onReadHandler_start_failed (stale : Stale) (fd : ℕ)
    (h : (Arrival.read 4 w).1 = .again ∨ (Arrival.read 4 w).1 = .failed) :
    (start fd w).onReadHandler stale = .ok (givenUp (Arrival.read 4 w).2) := by
  rcases hread : Arrival.read 4 w with ⟨r, rest⟩
  rw [hread] at h
  rcases h with rfl | rfl <;> simp [onReadHandler, start, Connection.new, hread, close, givenUp]

/-- A length out of range gives the connection up. -/
lemma onReadHandler_start_invalid (fd : ℕ) {chunk : List UInt8} {rest : List (Arrival UInt8)}
    (hread : Arrival.read 4 w = (.bytes chunk, rest)) (hlen : chunk.length ≤ 4)
    (hinvalid : ¬ValidLength (packetLen stale chunk)) :
    (start fd w).onReadHandler stale = .ok (givenUp rest) := by
  have hreject := (toInt32_invalid_iff (encode_packetLen stale hlen).2).mpr hinvalid
  rw [packetLen] at hreject
  simp only [onReadHandler, start, Connection.new, hread, if_true, hreject, close, givenUp]

/-- A length in range: the call goes on as one for the body. -/
lemma onReadHandler_start_valid (fd : ℕ) {chunk : List UInt8} {rest : List (Arrival UInt8)}
    (hread : Arrival.read 4 w = (.bytes chunk, rest)) (hlen : chunk.length ≤ 4)
    (hvalid : ValidLength (packetLen stale chunk)) :
    (start fd w).onReadHandler stale =
      (receiving fd (packetLen stale chunk) [] rest).onReadHandler stale := by
  have haccept := mt (toInt32_invalid_iff (encode_packetLen stale hlen).2).mp (not_not.mpr hvalid)
  rw [packetLen] at haccept
  simp only [onReadHandler, start, Connection.new, hread, if_true, haccept, if_false, receiving,
    reduceCtorEq, receive, NetPacket.new, packetLen, List.length_nil, List.nil_append, Nat.sub_zero]
  rfl

/-- The handler does not fail on the body. -/
lemma exists_onReadHandler_receiving (stale : Stale) (fd len : ℕ) (got : List UInt8)
    (w : List (Arrival UInt8)) : ∃ s', (receiving fd len got w).onReadHandler stale = .ok s' := by
  simp only [onReadHandler, receiving, reduceCtorEq, if_false, receive]
  split
  · exact ⟨_, rfl⟩
  · exact ⟨_, rfl⟩
  · split_ifs <;> exact ⟨_, rfl⟩

/-- **Behind the header.** -/
lemma serves_start_iff {chunk : List UInt8} {rest : List (Arrival UInt8)} (hw : w ≠ [])
    (hread : Arrival.read 4 w = (.bytes chunk, rest)) (hlen : chunk.length ≤ 4)
    (hvalid : ValidLength (packetLen stale chunk)) :
    Serves stale (start fd w) t ↔
      Serves stale (receiving fd (packetLen stale chunk) [] rest) t := by
  have hstart := onReadHandler_start_valid fd hread hlen hvalid
  obtain ⟨s', hexec⟩ := exists_onReadHandler_receiving stale fd (packetLen stale chunk) [] rest
  rw [hexec] at hstart
  rw [serves_call_iff rfl hw hstart]
  cases rest with
  | nil =>
      -- nothing is left to read, and the call waits
      have hwait : (receiving fd (packetLen stale chunk) [] []).onReadHandler stale =
          .ok (receiving fd (packetLen stale chunk) [] []) := rfl
      rw [hwait] at hexec
      cases hexec
      rfl
  | cons a rest => exact (serves_call_iff rfl (by simp [receiving]) hexec).symm

/-! ## What the handler makes of a stream -/

/-- One task is pushed, with the packet of `body`. -/
def Delivers (stale : Stale) (fd : ℕ) (w : List (Arrival UInt8)) (body : List UInt8) : Prop :=
  ∃ t p, Serves stale (start fd w) t ∧ t.pushed = [p] ∧ p.len = body.length ∧ p.data = body

/-- The connection is freed and its event deleted, and nothing is pushed. -/
def Drops (stale : Stale) (fd : ℕ) (w : List (Arrival UInt8)) : Prop :=
  ∃ t, Serves stale (start fd w) t ∧ t.conn = none ∧ t.readable = false ∧ t.pushed = []

/-- The first read returns the whole header. -/
def WholeHeader : List (Arrival UInt8) → Prop
  | .data b bs :: _ => 4 ≤ (b :: bs).length
  | _ => False

/-- Ways for a stream to break off that the handler notices: its first read finds nothing yet, or
the stream fails, and if the header came in pieces, what came behind the first piece is less than
any length that begins with it. -/
def BreaksOff (last : Arrival UInt8) : List (Arrival UInt8) → Prop
  | .again :: _ => True
  | .data b bs :: w => last = .failed ∧ ((b :: bs).length < 4 →
      ∀ n, ValidLength n → b :: bs <+: encode n → (content w).length < n)
  | _ => last = .failed

lemma read_short {b : UInt8} (h : (b :: bs).length < 4) :
    Arrival.read 4 (.data b bs :: w) = (.bytes (b :: bs), w) := by
  rw [Arrival.read, List.take_of_length_le (by omega), List.drop_of_length_le (by omega), refill]

/-- A connection that is given up in the first call. -/
lemma serves_givenUp (hw : w ≠ []) (h : (start fd w).onReadHandler stale = .ok (givenUp w')) :
    Serves stale (start fd w) (givenUp w') := .call rfl hw h (.done rfl)

lemma not_delivers_of_serves {body : List UInt8} (h : Serves stale (start fd w) t)
    (ht : t.pushed = []) : ¬Delivers stale fd w body := by
  rintro ⟨t', p, hserves, hpushed, -⟩
  rw [h.unique hserves, ht] at hpushed
  exact absurd hpushed (by simp)

/-- **A whole header** is followed by its packet. -/
lemma delivers_of_wholeHeader {body : List UInt8} (hw : Transient w)
    (hvalid : ValidLength body.length) (hcontent : content w = encode body.length ++ body)
    (hwhole : WholeHeader w) : Delivers stale fd w body := by
  match w, hwhole with
  | .data b bs :: w, hwhole =>
      have hwhole : 4 ≤ (b :: bs).length := hwhole
      rw [content] at hcontent
      have htake := congrArg (List.take 4) hcontent
      have hdrop := congrArg (List.drop 4) hcontent
      rw [List.take_append_of_le_length hwhole, List.take_left' (length_encode _)] at htake
      rw [List.drop_append_of_le_length hwhole, List.drop_left' (length_encode _)] at hdrop
      have hlt : body.length < 2 ^ 32 := hvalid.2.trans_lt (by norm_num [maxPacketSize])
      have hlen : packetLen stale ((b :: bs).take 4) = body.length := by
        rw [packetLen, htake, length_encode, List.drop_of_length_le stale.2.le, List.append_nil,
          decode_encode hlt]
      have hrest : Transient (refill ((b :: bs).drop 4) w) := hw.tail.refill _
      obtain ⟨rest, hserves⟩ := serves_receiving stale fd [] [] hrest hvalid.1
        (by rw [content_refill, hdrop]; simp)
      rw [content_refill, hdrop] at hserves
      simp only [List.append_nil, List.length_nil, Nat.sub_zero, List.take_length,
        List.nil_append] at hserves
      rw [← hlen, ← serves_start_iff (w := .data b bs :: w) (by simp) rfl (by simp)
        (hlen ▸ hvalid)] at hserves
      exact ⟨_, _, hserves, rfl, rfl, rfl⟩

/-- The variable that held `-1` before. -/
def allOnes : Stale := ⟨[255, 255, 255, 255], rfl⟩

lemma not_validLength_allOnes {b : UInt8} (h : (b :: bs).length < 4) :
    ¬ValidLength (packetLen allOnes (b :: bs)) := by
  have h255 : UInt8.toNat 255 = 255 := rfl
  unfold ValidLength maxPacketSize packetLen allOnes
  match bs, h with
  | [], _ =>
      show ¬(0 < decode [b, 255, 255, 255] ∧ decode [b, 255, 255, 255] ≤ 102400)
      rw [decode_four, h255]
      omega
  | [c], _ =>
      show ¬(0 < decode [b, c, 255, 255] ∧ decode [b, c, 255, 255] ≤ 102400)
      rw [decode_four, h255]
      omega
  | [c, d], _ =>
      show ¬(0 < decode [b, c, d, 255] ∧ decode [b, c, d, 255] ≤ 102400)
      rw [decode_four, h255]
      omega
  | _ :: _ :: _ :: _, h => simp at h; omega

/-- **A header in pieces** may be taken for a length out of range. -/
lemma wholeHeader_of_delivers {body : List UInt8} (hw : Transient w) (hne : w ≠ [])
    (h : Delivers allOnes fd w body) : WholeHeader w := by
  match w, hne with
  | .data b bs :: w, hne =>
      by_contra hshort
      have hshort : (b :: bs).length < 4 := not_le.mp hshort
      have hinvalid := onReadHandler_start_invalid fd (read_short (w := w) hshort) (by omega)
        (not_validLength_allOnes hshort)
      exact not_delivers_of_serves (serves_givenUp hne hinvalid) rfl h
  | .again :: w, hne =>
      have hgiven := onReadHandler_start_failed allOnes fd (w := .again :: w) (.inl rfl)
      exact absurd h (not_delivers_of_serves (serves_givenUp hne hgiven) rfl)
  | .closed :: _, _ => exact absurd rfl (hw _ List.mem_cons_self).1
  | .failed :: _, _ => exact absurd rfl (hw _ List.mem_cons_self).2

/-- **A body that breaks off**: the connection is freed if the stream fails and the packet is not
complete. -/
lemma receiving_drops_iff {last : Arrival UInt8} (hlast : last = .closed ∨ last = .failed)
    (hw : Transient w) (hpos : 0 < len) :
    (∃ t, Serves stale (receiving fd len [] (w ++ [last])) t ∧ t.conn = none ∧
      t.readable = false ∧ t.pushed = []) ↔ last = .failed ∧ (content w).length < len := by
  by_cases hlt : (content w).length < len
  · simp only [hlt, and_true]
    have hiff : ∀ t, Serves stale (receiving fd len [] (w ++ [last])) t ↔
        Serves stale (receiving fd len (content w) [last]) t := fun t => by
      rw [serves_receiving_iff hw (by simpa using hlt), List.nil_append]
    simp only [hiff]
    rcases hlast with rfl | rfl
    · exact iff_of_false (fun ⟨_, hserves, _⟩ => not_serves_receiving_closed hlt hserves) (by simp)
    · exact iff_of_true ⟨_, serves_receiving_failed, rfl, rfl, rfl⟩ rfl
  · obtain ⟨rest, hserves⟩ := serves_receiving stale fd [] [last] hw hpos (by simpa using hlt)
    refine iff_of_false (fun ⟨t, hserves', hconn, _⟩ => ?_) fun h => hlt h.2
    rw [hserves.unique hserves'] at hconn
    exact absurd hconn (by simp [received])

lemma drops_of_givenUp {w' : List (Arrival UInt8)} (hw : w ≠ [])
    (h : (start fd w).onReadHandler stale = .ok (givenUp w')) : Drops stale fd w :=
  ⟨_, serves_givenUp hw h, rfl, rfl, rfl⟩

/-- A stream that ends before anything arrives: the variable keeps what it held, and that may be a
length. -/
lemma forall_drops_nil_iff {n : ℕ} {last : Arrival UInt8}
    (hlast : last = .closed ∨ last = .failed) (hvalid : ValidLength n) :
    (∀ stale, Drops stale fd [last]) ↔ last = .failed := by
  rcases hlast with rfl | rfl
  · refine iff_of_false (fun hall => ?_) (by simp)
    have hlt : n < 2 ^ 32 := hvalid.2.trans_lt (by norm_num [maxPacketSize])
    obtain ⟨t, hserves, -⟩ := hall ⟨encode n, length_encode _⟩
    have hlen := packetLen_encode hlt List.nil_prefix
    rw [serves_start_iff (by simp) rfl (by simp) (hlen.symm ▸ hvalid), hlen] at hserves
    exact not_serves_receiving_closed hvalid.1 hserves
  · exact iff_of_true (fun stale => drops_of_givenUp (by simp)
      (onReadHandler_start_failed stale fd (.inr rfl))) rfl

section

variable {b : UInt8} {body rest : List UInt8} {last : Arrival UInt8}
  (hlast : last = .closed ∨ last = .failed) (hw : Transient (.data b bs :: w))

include hlast hw

/-- Behind a whole header the connection is freed if the stream fails. -/
lemma drops_whole_iff (hvalid : ValidLength body.length)
    (hcontent : content (.data b bs :: w) ++ rest = encode body.length ++ body) (hrest : rest ≠ [])
    (hwhole : 4 ≤ (b :: bs).length) (stale : Stale) :
    Drops stale fd (.data b bs :: w ++ [last]) ↔ last = .failed := by
  have hlt : body.length < 2 ^ 32 := hvalid.2.trans_lt (by norm_num [maxPacketSize])
  have hpos : 0 < rest.length := List.length_pos_iff.mpr hrest
  have hlength := congrArg List.length hcontent
  rw [List.length_append, List.length_append, length_encode, content, List.length_append]
    at hlength
  have htake : (b :: bs).take 4 = encode body.length := by
    have htake := congrArg (List.take 4) hcontent
    rwa [content, List.append_assoc, List.take_append_of_le_length hwhole,
      List.take_left' (length_encode _)] at htake
  have hlen : packetLen stale ((b :: bs).take 4) = body.length := by
    rw [packetLen, htake, length_encode, List.drop_of_length_le stale.2.le,
      List.append_nil, decode_encode hlt]
  have hread : Arrival.read 4 (.data b bs :: w ++ [last]) =
      (.bytes ((b :: bs).take 4), refill ((b :: bs).drop 4) w ++ [last]) := by
    rw [refill_append]
    rfl
  have hiff : ∀ t, Serves stale (start fd (.data b bs :: w ++ [last])) t ↔ Serves stale
      (receiving fd body.length [] (refill ((b :: bs).drop 4) w ++ [last])) t := fun t => by
    rw [serves_start_iff (by simp) hread (by simp) (hlen.symm ▸ hvalid), hlen]
  unfold Drops
  simp only [hiff]
  rw [receiving_drops_iff hlast (hw.tail.refill _) hvalid.1, and_iff_left_iff_imp]
  intro _
  rw [content_refill, List.length_append, List.length_drop]
  omega

/-- Behind a first piece of the header the connection is freed unless what the variable held
completes it to a length that the rest can fill. -/
lemma drops_short_iff (hshort : (b :: bs).length < 4) (stale : Stale) :
    Drops stale fd (.data b bs :: w ++ [last]) ↔ (ValidLength (packetLen stale (b :: bs)) →
      last = .failed ∧ (content w).length < packetLen stale (b :: bs)) := by
  have hread : Arrival.read 4 (.data b bs :: w ++ [last]) = (.bytes (b :: bs), w ++ [last]) :=
    read_short hshort
  by_cases hv : ValidLength (packetLen stale (b :: bs))
  · have hiff : ∀ t, Serves stale (start fd (.data b bs :: w ++ [last])) t ↔ Serves stale
        (receiving fd (packetLen stale (b :: bs)) [] (w ++ [last])) t := fun t =>
      serves_start_iff (by simp) hread (by omega) hv
    simp only [hv, true_imp_iff]
    unfold Drops
    simp only [hiff]
    exact receiving_drops_iff hlast hw.tail hv.1
  · exact iff_of_true (drops_of_givenUp (by simp)
      (onReadHandler_start_invalid fd hread (by omega) hv)) fun h => absurd h hv

/-- A header in pieces, whatever the variable held. -/
lemma forall_drops_short_iff (hvalid : ValidLength body.length)
    (hcontent : content (.data b bs :: w) ++ rest = encode body.length ++ body)
    (hshort : (b :: bs).length < 4) :
    (∀ stale, Drops stale fd (.data b bs :: w ++ [last])) ↔
      BreaksOff last (.data b bs :: w) := by
  have hprefix : b :: bs <+: encode body.length := by
    have hb : b :: bs <+: encode body.length ++ body := by
      rw [← hcontent, content, List.append_assoc]
      exact List.prefix_append _ _
    refine List.prefix_of_prefix_length_le hb (List.prefix_append _ _) ?_
    rw [length_encode]
    omega
  constructor
  · intro hall
    have hfits : ∀ n, ValidLength n → b :: bs <+: encode n →
        last = .failed ∧ (content w).length < n := by
      intro n hn hp
      have hlen := packetLen_encode (hn.2.trans_lt (by norm_num [maxPacketSize])) hp
      have hdrop := (drops_short_iff hlast hw hshort ⟨encode n, length_encode n⟩).mp (hall _)
      rw [hlen] at hdrop
      exact hdrop hn
    exact ⟨(hfits _ hvalid hprefix).1, fun _ n hn hp => (hfits n hn hp).2⟩
  · rintro ⟨hfailed, hfits⟩ stale
    rw [drops_short_iff hlast hw hshort]
    refine fun hv => ⟨hfailed, hfits hshort _ hv ?_⟩
    rw [(encode_packetLen stale (by omega)).1]
    exact List.prefix_append _ _

end

/-- **When a stream that breaks off is noticed**, whatever the variable held. -/
lemma forall_drops_iff {body rest : List UInt8} {last : Arrival UInt8}
    (hlast : last = .closed ∨ last = .failed) (hw : Transient w) (hvalid : ValidLength body.length)
    (hcontent : content w ++ rest = encode body.length ++ body) (hrest : rest ≠ []) :
    (∀ stale, Drops stale fd (w ++ [last])) ↔ BreaksOff last w := by
  match w with
  | [] => exact forall_drops_nil_iff hlast hvalid
  | .again :: w =>
      exact iff_of_true (fun stale => drops_of_givenUp (by simp)
        (onReadHandler_start_failed stale fd (.inl rfl))) trivial
  | .closed :: _ => exact absurd rfl (hw _ List.mem_cons_self).1
  | .failed :: _ => exact absurd rfl (hw _ List.mem_cons_self).2
  | .data b bs :: w =>
      by_cases hwhole : 4 ≤ (b :: bs).length
      · have hbreaks : BreaksOff last (.data b bs :: w) ↔ last = .failed := by
          simp only [BreaksOff, and_iff_left_iff_imp]
          exact fun _ hshort => absurd hwhole (not_le.mpr hshort)
        have hdrops : ∀ stale, Drops stale fd (.data b bs :: w ++ [last]) ↔ last = .failed :=
          drops_whole_iff hlast hw hvalid hcontent hrest hwhole
        rw [hbreaks]
        exact ⟨fun hall => (hdrops allOnes).mp (hall allOnes), fun h stale => (hdrops stale).mpr h⟩
      · exact forall_drops_short_iff hlast hw hvalid hcontent (not_le.mp hwhole)

/-! ## The result -/

/-- **When a request is framed.**  Of a stream that is a length in range and as many bytes, in
whatever pieces it arrives, the handler makes its packet exactly if the first read returns the
whole header.  Of one that breaks off before, it frees the connection and deletes the event exactly
if its first read finds nothing yet, or the stream fails with less behind a first piece of the
header than any length that begins with it. -/
theorem framing_iff (fd : ℕ) {body : List UInt8} (hvalid : ValidLength body.length) :
    (∀ w, Transient w → content w = encode body.length ++ body →
      ((∀ stale, Delivers stale fd w body) ↔ WholeHeader w)) ∧
    (∀ w rest last, Transient w → content w ++ rest = encode body.length ++ body → rest ≠ [] →
      (last = .closed ∨ last = .failed) →
      ((∀ stale, Drops stale fd (w ++ [last])) ↔ BreaksOff last w)) := by
  refine ⟨fun w hw hcontent => ⟨fun hall => ?_, fun hwhole stale => ?_⟩,
    fun w rest last hw hcontent hrest hlast => forall_drops_iff hlast hw hvalid hcontent hrest⟩
  · refine wholeHeader_of_delivers hw ?_ (hall allOnes)
    rintro rfl
    have hlength := congrArg List.length hcontent
    simp only [content, List.length_nil, List.length_append, length_encode] at hlength
    omega
  · exact delivers_of_wholeHeader hw hvalid hcontent hwhole

/-- `framing_iff` for a packet of one byte that comes in two pieces, and for one that fails to
come. -/
theorem framing_iff_sample :
    (∀ stale, Delivers stale 5 [.data 1 [0, 0, 0], .again, .data 7 []] [7]) ∧
    ∀ stale, Drops stale 5 [.data 1 [0, 0, 0], .again, .failed] := by
  have hvalid : ValidLength [(7 : UInt8)].length := by decide
  have htransient : Transient [Arrival.data (1 : UInt8) [0, 0, 0], .again] := by simp [Transient]
  refine ⟨((framing_iff 5 hvalid).1 _ ?_ rfl).mpr ?_,
    ((framing_iff 5 hvalid).2 _ [7] .failed htransient rfl (by simp) (.inr rfl)).mpr ?_⟩
  · simp [Transient]
  · show 4 ≤ 4
    exact le_rfl
  · exact ⟨rfl, fun hshort => absurd hshort (by decide)⟩

/-- **A header in two pieces**: the packet does not come through.  **A stream that is closed behind
its header**: the connection is never freed. -/
theorem header_in_pieces :
    content [.data 1 [0, 0], .data 0 [7]] = encode 1 ++ [7] ∧
    ¬Delivers allOnes 5 [.data 1 [0, 0], .data 0 [7]] [7] ∧
    ¬Drops allOnes 5 [.data 1 [0, 0, 0], .closed] := by
  refine ⟨rfl, fun hdelivers => ?_, fun ⟨t, hserves, _⟩ => ?_⟩
  · have hwhole := wholeHeader_of_delivers (by simp [Transient]) (by simp) hdelivers
    simp [WholeHeader] at hwhole
  · have hlen : packetLen allOnes [1, 0, 0, 0] = 1 := by decide
    have hserves : Serves allOnes (receiving 5 (packetLen allOnes [1, 0, 0, 0]) [] [.closed]) t :=
      (serves_start_iff (by simp) rfl (by decide) (by decide)).mp hserves
    rw [hlen] at hserves
    exact not_serves_receiving_closed one_pos hserves

end TsEngine
