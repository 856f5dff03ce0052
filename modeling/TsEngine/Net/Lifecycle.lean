import TsEngine.Framework.Ownership
import TsEngine.Net.Connections
import TsEngine.Net.Framing

/-!
# The life of a connection

The invariant of the runs of `netSystem`.  A connection is at one `Place` at a time: registered for
reading, in the queue of the pool, with one worker, or registered for writing; or its task was
dropped because the queue was full, and nothing leads to it any more.  What it holds `Fits` its
place and the socket behind its descriptor: what has been read of the request, and how much of the
response has been written.

Most steps touch one connection: `Touch` says what such a step does, and `Inv.touch` that it keeps
the invariant; `Inv.same` is for those that touch none.  `Inv.step` puts the steps together.  They
succeed, and leave closed descriptors alone but for the `epoll_ctl` of an `aeDeleteFileEvent`
(`Strays`), with one exception: a dequeue that has found no task and returns when there is one.
-/

namespace TsEngine

open Framework ReadState

/-! ## Sending -/

/-- **What a call of the write handler sends** is what follows in the packet. -/
lemma sendPacket_spec (packet : NetPacket) (room : List Room) (h : packet.offset ≤ packet.len) :
    (sendPacket packet room).2.1.len = packet.len ∧
    (sendPacket packet room).2.1.data = packet.data ∧
    packet.offset ≤ (sendPacket packet room).2.1.offset ∧
    (sendPacket packet room).2.1.offset ≤ packet.len ∧
    (sendPacket packet room).2.2.2 = (packet.data.drop packet.offset).take
      ((sendPacket packet room).2.1.offset - packet.offset) ∧
    ((sendPacket packet room).1 = .done →
      (sendPacket packet room).2.1.offset = packet.len) := by
  induction room generalizing packet with
  | nil =>
      unfold sendPacket
      split_ifs with hlt
      · simp [h]
      · have heq : packet.offset = packet.len := by omega
        simp [heq]
  | cons r room ih =>
      unfold sendPacket
      split_ifs with hlt
      · cases r with
        | again => simp [h]
        | failed => simp [h]
        | bytes more =>
            obtain ⟨written, hwritten⟩ :
                ∃ n, n = min (more + 1) (packet.len - packet.offset) := ⟨_, rfl⟩
            have hle : packet.offset + written ≤ packet.len := by omega
            have hrest := ih ⟨packet.len, packet.offset + written, packet.data⟩ hle
            dsimp only at hrest ⊢
            rw [← hwritten]
            generalize sendPacket ⟨packet.len, packet.offset + written, packet.data⟩ room = r
              at hrest ⊢
            obtain ⟨e, packet', room', sent⟩ := r
            obtain ⟨hlen, hdata, hoff, hoff', hsent, hdone⟩ := hrest
            dsimp only at hoff hsent ⊢
            refine ⟨hlen, hdata, by omega, hoff', ?_, hdone⟩
            rw [hsent, ← List.drop_drop, ← List.take_add]
            congr 1
            omega
      · have heq : packet.offset = packet.len := by omega
        exact ⟨rfl, rfl, le_rfl, h, by simp, fun _ => heq⟩

/-- What has been sent, and what a call adds to it. -/
lemma take_append_sendPacket (packet : NetPacket) (room : List Room)
    (h : packet.offset ≤ packet.len) :
    packet.data.take packet.offset ++ (sendPacket packet room).2.2.2 =
      packet.data.take (sendPacket packet room).2.1.offset := by
  obtain ⟨-, -, hoff, -, hsent, -⟩ := sendPacket_spec packet room h
  rw [hsent, ← List.take_add]
  congr 1
  omega

/-! ## Receiving -/

section Receive

variable (stale : Stale) (fd : ℕ) (w : List (Arrival UInt8)) {len : ℕ} {got : List UInt8}

/-- **A call of the read handler** for a packet of which `got` is there gives the connection up, or
appends what follows in the stream. -/
lemma onReadHandler_receiving (hlt : got.length < len) :
    ∃ r, (receiving fd len got w).onReadHandler stale = .ok r ∧ (r.conn = none ∨
      ∃ more, content w = more ++ content r.wire ∧
        ((got ++ more).length < len ∧ r = receiving fd len (got ++ more) r.wire ∨
          r = received fd (got ++ more) r.wire)) := by
  have hstays : ∀ w', content w = content w' →
      content w = [] ++ content (receiving fd len got w').wire ∧
        ((got ++ []).length < len ∧ receiving fd len got w' =
          receiving fd len (got ++ []) (receiving fd len got w').wire ∨
          receiving fd len got w' = received fd (got ++ []) (receiving fd len got w').wire) :=
    fun w' hw' => ⟨hw', .inl ⟨by simpa using hlt, by simp [receiving]⟩⟩
  cases w with
  | nil => exact ⟨receiving fd len got [], rfl, .inr ⟨[], hstays [] rfl⟩⟩
  | cons a w =>
      cases a with
      | again => exact ⟨receiving fd len got w, rfl, .inr ⟨[], hstays w rfl⟩⟩
      | failed => exact ⟨givenUp (.failed :: w), rfl, .inl rfl⟩
      | closed =>
          refine ⟨receiving fd len got (.closed :: w), ?_, .inr ⟨[], hstays _ rfl⟩⟩
          simp only [onReadHandler, receiving, receive, Arrival.read, reduceCtorEq, if_false]
          rw [fill_receiving (by simp; omega)]
          simp [hlt.ne']
      | data b bs =>
          by_cases hfits : got.length + (b :: bs).length < len
          · exact ⟨_, onReadHandler_data hfits, .inr ⟨b :: bs, rfl,
              .inl ⟨by rw [List.length_append]; exact hfits, rfl⟩⟩⟩
          · refine ⟨_, onReadHandler_complete hlt (by omega), .inr
              ⟨(b :: bs).take (len - got.length), ?_, .inr rfl⟩⟩
            show _ = _ ++ content (refill _ _)
            rw [content_refill, ← List.append_assoc, List.take_append_drop]
            rfl

/-- The first call reads the header, and goes on with an empty packet. -/
lemma onReadHandler_start :
    ∃ r, (ReadState.start fd w).onReadHandler stale = .ok r ∧ (r.conn = none ∨
      ∃ hdr w' len, hdr.length ≤ 4 ∧ 0 < len ∧ content w = hdr ++ content w' ∧
        (receiving fd len [] w').onReadHandler stale = .ok r) := by
  have hgiven : ∀ w', ∃ r, Except.ok (ε := ReadFault) (givenUp w') = .ok r ∧ (r.conn = none ∨
      ∃ hdr w' len, hdr.length ≤ 4 ∧ 0 < len ∧ content w = hdr ++ content w' ∧
        (receiving fd len [] w').onReadHandler stale = .ok r) := fun w' => ⟨_, rfl, .inl rfl⟩
  have hread : ∀ hdr {w'}, Arrival.read 4 w = (.bytes hdr, w') → hdr.length ≤ 4 →
      content w = hdr ++ content w' → ∃ r, (ReadState.start fd w).onReadHandler stale = .ok r ∧
        (r.conn = none ∨ ∃ hdr w' len, hdr.length ≤ 4 ∧ 0 < len ∧ content w = hdr ++ content w' ∧
          (receiving fd len [] w').onReadHandler stale = .ok r) := by
    intro hdr w' hw hlen hcontent
    by_cases hbad : toInt32 (decode (hdr ++ stale.1.drop hdr.length)) ≤ 0 ∨
        maxPacketSize < toInt32 (decode (hdr ++ stale.1.drop hdr.length))
    · refine ⟨givenUp w', ?_, .inl rfl⟩
      simp [onReadHandler, ReadState.start, Connection.new, hw, hbad, givenUp, close]
    · have hpos : 0 < decode (hdr ++ stale.1.drop hdr.length) := by
        by_contra hzero
        refine hbad (.inl ?_)
        rw [Nat.eq_zero_of_not_pos hzero]
        decide
      obtain ⟨r, hr, -⟩ := onReadHandler_receiving stale fd w' (show [].length < _ from hpos)
      refine ⟨r, ?_, .inr ⟨hdr, w', _, hlen, hpos, hcontent, hr⟩⟩
      rw [← hr]
      simp only [onReadHandler, ReadState.start, Connection.new, hw, hbad, if_true, if_false,
        receiving, reduceCtorEq, List.length_nil, Nat.sub_zero, List.nil_append]
      rfl
  cases w with
  | nil => exact hgiven _
  | cons a w =>
      cases a with
      | again => exact hgiven _
      | failed => exact hgiven _
      | closed => exact hread [] rfl (by simp) rfl
      | data b bs =>
          refine hread _ rfl (List.length_take_le _ _) ?_
          rw [content_refill, ← List.append_assoc, List.take_append_drop]
          rfl

end Receive

/-! ## Places -/

/-- Where a connection may be. -/
inductive Place
  | readEvent (fd : Fd)
  | tasks
  | processing (w : ThreadId)
  | registering (w : ThreadId)
  | writeEvent (fd : Fd)
  | lost

/-- A history of the server. -/
abbrev NetHistory := List (NetServer × NetStep)

/-- The answers of a history, oldest first. -/
def answers (l : NetHistory) : List Answer := System.notes answeredBy l

/-- The connections whose tasks were dropped. -/
def lost (maxTasks : ℕ) (l : NetHistory) : List ConnPtr := System.notes (lostBy maxTasks) l

/-- The sockets whose responses were written to the end. -/
def finished (l : NetHistory) : List SocketId := System.notes finishedBy l

/-- The place `k` leads to the connection at `p`.  While the loop is about to delete a read event,
that event leads nowhere. -/
def At (s : NetServer) (gone : List ConnPtr) : Place → ConnPtr → Prop
  | .readEvent fd, p => s.loop ≠ .deleting fd ∧ (s.events fd).readable = true ∧
      (s.events fd).clientData = some p
  | .tasks, p => p ∈ s.tasks
  | .processing w, p => s.workers w = .processing p
  | .registering w, p => s.workers w = .registering p
  | .writeEvent fd, p => (s.events fd).writable = true ∧ (s.events fd).clientData = some p
  | .lost, p => p ∈ gone

/-- The bytes `request` came over the socket behind a header, or what the first read got of it. -/
def Asked (socket : Socket) (request : List UInt8) : Prop :=
  ∃ hdr rest, hdr.length ≤ 4 ∧ content socket.stream = hdr ++ request ++ rest

/-- Nothing has been answered on the socket. -/
def Unanswered (ans : List Answer) (n : SocketId) (socket : Socket) : Prop :=
  socket.sent = [] ∧ ∀ a ∈ ans, a.socket ≠ n

/-- A connection that is being read. -/
def Reading (ans : List Answer) (n : SocketId) (socket : Socket) (conn : Connection) : Prop :=
  Unanswered ans n socket ∧
    (conn = .new conn.sockfd ∧ content socket.stream = content socket.wire ∨
      ∃ hdr got len, hdr.length ≤ 4 ∧ got.length < len ∧
        (receiving conn.sockfd len got socket.wire).conn = some conn ∧
        content socket.stream = hdr ++ got ++ content socket.wire)

/-- A connection whose request is complete. -/
def Complete (ans : List Answer) (n : SocketId) (socket : Socket) (conn : Connection) : Prop :=
  Unanswered ans n socket ∧ ∃ data, Asked socket data ∧
    (received conn.sockfd data socket.wire).conn = some conn

/-- A connection with a response, of which a part has been sent. -/
def Sending (ans : List Answer) (n : SocketId) (socket : Socket) (conn : Connection) : Prop :=
  conn.status = .sending ∧ ∃ a ∈ ans, a.socket = n ∧ ∃ packet, conn.packet = some packet ∧
    a.response = some packet.data ∧ packet.len = packet.data.length ∧
    packet.offset ≤ packet.len ∧ socket.sent = packet.data.take packet.offset

/-- What a connection is like at its place. -/
def Fits (ans : List Answer) (n : SocketId) (socket : Socket) : Place → Connection → Prop
  | .readEvent fd, conn => conn.sockfd = fd ∧ Reading ans n socket conn
  | .tasks, conn | .processing _, conn | .lost, conn => Complete ans n socket conn
  | .registering _, conn => Sending ans n socket conn
  | .writeEvent fd, conn => conn.sockfd = fd ∧ Sending ans n socket conn

/-- Answers on other sockets make no difference. -/
lemma Fits.mono {ans new : List Answer} {n : SocketId} {socket : Socket} {k : Place}
    {conn : Connection} (h : Fits ans n socket k conn) (hnew : ∀ a ∈ new, a.socket ≠ n) :
    Fits (ans ++ new) n socket k conn := by
  have hun : Unanswered ans n socket → Unanswered (ans ++ new) n socket := fun hu =>
    ⟨hu.1, fun a ha => (List.mem_append.mp ha).elim (hu.2 a) (hnew a)⟩
  have hsend : Sending ans n socket conn → Sending (ans ++ new) n socket conn := by
    rintro ⟨hstatus, a, ha, hrest⟩
    exact ⟨hstatus, a, List.mem_append_left _ ha, hrest⟩
  cases k with
  | readEvent fd => exact ⟨h.1, hun h.2.1, h.2.2⟩
  | tasks => exact ⟨hun h.1, h.2⟩
  | processing w => exact ⟨hun h.1, h.2⟩
  | registering w => exact hsend h
  | writeEvent fd => exact ⟨h.1, hsend h.2⟩
  | lost => exact ⟨hun h.1, h.2⟩

/-! ## The invariant -/

/-- What holds after the history `l`. -/
structure Inv (maxTasks : ℕ) (l : NetHistory) (s : NetServer) : Prop where
  /-- A live connection is at one place, and a place leads to a live connection. -/
  owned : Owned (At s (lost maxTasks l)) fun p => (s.conns p).isSome = true
  fits : ∀ {k p conn}, At s (lost maxTasks l) k p → s.conns p = some conn →
    ∃ n socket, s.fds conn.sockfd = some n ∧ s.sockets n = some socket ∧
      Fits (answers l) n socket k conn
  /-- No two connections share a descriptor. -/
  apart : ∀ {p q c d}, s.conns p = some c → s.conns q = some d → c.sockfd = d.sockfd → p = q
  /-- A connection has had an event, so its descriptor is one of the table. -/
  below : ∀ {p conn}, s.conns p = some conn → conn.sockfd < eventLoopSize
  /-- No two descriptors share a socket. -/
  ids : ∀ {fd fd' n}, s.fds fd = some n → s.fds fd' = some n → fd = fd'
  known : ∀ {fd n}, s.fds fd = some n → (s.sockets n).isSome = true
  /-- A descriptor is open for a connection, unless it is `0`. -/
  opened : ∀ {fd n}, s.fds fd = some n → fd ≠ 0 → ∃ p conn, s.conns p = some conn ∧ conn.sockfd = fd
  /-- Only descriptors below the size of the table have events. -/
  small : ∀ {fd}, (s.events fd).readable = true ∨ (s.events fd).writable = true →
    fd < eventLoopSize ∧ (s.events fd).clientData.isSome = true
  nodup : s.tasks.Nodup
  /-- A socket is answered once. -/
  once : ((answers l).map Answer.socket).Nodup
  /-- What is answered has been asked. -/
  asked : ∀ a ∈ answers l, ∃ socket, s.sockets a.socket = some socket ∧ Asked socket a.request
  /-- What is sent is the answer, as far as it has got. -/
  replies : ∀ {n socket}, s.sockets n = some socket → socket.sent = [] ∨
    ∃ a ∈ answers l, a.socket = n ∧ ∃ data, a.response = some data ∧ socket.sent <+: data
  complete : ∀ n ∈ finished l, (∃ socket, s.sockets n = some socket ∧ ∃ a ∈ answers l,
    a.socket = n ∧ a.response = some socket.sent) ∧
      ∀ {p conn}, s.conns p = some conn → s.fds conn.sockfd ≠ some n

/-- The step leaves the descriptors alone that are not open, but for an `aeDeleteFileEvent` of the
loop: that may call `epoll_ctl` with a descriptor that was closed before. -/
def Strays (s : NetServer) (a : NetStep) (s' : NetServer) : Prop :=
  s'.ebadf = s.ebadf ∨ ∃ fd, s.Unregisters fd a ∧ s'.ebadf = s.ebadf ++ [fd] ∧ s'.fds fd = none

/-- What a step does that touches one connection, `p`, and its socket, `n`: `after` is where the
connection is then, if it is not freed, `new` the answer that is given, and `fin` says whether the
response is out. -/
structure Touch (maxTasks : ℕ) (l l' : NetHistory) (s s' : NetServer) (p : ConnPtr)
    (conn : Connection) (n : SocketId) (socket socket' : Socket)
    (after : Option (Place × Connection)) (new : List Answer) (fin : List SocketId) : Prop where
  conn_eq : s.conns p = some conn
  fd_eq : s.fds conn.sockfd = some n
  socket_eq : s.sockets n = some socket
  conns : s'.conns = Function.update s.conns p (after.map Prod.snd)
  sockets : s'.sockets = Function.update s.sockets n (some socket')
  fds : s'.fds = if after.isSome = true ∨ conn.sockfd = 0 then s.fds
    else Function.update s.fds conn.sockfd none
  stream : socket'.stream = socket.stream
  sockfd : ∀ q ∈ after, q.2.sockfd = conn.sockfd
  moves : Moves p (after.map Prod.fst) (At s (lost maxTasks l)) (At s' (lost maxTasks l'))
  fits : ∀ q ∈ after, Fits (answers l') n socket' q.1 q.2
  small : ∀ {fd}, (s'.events fd).readable = true ∨ (s'.events fd).writable = true →
    fd < eventLoopSize ∧ (s'.events fd).clientData.isSome = true
  nodup : s'.tasks.Nodup
  answers_eq : answers l' = answers l ++ new
  new_eq : new = [] ∨ ∃ a, new = [a] ∧ a.socket = n ∧ (∀ a' ∈ answers l, a'.socket ≠ n) ∧
    Asked socket a.request
  reply : socket'.sent = [] ∨ ∃ a ∈ answers l', a.socket = n ∧ ∃ data, a.response = some data ∧
    socket'.sent <+: data
  finished_eq : finished l' = finished l ++ fin
  fin_eq : fin = [] ∨ fin = [n] ∧ after = none ∧ ∃ a ∈ answers l', a.socket = n ∧
    a.response = some socket'.sent

section Touching

variable {maxTasks : ℕ} {l l' : NetHistory} {s s' : NetServer} {p q : ConnPtr}
  {conn c d : Connection} {n m : SocketId} {socket socket' sk : Socket} {fd : Fd}
  {after : Option (Place × Connection)} {new : List Answer} {fin : List SocketId}

lemma Touch.socket_new (t : Touch maxTasks l l' s s' p conn n socket socket' after new fin) :
    ∀ a ∈ new, a.socket = n := by
  intro a ha
  rcases t.new_eq with rfl | ⟨a', rfl, hsocket, -⟩
  · simp at ha
  · rw [List.mem_singleton.mp ha, hsocket]

/-- A descriptor that is open afterwards was open. -/
lemma Touch.fds_of (t : Touch maxTasks l l' s s' p conn n socket socket' after new fin)
    (hfd : s'.fds fd = some m) :
    s.fds fd = some m ∧ (after = none → fd = conn.sockfd → fd = 0) := by
  rw [t.fds] at hfd
  split_ifs at hfd with hkeep
  · refine ⟨hfd, fun hnone heq => ?_⟩
    rcases hkeep with hsome | hzero
    · simp [hnone] at hsome
    · exact heq.trans hzero
  · by_cases heq : fd = conn.sockfd
    · subst heq
      simp at hfd
    · rw [Function.update_of_ne heq] at hfd
      exact ⟨hfd, fun _ heq' => absurd heq' heq⟩

/-- The descriptors of the others stay. -/
lemma Touch.fds_ne (t : Touch maxTasks l l' s s' p conn n socket socket' after new fin)
    (hne : fd ≠ conn.sockfd) : s'.fds fd = s.fds fd := by
  rw [t.fds]
  split_ifs
  · rfl
  · exact Function.update_of_ne hne _ _

/-- The other connections stay. -/
lemma Touch.conns_ne (t : Touch maxTasks l l' s s' p conn n socket socket' after new fin)
    (hne : q ≠ p) : s'.conns q = s.conns q := by
  rw [t.conns, Function.update_of_ne hne]

/-- What becomes of the connection. -/
lemma Touch.conns_self (t : Touch maxTasks l l' s s' p conn n socket socket' after new fin) :
    s'.conns p = after.map Prod.snd := by
  rw [t.conns, Function.update_self]

/-- A socket afterwards has the stream that it had. -/
lemma Touch.socket_of (t : Touch maxTasks l l' s s' p conn n socket socket' after new fin)
    (hm : s.sockets m = some sk) : ∃ sk', s'.sockets m = some sk' ∧ sk'.stream = sk.stream ∧
      (m ≠ n → sk' = sk) := by
  rw [t.sockets]
  by_cases heq : m = n
  · subst heq
    obtain rfl : socket = sk := Option.some.inj (t.socket_eq.symm.trans hm)
    exact ⟨socket', Function.update_self .., t.stream, fun h => absurd rfl h⟩
  · exact ⟨sk, (Function.update_of_ne heq _ _).trans hm, rfl, fun _ => rfl⟩

/-- What is asked for depends on the stream only. -/
lemma Asked.of_stream {request : List UInt8} (h : Asked socket request)
    (hstream : socket'.stream = socket.stream) : Asked socket' request := by
  unfold Asked
  rw [hstream]
  exact h

/-- **A step that touches one connection** keeps the invariant. -/
lemma Inv.touch (h : Inv maxTasks l s) (after : Option (Place × Connection))
    (fin : List SocketId) (t : Touch maxTasks l l' s s' p conn n socket socket' after new fin) :
    Inv maxTasks l' s' where
  owned := by
    refine h.owned.move t.moves ?_ fun q hne => by rw [t.conns_ne hne]
    rw [t.conns_self]
    cases after <;> simp
  fits {k q c} hat hc := by
    by_cases heq : q = p
    · subst heq
      have hk := (t.moves.1 k).mp hat
      rw [t.conns_self] at hc
      cases after with
      | none => simp at hc
      | some r =>
          obtain rfl : r.1 = k := Option.some.inj hk
          obtain rfl : r.2 = c := Option.some.inj hc
          refine ⟨n, socket', ?_, ?_, t.fits r rfl⟩
          · rw [t.fds, if_pos (.inl rfl), t.sockfd r rfl]
            exact t.fd_eq
          · rw [t.sockets, Function.update_self]
    · rw [t.conns_ne heq] at hc
      obtain ⟨m, sk, hm, hsk, hfits⟩ := h.fits ((t.moves.2 k q heq).mp hat) hc
      have hfd : c.sockfd ≠ conn.sockfd := fun hsame => heq (h.apart hc t.conn_eq hsame)
      have hmn : m ≠ n := fun hsame => hfd (h.ids hm (hsame ▸ t.fd_eq))
      refine ⟨m, sk, (t.fds_ne hfd).trans hm, ?_, ?_⟩
      · rw [t.sockets, Function.update_of_ne hmn]
        exact hsk
      · rw [t.answers_eq]
        refine hfits.mono fun a ha hsame => hmn ?_
        rw [← hsame, t.socket_new a ha]
  apart {q q' c d} hc hd hsame := by
    have hold : ∀ {q c}, s'.conns q = some c → ∃ c', s.conns q = some c' ∧
        c'.sockfd = c.sockfd := by
      intro q c hc
      by_cases heq : q = p
      · subst heq
        rw [t.conns_self] at hc
        obtain ⟨r, hr, rfl⟩ := Option.map_eq_some_iff.mp hc
        exact ⟨conn, t.conn_eq, (t.sockfd r hr).symm⟩
      · exact ⟨c, (t.conns_ne heq) ▸ hc, rfl⟩
    obtain ⟨c', hc', hfd⟩ := hold hc
    obtain ⟨d', hd', hfd'⟩ := hold hd
    exact h.apart hc' hd' (hfd.trans (hsame.trans hfd'.symm))
  below {q c} hc := by
    by_cases heq : q = p
    · subst heq
      rw [t.conns_self] at hc
      obtain ⟨r, hr, rfl⟩ := Option.map_eq_some_iff.mp hc
      rw [t.sockfd r hr]
      exact h.below t.conn_eq
    · exact h.below ((t.conns_ne heq) ▸ hc)
  ids hfd hfd' := h.ids (t.fds_of hfd).1 (t.fds_of hfd').1
  known hfd := by
    obtain ⟨sk, hsk⟩ := Option.isSome_iff_exists.mp (h.known (t.fds_of hfd).1)
    obtain ⟨sk', hsk', -⟩ := t.socket_of hsk
    rw [hsk']
    rfl
  opened {fd m} hfd hzero := by
    obtain ⟨hold, hgone⟩ := t.fds_of hfd
    obtain ⟨q, c, hc, hsame⟩ := h.opened hold hzero
    by_cases heq : q = p
    · subst heq
      obtain rfl : conn = c := Option.some.inj (t.conn_eq.symm.trans hc)
      cases after with
      | none => exact absurd (hgone rfl hsame.symm) hzero
      | some r => exact ⟨q, r.2, t.conns_self, (t.sockfd r rfl).trans hsame⟩
    · exact ⟨q, c, (t.conns_ne heq).trans hc, hsame⟩
  small := t.small
  nodup := t.nodup
  once := by
    rw [t.answers_eq, List.map_append]
    rcases t.new_eq with rfl | ⟨a, rfl, hsocket, hnone, -⟩
    · simpa using h.once
    · refine List.nodup_append.mpr ⟨h.once, by simp, ?_⟩
      intro m hm m' hm' heq
      obtain ⟨a', ha', rfl⟩ := List.mem_map.mp hm
      simp only [List.map_cons, List.map_nil, List.mem_singleton] at hm'
      exact hnone a' ha' (heq.trans (hm'.trans hsocket))
  asked a ha := by
    rw [t.answers_eq] at ha
    rcases List.mem_append.mp ha with ha | ha
    · obtain ⟨sk, hsk, hasked⟩ := h.asked a ha
      obtain ⟨sk', hsk', hstream, -⟩ := t.socket_of hsk
      exact ⟨sk', hsk', hasked.of_stream hstream⟩
    · rcases t.new_eq with rfl | ⟨a', rfl, hsocket, -, hasked⟩
      · simp at ha
      · obtain rfl := List.mem_singleton.mp ha
        refine ⟨socket', ?_, hasked.of_stream t.stream⟩
        rw [t.sockets, hsocket, Function.update_self]
  replies {m sk} hm := by
    by_cases heq : m = n
    · subst heq
      rw [t.sockets, Function.update_self] at hm
      obtain rfl := Option.some.inj hm
      exact t.reply
    · rw [t.sockets, Function.update_of_ne heq] at hm
      rcases h.replies hm with hnil | ⟨a, ha, hsocket, hrest⟩
      · exact .inl hnil
      · exact .inr ⟨a, t.answers_eq ▸ List.mem_append_left _ ha, hsocket, hrest⟩
  complete m hm := by
    rw [t.finished_eq] at hm
    rcases List.mem_append.mp hm with hm | hm
    · obtain ⟨⟨sk, hsk, a, ha, hrest⟩, hnone⟩ := h.complete m hm
      have hmn : m ≠ n := fun hsame => hnone t.conn_eq (hsame ▸ t.fd_eq)
      refine ⟨⟨sk, ?_, a, t.answers_eq ▸ List.mem_append_left _ ha, hrest⟩, ?_⟩
      · rw [t.sockets, Function.update_of_ne hmn]
        exact hsk
      · intro q c hc hfd
        by_cases heq : q = p
        · subst heq
          rw [t.conns_self] at hc
          obtain ⟨r, hr, rfl⟩ := Option.map_eq_some_iff.mp hc
          have hold := (t.fds_of hfd).1
          rw [t.sockfd r hr, t.fd_eq] at hold
          exact hmn (Option.some.inj hold).symm
        · exact hnone ((t.conns_ne heq) ▸ hc) (t.fds_of hfd).1
    · rcases t.fin_eq with rfl | ⟨rfl, rfl, a, ha, hrest⟩
      · simp at hm
      · obtain rfl := List.mem_singleton.mp hm
        refine ⟨⟨socket', ?_, a, ha, hrest⟩, ?_⟩
        · rw [t.sockets, Function.update_self]
        · intro q c hc hfd
          by_cases heq : q = p
          · subst heq
            rw [t.conns_self] at hc
            simp at hc
          · rw [t.conns_ne heq] at hc
            exact heq (h.apart hc t.conn_eq (h.ids (t.fds_of hfd).1 t.fd_eq))

end Touching

/-! ## The steps -/

section Steps

variable {maxTasks : ℕ} {l : NetHistory} {s s' : NetServer} {a : NetStep} {p q : ConnPtr}
  {conn : Connection} {n : SocketId} {socket : Socket} {fd : Fd} {w : ThreadId} {k : Place}

/-- What a step adds to the answers. -/
lemma answers_cons : answers ((s, a) :: l) = answers l ++ (answeredBy (s, a)).toList :=
  System.notes_cons _ _ _

lemma lost_cons :
    lost maxTasks ((s, a) :: l) = lost maxTasks l ++ (lostBy maxTasks (s, a)).toList :=
  System.notes_cons _ _ _

lemma finished_cons : finished ((s, a) :: l) = finished l ++ (finishedBy (s, a)).toList :=
  System.notes_cons _ _ _

/-- Freeing a connection closes its descriptor. -/
lemma connectionFree_eq (hc : s.conns p = some conn) (hn : s.fds conn.sockfd = some n) :
    s.connectionFree p = .ok { s with
      conns := Function.update s.conns p none
      fds := if conn.sockfd = 0 then s.fds else Function.update s.fds conn.sockfd none } := by
  simp only [NetServer.connectionFree, hc, hn]
  split_ifs <;> rfl

/-- Creating an event on a descriptor that is open. -/
lemma createFileEvent_eq (mask : EventMask) (added : Bool) (hn : s.fds fd = some n) :
    s.createFileEvent fd mask p added =
      if eventLoopSize ≤ fd ∨ added = false then (s, false)
      else ({ s with events := Function.update s.events fd ((s.events fd).create p mask) },
        true) := by
  have hopen : s.epollCtl fd = (s, true) := by
    rw [NetServer.epollCtl, hn]
    rfl
  rw [NetServer.createFileEvent, hopen]
  by_cases hbig : eventLoopSize ≤ fd
  · rw [if_pos hbig, if_pos (.inl hbig)]
  · by_cases hadded : added = false
    · rw [if_neg hbig, if_pos (.inr hadded)]
      exact if_pos hadded
    · rw [if_neg hbig, if_neg (by simp [hbig, hadded])]
      exact if_neg hadded

/-- **Deleting an event.**  If its descriptor is not open, the `epoll_ctl` fails, and the event is
deleted nevertheless. -/
lemma deleteFileEvent_eq (fd : Fd) (mask : EventMask) (hsmall : (s.events fd).readable = true ∨
    (s.events fd).writable = true → fd < eventLoopSize) :
    ∃ ebadf, s.deleteFileEvent fd mask = { s with
      events := Function.update s.events fd ((s.events fd).delete mask)
      ebadf := ebadf } ∧ (ebadf = s.ebadf ∨ ebadf = s.ebadf ++ [fd] ∧ s.fds fd = none) := by
  by_cases hnone : (s.events fd).readable = false ∧ (s.events fd).writable = false
  · have hsame : (s.events fd).delete mask = s.events fd := by
      cases mask with
      | readable => rw [FileEvent.delete, ← hnone.1]
      | writable => rw [FileEvent.delete, ← hnone.2]
    refine ⟨s.ebadf, ?_, .inl rfl⟩
    rw [hsame, Function.update_eq_self, NetServer.deleteFileEvent]
    split_ifs <;> rfl
  · have hlt : fd < eventLoopSize := by
      refine hsmall ?_
      rwa [not_and_or, Bool.not_eq_false, Bool.not_eq_false] at hnone
    simp only [NetServer.deleteFileEvent, if_neg (not_le.mpr hlt), if_neg hnone,
      NetServer.epollCtl]
    cases hopen : s.fds fd with
    | none => exact ⟨s.ebadf ++ [fd], rfl, .inr ⟨rfl, rfl⟩⟩
    | some n => exact ⟨s.ebadf, rfl, .inl rfl⟩

/-- The label `failed`. -/
lemma abandon_eq (mask : EventMask) (hc : s.conns p = some conn)
    (hn : s.fds conn.sockfd = some n) (hsmall : fd < eventLoopSize) :
    ∃ ebadf, s.abandon fd mask p = .ok { s with
      conns := Function.update s.conns p none
      fds := if conn.sockfd = 0 then s.fds else Function.update s.fds conn.sockfd none
      events := Function.update s.events fd ((s.events fd).delete mask)
      ebadf := ebadf } ∧ (ebadf = s.ebadf ∨ ebadf = s.ebadf ++ [fd] ∧
        (if conn.sockfd = 0 then s.fds else Function.update s.fds conn.sockfd none) fd = none) := by
  obtain ⟨ebadf, hdelete, hstrays⟩ := deleteFileEvent_eq (s := { s with
    conns := Function.update s.conns p none
    fds := if conn.sockfd = 0 then s.fds else Function.update s.fds conn.sockfd none })
    fd mask fun _ => hsmall
  refine ⟨ebadf, ?_, hstrays⟩
  rw [NetServer.abandon, connectionFree_eq hc hn]
  exact congrArg Except.ok hdelete

/-- What an event leads to. -/
lemma Inv.client (h : Inv maxTasks l s) (hat : At s (lost maxTasks l) k p)
    (hdata : (s.events fd).clientData = some p) :
    ∃ conn n socket, s.conns p = some conn ∧ s.fds conn.sockfd = some n ∧
      s.sockets n = some socket ∧ Fits (answers l) n socket k conn ∧
      s.client fd = .ok (p, conn, n, socket) := by
  obtain ⟨conn, hc⟩ := Option.isSome_iff_exists.mp (h.owned.lives hat)
  obtain ⟨n, socket, hn, hsocket, hfits⟩ := h.fits hat hc
  refine ⟨conn, n, socket, hc, hn, hsocket, hfits, ?_⟩
  simp only [NetServer.client, hdata, hc, hn, hsocket]

/-- A call of the read handler, whatever has been read before. -/
lemma Reading.onReadHandler {ans : List Answer} (h : Reading ans n socket conn) (stale : Stale) :
    ∃ r, ReadState.onReadHandler stale ⟨some conn, socket.wire, true, []⟩ = .ok r ∧
      (r.conn = none ∨ ∃ conn', r.conn = some conn' ∧ conn'.sockfd = conn.sockfd ∧
        (r.readable = true ∧ Reading ans n { socket with wire := r.wire } conn' ∨
          r.readable = false ∧ Complete ans n { socket with wire := r.wire } conn')) := by
  obtain ⟨hun, hread⟩ := h
  -- what the two kinds of calls have in common, behind the header `hdr`
  have hrest : ∀ {hdr} got {len w'}, hdr.length ≤ 4 → got.length < len →
      content socket.stream = hdr ++ got ++ content w' →
      ∃ r, (receiving conn.sockfd len got w').onReadHandler stale = .ok r ∧
        (r.conn = none ∨ ∃ conn', r.conn = some conn' ∧ conn'.sockfd = conn.sockfd ∧
          (r.readable = true ∧ Reading ans n { socket with wire := r.wire } conn' ∨
            r.readable = false ∧ Complete ans n { socket with wire := r.wire } conn')) := by
    intro hdr got len w' hhdr hlt hstream
    obtain ⟨r, hr, hnone | ⟨more, hmore, hkind⟩⟩ := onReadHandler_receiving stale
      conn.sockfd w' hlt
    · exact ⟨r, hr, .inl hnone⟩
    · have hstream' : content socket.stream = hdr ++ (got ++ more) ++ content r.wire := by
        rw [hstream, hmore]
        simp
      refine ⟨r, hr, .inr ?_⟩
      rcases hkind with ⟨hlt', heq⟩ | heq
      · rw [heq]
        exact ⟨_, rfl, rfl,
          .inl ⟨rfl, hun, .inr ⟨hdr, got ++ more, len, hhdr, hlt', rfl, hstream'⟩⟩⟩
      · rw [heq]
        exact ⟨_, rfl, rfl,
          .inr ⟨rfl, hun, got ++ more, ⟨hdr, content r.wire, hhdr, hstream'⟩, rfl⟩⟩
  rcases hread with ⟨hconn, hstream⟩ | ⟨hdr, got, len, hhdr, hlt, hconn, hstream⟩
  · obtain ⟨r, hr, hnone | ⟨hdr, w', len, hhdr, hpos, hw, hr'⟩⟩ := onReadHandler_start
      stale conn.sockfd socket.wire
    · exact ⟨r, hconn ▸ hr, .inl hnone⟩
    · obtain ⟨r', hok, hcases⟩ := hrest [] hhdr hpos (by simpa [hstream] using hw)
      obtain rfl := Except.ok.inj (hok.symm.trans hr')
      exact ⟨r', hconn ▸ hr, hcases⟩
  · have hstate : (⟨some conn, socket.wire, true, []⟩ : ReadState) =
        receiving conn.sockfd len got socket.wire := by
      rw [← hconn]
      rfl
    rw [hstate]
    exact hrest got hhdr hlt hstream

/-- Deleting the read event takes the connection out of its place. -/
lemma at_delete_readable {t : NetServer} {gone : List ConnPtr} (hloop : s.loop = .polling)
    (hdata : (s.events fd).clientData = some p) (ht : t.loop = s.loop ∧ t.tasks = s.tasks ∧
      t.workers = s.workers ∧
      t.events = Function.update s.events fd ((s.events fd).delete .readable)) (k : Place)
    (q : ConnPtr) : At t gone k q ↔ At s gone k q ∧ (k = .readEvent fd → q ≠ p) ∨
      (none : Option Place) = some k ∧ q = p := by
  obtain ⟨hl, htasks, hworkers, hevents⟩ := ht
  simp only [reduceCtorEq, false_and, or_false]
  cases k with
  | readEvent fd' =>
      simp only [At, hl, hloop, hevents]
      by_cases heq : fd' = fd
      · subst heq
        simp only [Function.update_self, FileEvent.delete, Bool.false_eq_true, false_and,
          and_false, false_iff]
        rintro ⟨⟨-, -, hq⟩, hne⟩
        exact hne trivial (Option.some.inj (hq.symm.trans hdata))
      · rw [Function.update_of_ne heq]
        simp [heq]
  | writeEvent fd' =>
      simp only [At, hevents]
      by_cases heq : fd' = fd
      · subst heq
        simp [FileEvent.delete]
      · rw [Function.update_of_ne heq]
        simp
  | tasks => simp [At, htasks]
  | processing w => simp [At, hworkers]
  | registering w => simp [At, hworkers]
  | lost => simp [At]

/-- The read handler hands the connection over, or loses it, behind its push. -/
lemma at_push {t : NetServer} {gone gone' : List ConnPtr} {b : Place} (hloop : s.loop = .polling)
    (hdata : (s.events fd).clientData = some p)
    (ht : t.loop = .deleting fd ∧ t.workers = s.workers ∧ t.events = s.events)
    (hb : b = .tasks ∧ t.tasks = s.tasks ++ [p] ∧ gone' = gone ∨
      b = .lost ∧ t.tasks = s.tasks ∧ gone' = gone ++ [p]) (k : Place) (q : ConnPtr) :
    At t gone' k q ↔ At s gone k q ∧ (k = .readEvent fd → q ≠ p) ∨ some b = some k ∧ q = p := by
  obtain ⟨hl, hworkers, hevents⟩ := ht
  cases k with
  | readEvent fd' =>
      have hne : some b ≠ some (.readEvent fd') := by
        rcases hb with ⟨rfl, -⟩ | ⟨rfl, -⟩ <;> simp
      simp only [At, hl, hloop, hevents, hne, false_and, or_false]
      by_cases heq : fd' = fd
      · subst heq
        simp only [ne_eq, not_true_eq_false, false_and, false_iff]
        rintro ⟨⟨-, -, hq⟩, hne⟩
        exact hne trivial (Option.some.inj (hq.symm.trans hdata))
      · simp [heq, Ne.symm heq]
  | writeEvent fd' => rcases hb with ⟨rfl, -⟩ | ⟨rfl, -⟩ <;> simp [At, hevents]
  | tasks => rcases hb with ⟨rfl, htasks, -⟩ | ⟨rfl, htasks, -⟩ <;> simp [At, htasks]
  | processing w => rcases hb with ⟨rfl, -⟩ | ⟨rfl, -⟩ <;> simp [At, hworkers]
  | registering w => rcases hb with ⟨rfl, -⟩ | ⟨rfl, -⟩ <;> simp [At, hworkers]
  | lost => rcases hb with ⟨rfl, -, rfl⟩ | ⟨rfl, -, rfl⟩ <;> simp [At]

/-- Events are still below the size of the table. -/
lemma Inv.small_delete (h : Inv maxTasks l s) {mask : EventMask} {fd' : Fd}
    (hev : (Function.update s.events fd ((s.events fd).delete mask) fd').readable = true ∨
      (Function.update s.events fd ((s.events fd).delete mask) fd').writable = true) :
    fd' < eventLoopSize ∧
      (Function.update s.events fd ((s.events fd).delete mask) fd').clientData.isSome = true := by
  by_cases heq : fd' = fd
  · subst heq
    rw [Function.update_self] at hev ⊢
    cases mask with
    | readable => exact h.small (.inr (by simpa [FileEvent.delete] using hev))
    | writable => exact h.small (.inl (by simpa [FileEvent.delete] using hev))
  · rw [Function.update_of_ne heq] at hev ⊢
    exact h.small hev

/-- **A call of the read handler.** -/
lemma Inv.read (h : Inv maxTasks l s) {stale : Stale} (hen : s.Enabled (.read fd stale)) :
    ∃ s', NetServer.exec maxTasks (.read fd stale) s = .ok s' ∧
      Inv maxTasks ((s, .read fd stale) :: l) s' ∧ Strays s (.read fd stale) s' := by
  obtain ⟨hloop, hreadable⟩ := hen
  obtain ⟨hsmall, hsome⟩ := h.small (.inl hreadable)
  obtain ⟨p, hdata⟩ := Option.isSome_iff_exists.mp hsome
  have hat : At s (lost maxTasks l) (.readEvent fd) p := ⟨by simp [hloop], hreadable, hdata⟩
  obtain ⟨conn, n, socket, hc, hn, hsocket, ⟨hfd, hread⟩, hclient⟩ := h.client hat hdata
  have hsent : socket.sent = [] := hread.1.1
  have hanswers : answers ((s, .read fd stale) :: l) = answers l ++ [] := answers_cons
  have hfinished : finished ((s, .read fd stale) :: l) = finished l ++ [] := finished_cons
  obtain ⟨r, hr, hcases⟩ := hread.onReadHandler stale
  rcases hcases with hnone | ⟨conn', hsome', hsockfd, ⟨hmore, hread'⟩ | ⟨hdone, hcomplete⟩⟩
  · -- the connection is given up
    obtain ⟨ebadf, hfree, hstrays⟩ := abandon_eq (s := { s with
      sockets := Function.update s.sockets n (some { socket with wire := r.wire }) })
      .readable hc hn hsmall
    have hexec : s.onReadHandler maxTasks stale fd = .ok { s with
        sockets := Function.update s.sockets n (some { socket with wire := r.wire })
        conns := Function.update s.conns p none
        fds := if conn.sockfd = 0 then s.fds else Function.update s.fds conn.sockfd none
        events := Function.update s.events fd ((s.events fd).delete .readable)
        ebadf := ebadf } := by
      simp only [NetServer.onReadHandler, hclient, hr, hnone, bind, Except.bind]
      exact hfree
    have hlost : lost maxTasks ((s, .read fd stale) :: l) = lost maxTasks l := by
      rw [lost_cons]
      simp [lostBy, hexec, hloop]
    refine ⟨_, hexec, h.touch none []
      ⟨hc, hn, hsocket, rfl, rfl, ?_, rfl, by simp, ?_, by simp, h.small_delete, h.nodup,
        hanswers, .inl rfl, .inl hsent, hfinished, .inl rfl⟩,
      hstrays.imp_right fun hstray => ⟨fd, rfl, hstray⟩⟩
    · simp
    · rw [hlost]
      exact h.owned.moves hat (at_delete_readable hloop hdata ⟨rfl, rfl, rfl, rfl⟩)
  · -- the request is not complete
    have hexec : s.onReadHandler maxTasks stale fd = .ok { s with
        sockets := Function.update s.sockets n (some { socket with wire := r.wire })
        conns := Function.update s.conns p (some conn') } := by
      simp only [NetServer.onReadHandler, hclient, hr, hsome', hmore, bind, Except.bind, if_true]
      rfl
    have hlost : lost maxTasks ((s, .read fd stale) :: l) = lost maxTasks l := by
      rw [lost_cons]
      simp [lostBy, hexec, hloop]
    refine ⟨_, hexec, h.touch (some (.readEvent fd, conn')) []
      ⟨hc, hn, hsocket, rfl, rfl, by simp, rfl, by simpa using hsockfd, ?_, ?_, h.small, h.nodup,
        hanswers, .inl rfl, .inl hsent, hfinished, .inl rfl⟩, .inl rfl⟩
    · rw [hlost]
      exact h.owned.stays hat fun k q => by cases k <;> rfl
    · rintro q ⟨⟩
      rw [hanswers, List.append_nil]
      exact ⟨hsockfd.trans hfd, hread'⟩
  · -- the request is complete, and its task is pushed
    have hexec : s.onReadHandler maxTasks stale fd = .ok { s with
        sockets := Function.update s.sockets n (some { socket with wire := r.wire })
        conns := Function.update s.conns p (some conn')
        tasks := if 0 < maxTasks ∧ maxTasks ≤ s.tasks.length then s.tasks else s.tasks ++ [p]
        loop := .deleting fd } := by
      simp only [NetServer.onReadHandler, hclient, hr, hsome', hdone, bind, Except.bind,
        Bool.false_eq_true, if_false, NetServer.push]
      split_ifs <;> rfl
    have hpush : ∃ gone tasks, lost maxTasks ((s, .read fd stale) :: l) = gone ∧
        tasks = (if 0 < maxTasks ∧ maxTasks ≤ s.tasks.length then s.tasks else s.tasks ++ [p]) ∧
        (tasks = s.tasks ∧ gone = lost maxTasks l ++ [p] ∨
          tasks = s.tasks ++ [p] ∧ gone = lost maxTasks l) := by
      refine ⟨_, _, rfl, rfl, ?_⟩
      rw [lost_cons]
      simp only [lostBy, hexec, true_and, hdata]
      split_ifs with hfull hsame hsame
      · exact .inl ⟨rfl, rfl⟩
      · exact absurd rfl hsame
      · exact absurd (congrArg List.length hsame) (by simp)
      · exact .inr ⟨rfl, by simp⟩
    obtain ⟨gone, tasks, hgone, htasks, hpush⟩ := hpush
    rw [← htasks] at hexec
    have hnot : p ∉ s.tasks := fun hp => by
      simpa using h.owned.unique (k := .tasks) hp hat
    obtain ⟨b, hb, hmoves⟩ : ∃ b, (b = .tasks ∨ b = .lost) ∧ Moves p (some b)
        (At s (lost maxTasks l)) (At { s with
          sockets := Function.update s.sockets n (some { socket with wire := r.wire })
          conns := Function.update s.conns p (some conn')
          tasks := tasks
          loop := .deleting fd } gone) := by
      rcases hpush with ⟨rfl, rfl⟩ | ⟨rfl, rfl⟩
      · exact ⟨.lost, .inr rfl, h.owned.moves hat
          (at_push hloop hdata ⟨rfl, rfl, rfl⟩ (.inr ⟨rfl, rfl, rfl⟩))⟩
      · exact ⟨.tasks, .inl rfl, h.owned.moves hat
          (at_push hloop hdata ⟨rfl, rfl, rfl⟩ (.inl ⟨rfl, rfl, rfl⟩))⟩
    refine ⟨_, hexec, h.touch (some (b, conn')) []
      ⟨hc, hn, hsocket, rfl, rfl, by simp, rfl, by simpa using hsockfd, ?_, ?_, h.small, ?_,
        hanswers, .inl rfl, .inl hsent, hfinished, .inl rfl⟩, .inl rfl⟩
    · rw [hgone]
      exact hmoves
    · rintro q ⟨⟩
      rw [hanswers, List.append_nil]
      rcases hb with rfl | rfl
      · exact hcomplete
      · exact hcomplete
    · rcases hpush with ⟨rfl, -⟩ | ⟨rfl, -⟩
      · exact h.nodup
      · refine List.nodup_append.mpr ⟨h.nodup, by simp, ?_⟩
        rintro q hq _ hq' rfl
        exact hnot (List.mem_singleton.mp hq' ▸ hq)

/-- Deleting the write event takes the connection out of its place. -/
lemma at_delete_writable {t : NetServer} {gone : List ConnPtr}
    (hdata : (s.events fd).clientData = some p) (ht : t.loop = s.loop ∧ t.tasks = s.tasks ∧
      t.workers = s.workers ∧
      t.events = Function.update s.events fd ((s.events fd).delete .writable)) (k : Place)
    (q : ConnPtr) : At t gone k q ↔ At s gone k q ∧ (k = .writeEvent fd → q ≠ p) ∨
      (none : Option Place) = some k ∧ q = p := by
  obtain ⟨hl, htasks, hworkers, hevents⟩ := ht
  simp only [reduceCtorEq, false_and, or_false]
  cases k with
  | readEvent fd' =>
      simp only [At, hl, hevents]
      by_cases heq : fd' = fd
      · subst heq
        simp [FileEvent.delete]
      · rw [Function.update_of_ne heq]
        simp
  | writeEvent fd' =>
      simp only [At, hevents]
      by_cases heq : fd' = fd
      · subst heq
        simp only [Function.update_self, FileEvent.delete, Bool.false_eq_true, false_and, false_iff]
        rintro ⟨⟨-, hq⟩, hne⟩
        exact hne trivial (Option.some.inj (hq.symm.trans hdata))
      · rw [Function.update_of_ne heq]
        simp [heq]
  | tasks => simp [At, htasks]
  | processing w => simp [At, hworkers]
  | registering w => simp [At, hworkers]
  | lost => simp [At]

/-- **A call of the write handler.** -/
lemma Inv.write (h : Inv maxTasks l s) (hen : s.Enabled (.write fd)) :
    ∃ s', NetServer.exec maxTasks (.write fd) s = .ok s' ∧
      Inv maxTasks ((s, .write fd) :: l) s' ∧ Strays s (.write fd) s' := by
  obtain ⟨-, hwritable⟩ := hen
  obtain ⟨hsmall, hsome⟩ := h.small (.inr hwritable)
  obtain ⟨p, hdata⟩ := Option.isSome_iff_exists.mp hsome
  have hat : At s (lost maxTasks l) (.writeEvent fd) p := ⟨hwritable, hdata⟩
  obtain ⟨conn, n, socket, hc, hn, hsocket, ⟨hfd, hstatus, a, ha, han, packet, hpacket, hresponse,
    hlen, hoff, hsent⟩, hclient⟩ := h.client hat hdata
  have hanswers : answers ((s, .write fd) :: l) = answers l ++ [] := answers_cons
  have hlost : lost maxTasks ((s, .write fd) :: l) = lost maxTasks l := by
    rw [lost_cons]
    exact List.append_nil _
  obtain ⟨hlen', hdata', hle, hoff', -, hdone⟩ := sendPacket_spec packet socket.room hoff
  have hsent' := take_append_sendPacket packet socket.room hoff
  rw [← hsent] at hsent'
  have hfinished : finished ((s, .write fd) :: l) = finished l ++
      (if (sendPacket packet socket.room).1 = .done then [n] else []) := by
    rw [finished_cons]
    simp only [finishedBy, hclient, hpacket, hstatus, true_and, bind, Option.bind]
    split_ifs <;> rfl
  generalize hresult : sendPacket packet socket.room = result at *
  obtain ⟨e, packet', room', sent⟩ := result
  have hreply : socket.sent ++ sent = [] ∨ ∃ a ∈ answers ((s, .write fd) :: l), a.socket = n ∧
      ∃ data, a.response = some data ∧ socket.sent ++ sent <+: data := by
    refine .inr ⟨a, by simpa [hanswers] using ha, han, packet.data, hresponse, ?_⟩
    rw [hsent']
    exact List.take_prefix _ _
  by_cases hagain : e = .again
  · have hexec : s.onWriteHandler fd = .ok { s with
        sockets := Function.update s.sockets n
          (some { socket with room := room', sent := socket.sent ++ sent })
        conns := Function.update s.conns p (some { conn with packet := some packet' }) } := by
      simp only [NetServer.onWriteHandler, hclient, hstatus, hpacket, hresult, hagain, bind,
        Except.bind, if_true]
      rfl
    rw [if_neg (by simp [hagain])] at hfinished
    refine ⟨_, hexec, h.touch (some (.writeEvent fd, { conn with packet := some packet' })) _
      ⟨hc, hn, hsocket, rfl, rfl, by simp, rfl, by simp, ?_, ?_, h.small, h.nodup, hanswers,
        .inl rfl, hreply, hfinished, .inl rfl⟩, .inl rfl⟩
    · rw [hlost]
      exact h.owned.stays hat fun k q => by cases k <;> rfl
    · rintro q ⟨⟩
      refine ⟨hfd, hstatus, a, by simpa [hanswers] using ha, han, packet', rfl, ?_, ?_, ?_, ?_⟩
      · exact hdata' ▸ hresponse
      · rw [hlen', hdata']
        exact hlen
      · rw [hlen']
        exact hoff'
      · rw [hdata']
        exact hsent'
  · obtain ⟨ebadf, hfree, hstrays⟩ := abandon_eq (s := { s with
      sockets := Function.update s.sockets n
        (some { socket with room := room', sent := socket.sent ++ sent })
      conns := Function.update s.conns p (some { conn with packet := some packet' }) })
      .writable (Function.update_self ..) hn hsmall
    simp only [Function.update_idem, hstatus] at hfree
    have hexec : s.onWriteHandler fd = .ok { s with
        sockets := Function.update s.sockets n
          (some { socket with room := room', sent := socket.sent ++ sent })
        conns := Function.update s.conns p none
        fds := if conn.sockfd = 0 then s.fds else Function.update s.fds conn.sockfd none
        events := Function.update s.events fd ((s.events fd).delete .writable)
        ebadf := ebadf } := by
      simp only [NetServer.onWriteHandler, hclient, hstatus, hpacket, hresult, if_neg hagain, bind,
        Except.bind, if_true]
      exact hfree
    refine ⟨_, hexec, h.touch none _
      ⟨hc, hn, hsocket, rfl, rfl, by simp, rfl, by simp, ?_, by simp, h.small_delete, h.nodup,
        hanswers, .inl rfl, hreply, hfinished, ?_⟩,
      hstrays.imp_right fun hstray => ⟨fd, rfl, hstray⟩⟩
    · rw [hlost]
      exact h.owned.moves hat (at_delete_writable hdata ⟨rfl, rfl, rfl, rfl⟩)
    · split_ifs with hdone'
      · refine .inr ⟨rfl, rfl, a, by simpa [hanswers] using ha, han, ?_⟩
        rw [hresponse, hsent', hdone hdone', hlen, List.take_length]
      · exact .inl rfl

/-- A step that changes no place, and no connection, socket or descriptor. -/
lemma Inv.same (h : Inv maxTasks l s) {l' : NetHistory} {t : NetServer}
    (hat : At t (lost maxTasks l) = At s (lost maxTasks l))
    (hsame : t.conns = s.conns ∧ t.sockets = s.sockets ∧ t.fds = s.fds ∧ t.tasks = s.tasks)
    (hsmall : ∀ {fd}, (t.events fd).readable = true ∨ (t.events fd).writable = true →
      fd < eventLoopSize ∧ (t.events fd).clientData.isSome = true)
    (hnotes : answers l' = answers l ∧ lost maxTasks l' = lost maxTasks l ∧
      finished l' = finished l) : Inv maxTasks l' t := by
  obtain ⟨hconns, hsockets, hfds, htasks⟩ := hsame
  obtain ⟨hanswers, hlost, hfinished⟩ := hnotes
  constructor
  · rw [hlost, hat, hconns]
    exact h.owned
  · rw [hlost, hat, hconns, hfds, hsockets, hanswers]
    exact h.fits
  · rw [hconns]
    exact h.apart
  · rw [hconns]
    exact h.below
  · rw [hfds]
    exact h.ids
  · rw [hfds, hsockets]
    exact h.known
  · rw [hfds, hconns]
    exact h.opened
  · exact hsmall
  · rw [htasks]
    exact h.nodup
  · rw [hanswers]
    exact h.once
  · rw [hanswers, hsockets]
    exact h.asked
  · rw [hanswers, hsockets]
    exact h.replies
  · rw [hfinished, hanswers, hsockets, hconns, hfds]
    exact h.complete

/-- A worker goes from one dequeue to the next. -/
lemma Inv.park (h : Inv maxTasks l s) {l' : NetHistory} {pos : WorkerAt}
    (hw : s.workers w = .idle ∨ s.workers w = .emptied) (hpos : pos = .idle ∨ pos = .emptied)
    (hnotes : answers l' = answers l ∧ lost maxTasks l' = lost maxTasks l ∧
      finished l' = finished l) :
    Inv maxTasks l' { s with workers := Function.update s.workers w pos } := by
  refine h.same ?_ ⟨rfl, rfl, rfl, rfl⟩ h.small hnotes
  funext k q
  cases k with
  | processing w' =>
      by_cases heq : w' = w
      · subst heq
        rcases hw with hw | hw <;> rcases hpos with rfl | rfl <;> simp [At, hw]
      · simp [At, Function.update_of_ne heq]
  | registering w' =>
      by_cases heq : w' = w
      · subst heq
        rcases hw with hw | hw <;> rcases hpos with rfl | rfl <;> simp [At, hw]
      · simp [At, Function.update_of_ne heq]
  | readEvent fd => simp [At]
  | writeEvent fd => simp [At]
  | tasks => simp [At]
  | lost => simp [At]

/-- No more tasks are queued than the table has descriptors. -/
lemma Inv.length_tasks_le (h : Inv maxTasks l s) : s.tasks.length ≤ eventLoopSize := by
  have hlive : ∀ p ∈ s.tasks, ∃ conn, s.conns p = some conn := fun p hp =>
    Option.isSome_iff_exists.mp (h.owned.lives (k := .tasks) hp)
  have hnodup : (s.tasks.map fun p => (s.conns p).elim 0 Connection.sockfd).Nodup := by
    refine List.Nodup.map_on (fun p hp q hq heq => ?_) h.nodup
    obtain ⟨c, hc⟩ := hlive p hp
    obtain ⟨d, hd⟩ := hlive q hq
    simp only [hc, hd, Option.elim_some] at heq
    exact h.apart hc hd heq
  have hsub : (s.tasks.map fun p => (s.conns p).elim 0 Connection.sockfd) ⊆
      List.range eventLoopSize := by
    intro fd hfd
    obtain ⟨p, hp, rfl⟩ := List.mem_map.mp hfd
    obtain ⟨c, hc⟩ := hlive p hp
    rw [List.mem_range, hc]
    exact h.below hc
  simpa using (hnodup.subperm hsub).length_le

/-- So the return value of a dequeue is positive if there is a task. -/
lemma Inv.queueSize_pos_iff (h : Inv maxTasks l s) : 0 < s.queueSize ↔ s.tasks ≠ [] := by
  have hlt : s.tasks.length < 2 ^ 31 := lt_of_le_of_lt h.length_tasks_le (by decide)
  rw [NetServer.queueSize, Nat.mod_eq_of_lt (by omega), toInt32_pos_iff (by omega),
    List.length_pos_iff]
  exact and_iff_left hlt

/-- **A worker takes a task**, or finds none. -/
lemma Inv.take (h : Inv maxTasks l s) (hen : s.Enabled (.take w)) :
    ∃ s', NetServer.exec maxTasks (.take w) s = .ok s' ∧ Inv maxTasks ((s, .take w) :: l) s' ∧
      Strays s (.take w) s' := by
  have hidle : s.workers w = .idle := hen
  cases htasks : s.tasks with
  | nil =>
      refine ⟨{ s with workers := Function.update s.workers w .emptied }, ?_,
        h.park (.inl hidle) (.inr rfl) ?_, .inl rfl⟩
      · simp only [NetServer.exec, htasks]
      · rw [answers_cons, lost_cons, finished_cons]
        exact ⟨List.append_nil _, List.append_nil _, List.append_nil _⟩
  | cons p tasks =>
      have hat : At s (lost maxTasks l) .tasks p := by simp [At, htasks]
      obtain ⟨conn, hc⟩ := Option.isSome_iff_exists.mp (h.owned.lives hat)
      obtain ⟨n, socket, hn, hsocket, hfits⟩ := h.fits hat hc
      have hnodup := h.nodup
      rw [htasks, List.nodup_cons] at hnodup
      have hpos : 0 < s.queueSize := h.queueSize_pos_iff.mpr (by simp [htasks])
      have hexec : NetServer.exec maxTasks (.take w) s = .ok { s with
          tasks := tasks, workers := Function.update s.workers w (.processing p) } := by
        simp only [NetServer.exec, htasks, if_pos hpos]
      have hanswers : answers ((s, .take w) :: l) = answers l ++ [] := answers_cons
      have hlost : lost maxTasks ((s, .take w) :: l) = lost maxTasks l := by
        rw [lost_cons]
        exact List.append_nil _
      refine ⟨_, hexec, h.touch (some (.processing w, conn)) []
        ⟨hc, hn, hsocket, ?_, ?_, by simp, rfl, by simp, ?_, ?_, h.small, hnodup.2, hanswers,
          .inl rfl, h.replies hsocket |>.imp_right ?_, finished_cons, .inl rfl⟩, .inl rfl⟩
      · exact (Function.update_eq_self_iff.mpr hc.symm).symm
      · exact (Function.update_eq_self_iff.mpr hsocket.symm).symm
      · rw [hlost]
        refine h.owned.moves hat fun k q => ?_
        cases k with
        | tasks =>
            simp only [At, htasks, List.mem_cons]
            constructor
            · intro hq
              exact .inl ⟨.inr hq, fun _ heq => hnodup.1 (heq ▸ hq)⟩
            · rintro (⟨hq | hq, hqp⟩ | ⟨hb, -⟩)
              · exact absurd hq (hqp trivial)
              · exact hq
              · simp at hb
        | processing w' =>
            simp only [At]
            by_cases heq : w' = w
            · subst heq
              simp [hidle, eq_comm]
            · simp [Function.update_of_ne heq, Ne.symm heq]
        | registering w' =>
            simp only [At]
            by_cases heq : w' = w
            · subst heq
              simp [hidle]
            · simp [Function.update_of_ne heq]
        | readEvent fd => simp [At]
        | writeEvent fd => simp [At]
        | lost => simp [At]
      · rintro q ⟨⟩
        rw [hanswers, List.append_nil]
        exact hfits
      · intro hreply
        rw [hanswers, List.append_nil]
        exact hreply

/-- **A dequeue that has found no task returns.**  If there is one by then, the worker runs a task
that it does not have. -/
lemma Inv.dequeueReturn (h : Inv maxTasks l s) (hen : s.Enabled (.dequeueReturn w)) :
    (∃ s', NetServer.exec maxTasks (.dequeueReturn w) s = .ok s' ∧
      Inv maxTasks ((s, .dequeueReturn w) :: l) s' ∧ Strays s (.dequeueReturn w) s' ∧
      s.tasks = []) ∨
    NetServer.exec maxTasks (.dequeueReturn w) s = .error .staleTask ∧ s.tasks ≠ [] := by
  by_cases hnil : s.tasks = []
  · have hzero : ¬0 < s.queueSize := fun hpos => h.queueSize_pos_iff.mp hpos hnil
    refine .inl ⟨{ s with workers := Function.update s.workers w .idle }, ?_,
      h.park (.inr hen) (.inl rfl) ?_, .inl rfl, hnil⟩
    · simp only [NetServer.exec, if_neg hzero]
    · rw [answers_cons, lost_cons, finished_cons]
      exact ⟨List.append_nil _, List.append_nil _, List.append_nil _⟩
  · refine .inr ⟨?_, hnil⟩
    simp only [NetServer.exec, if_pos (h.queueSize_pos_iff.mpr hnil)]

/-- The response in place of a request. -/
lemma requestProcess_eq_some {packet response : NetPacket} {body : Option (List UInt8)}
    (h : requestProcess packet body = some response) :
    response.len = response.data.length ∧ response.offset = 0 := by
  unfold requestProcess at h
  split_ifs at h
  obtain ⟨b, -, rfl⟩ := Option.map_eq_some_iff.mp h
  exact ⟨by simp [responseNew], rfl⟩

/-- The worker `w` becomes idle, and the connection it had is gone. -/
lemma at_idle {t : NetServer} {gone : List ConnPtr}
    (hw : k = .processing w ∧ s.workers w = .processing p ∨
      k = .registering w ∧ s.workers w = .registering p)
    (ht : t.loop = s.loop ∧ t.tasks = s.tasks ∧ t.events = s.events ∧
      t.workers = Function.update s.workers w .idle) (k' : Place) (q : ConnPtr) :
    At t gone k' q ↔ At s gone k' q ∧ (k' = k → q ≠ p) ∨
      (none : Option Place) = some k' ∧ q = p := by
  obtain ⟨hl, htasks, hevents, hworkers⟩ := ht
  have hother : ∀ w', w' ≠ w → t.workers w' = s.workers w' := fun w' hne => by
    rw [hworkers, Function.update_of_ne hne]
  have hidle : t.workers w = .idle := by rw [hworkers, Function.update_self]
  cases k' with
  | processing w' =>
      by_cases heq : w' = w
      · subst heq
        rcases hw with ⟨rfl, hw⟩ | ⟨rfl, hw⟩ <;> simp [At, hidle, hw, eq_comm]
      · rcases hw with ⟨rfl, hw⟩ | ⟨rfl, hw⟩ <;> simp [At, hother w' heq, heq]
  | registering w' =>
      by_cases heq : w' = w
      · subst heq
        rcases hw with ⟨rfl, hw⟩ | ⟨rfl, hw⟩ <;> simp [At, hidle, hw, eq_comm]
      · rcases hw with ⟨rfl, hw⟩ | ⟨rfl, hw⟩ <;> simp [At, hother w' heq, heq]
  | readEvent fd => rcases hw with ⟨rfl, hw⟩ | ⟨rfl, hw⟩ <;> simp [At, hl, hevents]
  | writeEvent fd => rcases hw with ⟨rfl, hw⟩ | ⟨rfl, hw⟩ <;> simp [At, hevents]
  | tasks => rcases hw with ⟨rfl, hw⟩ | ⟨rfl, hw⟩ <;> simp [At, htasks]
  | lost => rcases hw with ⟨rfl, hw⟩ | ⟨rfl, hw⟩ <;> simp [At]

/-- **A worker processes a request.** -/
lemma Inv.process (h : Inv maxTasks l s) {body : Option (List UInt8)}
    (hen : s.Enabled (.process w body)) :
    ∃ s', NetServer.exec maxTasks (.process w body) s = .ok s' ∧
      Inv maxTasks ((s, .process w body) :: l) s' ∧ Strays s (.process w body) s' := by
  obtain ⟨p, hw⟩ := hen
  have hat : At s (lost maxTasks l) (.processing w) p := hw
  obtain ⟨conn, hc⟩ := Option.isSome_iff_exists.mp (h.owned.lives hat)
  obtain ⟨n, socket, hn, hsocket, hun, data, hasked, hconn⟩ := h.fits hat hc
  have hpacket : conn.packet = some ⟨data.length, data.length, data⟩ := by
    rw [← Option.some.inj hconn]
  have hanswers : answers ((s, .process w body) :: l) = answers l ++
      [⟨n, data, (requestProcess ⟨data.length, data.length, data⟩ body).map NetPacket.data⟩] := by
    rw [answers_cons]
    simp only [answeredBy, hw, hc, hpacket, hn, bind, Option.bind]
    rfl
  have hlost : lost maxTasks ((s, .process w body) :: l) = lost maxTasks l := by
    rw [lost_cons]
    exact List.append_nil _
  have hnew : ∀ r, [Answer.mk n data r] = [] ∨ ∃ a, [Answer.mk n data r] = [a] ∧ a.socket = n ∧
      (∀ a' ∈ answers l, a'.socket ≠ n) ∧ Asked socket a.request :=
    fun r => .inr ⟨_, rfl, rfl, hun.2, hasked⟩
  have hlast : ∀ r, answers ((s, .process w body) :: l) = answers l ++ [⟨n, data, r⟩] →
      ⟨n, data, r⟩ ∈ answers ((s, .process w body) :: l) := fun r hr => by
    rw [hr]
    exact List.mem_append_right _ (List.mem_singleton_self _)
  cases hresponse : requestProcess ⟨data.length, data.length, data⟩ body with
  | none =>
      have hexec : NetServer.exec maxTasks (.process w body) s = .ok { s with
          workers := Function.update s.workers w .idle
          conns := Function.update s.conns p none
          fds := if conn.sockfd = 0 then s.fds else Function.update s.fds conn.sockfd none } := by
        simp only [NetServer.exec, hw, NetServer.process, hc, hpacket, hresponse]
        exact connectionFree_eq hc hn
      refine ⟨_, hexec, h.touch none []
        ⟨hc, hn, hsocket, rfl, ?_, by simp, rfl, by simp, ?_, by simp, h.small, h.nodup, hanswers,
          hnew _, .inl hun.1, finished_cons, .inl rfl⟩, .inl rfl⟩
      · exact (Function.update_eq_self_iff.mpr hsocket.symm).symm
      · rw [hlost]
        exact h.owned.moves hat (at_idle (.inl ⟨rfl, hw⟩) ⟨rfl, rfl, rfl, rfl⟩)
  | some response =>
      obtain ⟨hlen, hoff⟩ := requestProcess_eq_some hresponse
      have hexec : NetServer.exec maxTasks (.process w body) s = .ok { s with
          conns := Function.update s.conns p
            (some { conn with packet := some response, status := .sending })
          workers := Function.update s.workers w (.registering p) } := by
        simp only [NetServer.exec, hw, NetServer.process, hc, hpacket, hresponse]
      rw [hresponse] at hanswers
      refine ⟨_, hexec, h.touch
        (some (.registering w, { conn with packet := some response, status := .sending })) []
        ⟨hc, hn, hsocket, rfl, ?_, by simp, rfl, by simp, ?_, ?_, h.small, h.nodup, hanswers,
          hnew _, .inl hun.1, finished_cons, .inl rfl⟩, .inl rfl⟩
      · exact (Function.update_eq_self_iff.mpr hsocket.symm).symm
      · rw [hlost]
        refine h.owned.moves hat fun k q => ?_
        cases k with
        | processing w' =>
            by_cases heq : w' = w
            · subst heq
              simp [At, hw, eq_comm]
            · simp [At, heq]
        | registering w' =>
            by_cases heq : w' = w
            · subst heq
              simp [At, hw, eq_comm]
            · simp [At, Function.update_of_ne heq, Ne.symm heq]
        | readEvent fd => simp [At]
        | writeEvent fd => simp [At]
        | tasks => simp [At]
        | lost => simp [At]
      · rintro q ⟨⟩
        refine ⟨rfl, _, hlast _ hanswers, rfl, response, rfl, rfl, hlen, ?_, ?_⟩
        · rw [hoff]
          exact Nat.zero_le _
        · rw [hoff]
          exact hun.1

/-- An event for writing is registered where there was no other. -/
lemma at_register {t : NetServer} {gone : List ConnPtr} (hw : s.workers w = .registering p)
    (hread : ∀ q, ¬At s gone (.readEvent fd) q) (hwrite : ∀ q, ¬At s gone (.writeEvent fd) q)
    (hsome : (s.events fd).readable = true ∨ (s.events fd).writable = true →
      (s.events fd).clientData.isSome = true)
    (ht : t.loop = s.loop ∧ t.tasks = s.tasks ∧
      t.workers = Function.update s.workers w .idle ∧
      t.events = Function.update s.events fd ((s.events fd).create p .writable)) (k : Place)
    (q : ConnPtr) : At t gone k q ↔ At s gone k q ∧ (k = .registering w → q ≠ p) ∨
      some (Place.writeEvent fd) = some k ∧ q = p := by
  obtain ⟨hl, htasks, hworkers, hevents⟩ := ht
  cases k with
  | readEvent fd' =>
      by_cases heq : fd' = fd
      · subst heq
        have hnone : ∀ q, ¬At t gone (.readEvent fd') q := by
          rintro q ⟨hloop, hreadable, -⟩
          rw [hl] at hloop
          rw [hevents, Function.update_self] at hreadable
          obtain ⟨q', hq'⟩ := Option.isSome_iff_exists.mp (hsome (.inl hreadable))
          exact hread q' ⟨hloop, hreadable, hq'⟩
        simp [hnone, hread]
      · simp [At, hl, hevents, Function.update_of_ne heq]
  | writeEvent fd' =>
      by_cases heq : fd' = fd
      · subst heq
        have hself : At t gone (.writeEvent fd') q ↔ q = p := by
          simp [At, hevents, FileEvent.create, eq_comm]
        simp [hself, hwrite]
      · simp [At, hevents, Function.update_of_ne heq, Ne.symm heq]
  | processing w' =>
      by_cases heq : w' = w
      · subst heq
        simp [At, hworkers, hw]
      · simp [At, hworkers, Function.update_of_ne heq]
  | registering w' =>
      by_cases heq : w' = w
      · subst heq
        simp [At, hworkers, hw, eq_comm]
      · simp [At, hworkers, heq]
  | tasks => simp [At, htasks]
  | lost => simp [At]

/-- **A worker registers the write event.** -/
lemma Inv.register (h : Inv maxTasks l s) {added : Bool} (hen : s.Enabled (.register w added)) :
    ∃ s', NetServer.exec maxTasks (.register w added) s = .ok s' ∧
      Inv maxTasks ((s, .register w added) :: l) s' ∧ Strays s (.register w added) s' := by
  obtain ⟨p, hw⟩ := hen
  have hat : At s (lost maxTasks l) (.registering w) p := hw
  obtain ⟨conn, hc⟩ := Option.isSome_iff_exists.mp (h.owned.lives hat)
  obtain ⟨n, socket, hn, hsocket, hfits⟩ := h.fits hat hc
  have hanswers : answers ((s, .register w added) :: l) = answers l ++ [] := answers_cons
  have hlost : lost maxTasks ((s, .register w added) :: l) = lost maxTasks l := by
    rw [lost_cons]
    exact List.append_nil _
  have hreply : socket.sent = [] ∨ ∃ a ∈ answers ((s, .register w added) :: l), a.socket = n ∧
      ∃ data, a.response = some data ∧ socket.sent <+: data := by
    rw [hanswers, List.append_nil]
    exact h.replies hsocket
  have hsockets : s.sockets = Function.update s.sockets n (some socket) :=
    (Function.update_eq_self_iff.mpr hsocket.symm).symm
  have hcreate := createFileEvent_eq (s := { s with workers := Function.update s.workers w .idle })
    (p := p) .writable added hn
  by_cases hbad : eventLoopSize ≤ conn.sockfd ∨ added = false
  · have hexec : NetServer.exec maxTasks (.register w added) s = .ok { s with
        workers := Function.update s.workers w .idle
        conns := Function.update s.conns p none
        fds := if conn.sockfd = 0 then s.fds else Function.update s.fds conn.sockfd none } := by
      simp only [NetServer.exec, hw, NetServer.register, hc, hcreate, if_pos hbad]
      exact connectionFree_eq hc hn
    refine ⟨_, hexec, h.touch none []
      ⟨hc, hn, hsocket, rfl, hsockets, by simp, rfl, by simp, ?_, by simp, h.small, h.nodup,
        hanswers, .inl rfl, hreply, finished_cons, .inl rfl⟩, .inl rfl⟩
    rw [hlost]
    exact h.owned.moves hat (at_idle (.inr ⟨rfl, hw⟩) ⟨rfl, rfl, rfl, rfl⟩)
  · have hexec : NetServer.exec maxTasks (.register w added) s = .ok { s with
        workers := Function.update s.workers w .idle
        events := Function.update s.events conn.sockfd
          ((s.events conn.sockfd).create p .writable) } := by
      simp only [NetServer.exec, hw, NetServer.register, hc, hcreate, if_neg hbad]
    -- the descriptor of the connection has no event that leads to another one
    have hmine : ∀ {k q}, At s (lost maxTasks l) k q → (∀ n socket conn',
        Fits (answers l) n socket k conn' → conn'.sockfd = conn.sockfd) → k = .registering w := by
      intro k q hq hfd
      obtain ⟨conn', hc'⟩ := Option.isSome_iff_exists.mp (h.owned.lives hq)
      obtain ⟨n', socket', -, -, hfits'⟩ := h.fits hq hc'
      obtain rfl := h.apart hc' hc (hfd n' socket' conn' hfits')
      exact h.owned.unique hq hat
    refine ⟨_, hexec, h.touch (some (.writeEvent conn.sockfd, conn)) []
      ⟨hc, hn, hsocket, ?_, hsockets, by simp, rfl, by simp, ?_, ?_, ?_, h.nodup,
        hanswers, .inl rfl, hreply, finished_cons, .inl rfl⟩, .inl rfl⟩
    · exact (Function.update_eq_self_iff.mpr hc.symm).symm
    · rw [hlost]
      refine h.owned.moves hat (at_register hw ?_ ?_ (fun hev => (h.small hev).2)
        ⟨rfl, rfl, rfl, rfl⟩)
      · intro q hq
        simpa using hmine hq fun _ _ _ hf => hf.1
      · intro q hq
        simpa using hmine hq fun _ _ _ hf => hf.1
    · rintro q ⟨⟩
      rw [hanswers, List.append_nil]
      exact ⟨rfl, hfits⟩
    · intro fd hev
      by_cases heq : fd = conn.sockfd
      · subst heq
        exact ⟨h.below hc, by simp [FileEvent.create]⟩
      · dsimp only at hev ⊢
        rw [Function.update_of_ne heq] at hev ⊢
        exact h.small hev

/-- **The end of the read handler.** -/
lemma Inv.delete (h : Inv maxTasks l s) (hen : s.Enabled .delete) :
    ∃ s', NetServer.exec maxTasks .delete s = .ok s' ∧ Inv maxTasks ((s, .delete) :: l) s' ∧
      Strays s .delete s' := by
  cases hloop : s.loop with
  | polling => exact absurd hloop hen
  | deleting fd =>
      obtain ⟨ebadf, hdelete, hstrays⟩ := deleteFileEvent_eq (s := s) fd .readable
        fun hev => (h.small hev).1
      have hexec : NetServer.exec maxTasks .delete s = .ok { s with
          events := Function.update s.events fd ((s.events fd).delete .readable)
          ebadf := ebadf
          loop := .polling } := by
        simp only [NetServer.exec, hloop, hdelete]
      refine ⟨_, hexec, h.same ?_ ⟨rfl, rfl, rfl, rfl⟩ h.small_delete ?_,
        hstrays.imp_right fun hstray => ⟨fd, hloop, hstray⟩⟩
      · funext k q
        cases k with
        | readEvent fd' =>
            by_cases heq : fd' = fd
            · subst heq
              simp [At, hloop, FileEvent.delete]
            · simp [At, hloop, Function.update_of_ne heq, Ne.symm heq]
        | writeEvent fd' =>
            by_cases heq : fd' = fd
            · subst heq
              simp [At, FileEvent.delete]
            · simp [At, Function.update_of_ne heq]
        | tasks => simp [At]
        | processing w => simp [At]
        | registering w => simp [At]
        | lost => simp [At]
      · rw [answers_cons, lost_cons, finished_cons]
        exact ⟨List.append_nil _, List.append_nil _, List.append_nil _⟩

/-- The descriptor of a live connection is open. -/
lemma Inv.open_of_live (h : Inv maxTasks l s) (hc : s.conns p = some conn) :
    ∃ n socket, s.fds conn.sockfd = some n ∧ s.sockets n = some socket := by
  obtain ⟨k, hk⟩ := h.owned.placed (by rw [hc]; rfl)
  obtain ⟨n, socket, hn, hsocket, -⟩ := h.fits hk hc
  exact ⟨n, socket, hn, hsocket⟩

/-- A number that has not been given to a socket is not in use. -/
lemma Inv.fresh (h : Inv maxTasks l s) (hn : s.sockets n = none) :
    (∀ fd, s.fds fd ≠ some n) ∧ (∀ a ∈ answers l, a.socket ≠ n) ∧ ∀ m ∈ finished l, m ≠ n := by
  refine ⟨fun fd hfd => ?_, fun a ha heq => ?_, fun m hm heq => ?_⟩
  · simpa [hn] using h.known hfd
  · obtain ⟨socket, hsocket, -⟩ := h.asked a ha
    simp [heq, hn] at hsocket
  · obtain ⟨⟨socket, hsocket, -⟩, -⟩ := h.complete m hm
    simp [heq, hn] at hsocket

/-- No event is registered for a descriptor that is not open. -/
lemma Inv.not_at_event (h : Inv maxTasks l s) (hfd : s.fds fd = none) (q : ConnPtr) :
    ¬At s (lost maxTasks l) (.readEvent fd) q ∧ ¬At s (lost maxTasks l) (.writeEvent fd) q := by
  have hnot : ∀ {k}, At s (lost maxTasks l) k q → (∀ n socket conn,
      Fits (answers l) n socket k conn → conn.sockfd = fd) → False := by
    intro k hq hsame
    obtain ⟨conn, hc⟩ := Option.isSome_iff_exists.mp (h.owned.lives hq)
    obtain ⟨n, socket, hn, -, hfits⟩ := h.fits hq hc
    rw [hsame n socket conn hfits, hfd] at hn
    simp at hn
  exact ⟨fun hq => hnot hq fun _ _ _ hf => hf.1, fun hq => hnot hq fun _ _ _ hf => hf.1⟩

/-- A socket that is accepted and not kept. -/
lemma Inv.add_socket (h : Inv maxTasks l s) {l' : NetHistory} {t : NetServer}
    (hn : s.sockets n = none) (hsent : socket.sent = [])
    (hsame : t.conns = s.conns ∧ t.events = s.events ∧ t.loop = s.loop ∧ t.tasks = s.tasks ∧
      t.workers = s.workers) (hsockets : t.sockets = Function.update s.sockets n (some socket))
    (hfds : t.fds = s.fds ∨ s.fds 0 = none ∧ t.fds = Function.update s.fds 0 (some n))
    (hnotes : answers l' = answers l ∧ lost maxTasks l' = lost maxTasks l ∧
      finished l' = finished l) : Inv maxTasks l' t := by
  obtain ⟨hconns, hevents, hloop, htasks, hworkers⟩ := hsame
  obtain ⟨hanswers, hlost, hfinished⟩ := hnotes
  obtain ⟨hunused, hans, hfin⟩ := h.fresh hn
  have hat : At t (lost maxTasks l) = At s (lost maxTasks l) := by
    funext k q
    cases k <;> simp [At, hevents, hloop, htasks, hworkers]
  have hold : ∀ {fd m}, t.fds fd = some m → s.fds fd = some m ∨ fd = 0 ∧ m = n := by
    intro fd m hfd
    rcases hfds with heq | ⟨-, heq⟩
    · exact .inl (heq ▸ hfd)
    · rw [heq] at hfd
      by_cases hzero : fd = 0
      · subst hzero
        exact .inr ⟨rfl, by simpa [eq_comm] using hfd⟩
      · rw [Function.update_of_ne hzero] at hfd
        exact .inl hfd
  have hkeep : ∀ {fd m}, s.fds fd = some m → t.fds fd = some m := by
    intro fd m hfd
    rcases hfds with heq | ⟨hnone, heq⟩
    · rw [heq]
      exact hfd
    · rw [heq, Function.update_of_ne]
      · exact hfd
      · rintro rfl
        simp [hnone] at hfd
  have hother : ∀ {m}, m ≠ n → t.sockets m = s.sockets m := fun hne => by
    rw [hsockets, Function.update_of_ne hne]
  constructor
  · rw [hlost, hat, hconns]
    exact h.owned
  · intro k q conn hq hc
    rw [hlost, hat] at hq
    obtain ⟨m, sk, hm, hsk, hfits⟩ := h.fits hq (hconns ▸ hc)
    have hne : m ≠ n := fun heq => hunused _ (heq ▸ hm)
    exact ⟨m, sk, hkeep hm, (hother hne).trans hsk, hanswers ▸ hfits⟩
  · rw [hconns]
    exact h.apart
  · rw [hconns]
    exact h.below
  · intro fd fd' m hfd hfd'
    rcases hold hfd with hfd | ⟨rfl, rfl⟩ <;> rcases hold hfd' with hfd' | ⟨rfl, hm⟩
    · exact h.ids hfd hfd'
    · exact absurd (hm ▸ hfd) (hunused fd)
    · exact absurd hfd' (hunused fd')
    · rfl
  · intro fd m hfd
    rcases hold hfd with hfd | ⟨-, rfl⟩
    · rw [hother fun heq => hunused fd (heq ▸ hfd)]
      exact h.known hfd
    · rw [hsockets, Function.update_self]
      rfl
  · intro fd m hfd hzero
    rw [hconns]
    rcases hold hfd with hfd | ⟨rfl, -⟩
    · exact h.opened hfd hzero
    · exact absurd rfl hzero
  · rw [hevents]
    exact h.small
  · rw [htasks]
    exact h.nodup
  · rw [hanswers]
    exact h.once
  · intro a ha
    rw [hanswers] at ha
    rw [hother (hans a ha)]
    exact h.asked a ha
  · intro m sk hm
    by_cases heq : m = n
    · subst heq
      rw [hsockets, Function.update_self] at hm
      exact .inl (Option.some.inj hm ▸ hsent)
    · rw [hother heq] at hm
      rw [hanswers]
      exact h.replies hm
  · intro m hm
    rw [hfinished] at hm
    obtain ⟨hdone, hnone⟩ := h.complete m hm
    rw [hother (hfin m hm), hanswers, hconns]
    refine ⟨hdone, fun hc hfd => ?_⟩
    rcases hold hfd with hfd | ⟨-, rfl⟩
    · exact hnone hc hfd
    · exact hfin m hm rfl

/-- A connection that is accepted and registered for reading. -/
lemma Inv.add_conn (h : Inv maxTasks l s) {l' : NetHistory} {t : NetServer}
    (hloop : s.loop = .polling) (hp : s.conns p = none) (hfd : s.fds fd = none)
    (hn : s.sockets n = none) (hsmall : fd < eventLoopSize)
    (hsocket : socket.sent = [] ∧ socket.wire = socket.stream)
    (hsame : t.loop = s.loop ∧ t.tasks = s.tasks ∧ t.workers = s.workers)
    (hconns : t.conns = Function.update s.conns p (some (.new fd)))
    (hevents : t.events = Function.update s.events fd ((s.events fd).create p .readable))
    (hsockets : t.sockets = Function.update s.sockets n (some socket))
    (hfds : t.fds = Function.update s.fds fd (some n))
    (hnotes : answers l' = answers l ∧ lost maxTasks l' = lost maxTasks l ∧
      finished l' = finished l) : Inv maxTasks l' t := by
  obtain ⟨hl, htasks, hworkers⟩ := hsame
  obtain ⟨hanswers, hlost, hfinished⟩ := hnotes
  obtain ⟨hunused, hans, hfin⟩ := h.fresh hn
  have hlive : ∀ {q d}, s.conns q = some d → q ≠ p ∧ d.sockfd ≠ fd := by
    intro q d hd
    obtain ⟨m, sk, hm, -⟩ := h.open_of_live hd
    refine ⟨fun heq => ?_, fun heq => ?_⟩
    · simp [heq, hp] at hd
    · simp [heq, hfd] at hm
  have hnowhere : ∀ k, ¬At s (lost maxTasks l) k p := fun k hk => by
    simpa [hp] using h.owned.lives hk
  have hmove : Moves p (some (.readEvent fd)) (At s (lost maxTasks l))
      (At t (lost maxTasks l)) := by
    have hother : ∀ k q, k ≠ .readEvent fd →
        (At t (lost maxTasks l) k q ↔ At s (lost maxTasks l) k q) := by
      intro k q hk
      cases k with
      | readEvent fd' =>
          have hne : fd' ≠ fd := fun heq => hk (by rw [heq])
          simp [At, hl, hevents, Function.update_of_ne hne]
      | writeEvent fd' =>
          by_cases heq : fd' = fd
          · subst heq
            refine ⟨fun hq => ?_, fun hq => absurd hq (h.not_at_event hfd q).2⟩
            have hwritable : (s.events fd').writable = true := by
              have hq := hq.1
              rw [hevents, Function.update_self] at hq
              exact hq
            obtain ⟨r, hr⟩ := Option.isSome_iff_exists.mp (h.small (.inr hwritable)).2
            exact absurd ⟨hwritable, hr⟩ (h.not_at_event hfd r).2
          · simp [At, hevents, Function.update_of_ne heq]
      | tasks => simp [At, htasks]
      | processing w => simp [At, hworkers]
      | registering w => simp [At, hworkers]
      | lost => simp [At]
    have hself : ∀ q, At t (lost maxTasks l) (.readEvent fd) q ↔ q = p := by
      intro q
      simp [At, hl, hloop, hevents, FileEvent.create, eq_comm]
    refine ⟨fun k => ?_, fun k q hne => ?_⟩
    · by_cases hk : k = .readEvent fd
      · subst hk
        simp [hself]
      · rw [hother k p hk]
        exact ⟨fun hq => absurd hq (hnowhere k), fun heq => absurd (Option.some.inj heq).symm hk⟩
    · by_cases hk : k = .readEvent fd
      · subst hk
        rw [hself]
        exact ⟨fun heq => absurd heq hne, fun hq => absurd hq (h.not_at_event hfd q).1⟩
      · exact hother k q hk
  have hfds_of : ∀ {fd' m}, t.fds fd' = some m → fd' = fd ∧ m = n ∨
      fd' ≠ fd ∧ s.fds fd' = some m := by
    intro fd' m hm
    rw [hfds] at hm
    by_cases heq : fd' = fd
    · subst heq
      exact .inl ⟨rfl, by simpa [eq_comm] using hm⟩
    · rw [Function.update_of_ne heq] at hm
      exact .inr ⟨heq, hm⟩
  have hsk_of : ∀ {m}, m ≠ n → t.sockets m = s.sockets m := fun hne => by
    rw [hsockets, Function.update_of_ne hne]
  have hconns_of : ∀ {q d}, t.conns q = some d → q = p ∧ d = .new fd ∨ s.conns q = some d := by
    intro q d hd
    rw [hconns] at hd
    by_cases heq : q = p
    · subst heq
      exact .inl ⟨rfl, by simpa [eq_comm] using hd⟩
    · rw [Function.update_of_ne heq] at hd
      exact .inr hd
  constructor
  · rw [hlost]
    refine h.owned.move hmove ?_ fun q hne => by rw [hconns, Function.update_of_ne hne]
    rw [hconns, Function.update_self]
    simp
  · intro k q d hq hd
    rw [hlost] at hq
    rcases hconns_of hd with ⟨rfl, rfl⟩ | hd
    · obtain rfl := Option.some.inj ((hmove.1 k).mp hq)
      refine ⟨n, socket, by rw [hfds]; exact Function.update_self .., by
        rw [hsockets, Function.update_self], rfl, ⟨hsocket.1, hanswers ▸ hans⟩, .inl ⟨rfl, ?_⟩⟩
      rw [hsocket.2]
    · obtain ⟨hqp, hdfd⟩ := hlive hd
      obtain ⟨m, sk, hm, hsk, hfits⟩ := h.fits ((hmove.2 k q hqp).mp hq) hd
      have hne : m ≠ n := fun heq => hunused _ (heq ▸ hm)
      refine ⟨m, sk, ?_, (hsk_of hne).trans hsk, hanswers ▸ hfits⟩
      rw [hfds, Function.update_of_ne hdfd]
      exact hm
  · intro q q' c d hc hd heq
    rcases hconns_of hc with ⟨rfl, rfl⟩ | hc <;> rcases hconns_of hd with ⟨rfl, rfl⟩ | hd
    · rfl
    · exact absurd heq.symm (hlive hd).2
    · exact absurd heq (hlive hc).2
    · exact h.apart hc hd heq
  · intro q d hd
    rcases hconns_of hd with ⟨-, rfl⟩ | hd
    · exact hsmall
    · exact h.below hd
  · intro fd₁ fd₂ m hm hm'
    rcases hfds_of hm with ⟨rfl, rfl⟩ | ⟨-, hm⟩ <;> rcases hfds_of hm' with ⟨rfl, hmn⟩ | ⟨-, hm'⟩
    · rfl
    · exact absurd hm' (hunused _)
    · exact absurd (hmn ▸ hm) (hunused _)
    · exact h.ids hm hm'
  · intro fd' m hm
    rcases hfds_of hm with ⟨rfl, rfl⟩ | ⟨-, hm⟩
    · rw [hsockets, Function.update_self]
      rfl
    · rw [hsk_of fun heq => hunused _ (heq ▸ hm)]
      exact h.known hm
  · intro fd' m hm hzero
    rcases hfds_of hm with ⟨rfl, rfl⟩ | ⟨-, hm⟩
    · exact ⟨p, .new fd', by rw [hconns, Function.update_self], rfl⟩
    · obtain ⟨q, d, hd, hsame⟩ := h.opened hm hzero
      refine ⟨q, d, ?_, hsame⟩
      rw [hconns, Function.update_of_ne (hlive hd).1]
      exact hd
  · intro fd' hev
    by_cases heq : fd' = fd
    · subst heq
      refine ⟨hsmall, ?_⟩
      rw [hevents, Function.update_self]
      rfl
    · rw [hevents, Function.update_of_ne heq] at hev ⊢
      exact h.small hev
  · rw [htasks]
    exact h.nodup
  · rw [hanswers]
    exact h.once
  · intro a ha
    rw [hanswers] at ha
    rw [hsk_of (hans a ha)]
    exact h.asked a ha
  · intro m sk hm
    rw [hanswers]
    by_cases heq : m = n
    · subst heq
      rw [hsockets, Function.update_self] at hm
      exact .inl (Option.some.inj hm ▸ hsocket.1)
    · rw [hsk_of heq] at hm
      exact h.replies hm
  · intro m hm
    rw [hfinished] at hm
    obtain ⟨hdone, hnone⟩ := h.complete m hm
    rw [hsk_of (hfin m hm), hanswers]
    refine ⟨hdone, fun {q d} hd hm' => ?_⟩
    rcases hfds_of hm' with ⟨-, rfl⟩ | ⟨hne, hm'⟩
    · exact hfin m hm rfl
    · rcases hconns_of hd with ⟨-, rfl⟩ | hd
      · exact hne rfl
      · exact hnone hd hm'

/-- **A client is accepted.** -/
lemma Inv.accept (h : Inv maxTasks l s) {stream : List (Arrival UInt8)} {room : List Room}
    {nonBlock added : Bool} (hen : s.Enabled (.accept p fd n stream room nonBlock added)) :
    ∃ s', NetServer.exec maxTasks (.accept p fd n stream room nonBlock added) s = .ok s' ∧
      Inv maxTasks ((s, .accept p fd n stream room nonBlock added) :: l) s' ∧
      Strays s (.accept p fd n stream room nonBlock added) s' := by
  obtain ⟨hloop, hp, hfd, hn⟩ := hen
  rw [Option.isNone_iff_eq_none] at hp hfd hn
  have hnotes : answers ((s, .accept p fd n stream room nonBlock added) :: l) = answers l ∧
      lost maxTasks ((s, .accept p fd n stream room nonBlock added) :: l) = lost maxTasks l ∧
      finished ((s, .accept p fd n stream room nonBlock added) :: l) = finished l := by
    rw [answers_cons, lost_cons, finished_cons]
    exact ⟨List.append_nil _, List.append_nil _, List.append_nil _⟩
  have hpnone : Function.update s.conns p none = s.conns :=
    Function.update_eq_self_iff.mpr hp.symm
  have hfdnone : Function.update s.fds fd none = s.fds := Function.update_eq_self_iff.mpr hfd.symm
  cases nonBlock with
  | false =>
      exact ⟨{ s with sockets := Function.update s.sockets n (some ⟨stream, stream, room, []⟩) },
        rfl, h.add_socket hn rfl ⟨rfl, rfl, rfl, rfl, rfl⟩ rfl (.inl rfl) hnotes, .inl rfl⟩
  | true =>
      have hcreate := createFileEvent_eq (s := { s with
        sockets := Function.update s.sockets n (some ⟨stream, stream, room, []⟩)
        fds := Function.update s.fds fd (some n)
        conns := Function.update s.conns p (some (.new fd)) }) (p := p) .readable added
        (Function.update_self ..)
      by_cases hbad : eventLoopSize ≤ fd ∨ added = false
      · have hexec : NetServer.exec maxTasks (.accept p fd n stream room true added) s =
            .ok { s with
            sockets := Function.update s.sockets n (some ⟨stream, stream, room, []⟩)
            fds := if fd = 0 then Function.update s.fds fd (some n) else s.fds } := by
          have hfree := connectionFree_eq (s := { s with
            sockets := Function.update s.sockets n (some ⟨stream, stream, room, []⟩)
            fds := Function.update s.fds fd (some n)
            conns := Function.update s.conns p (some (.new fd)) }) (p := p) (n := n)
            (Function.update_self ..) (Function.update_self ..)
          have hsockfd : (Connection.new fd).sockfd = fd := rfl
          simp only [Function.update_idem, hpnone, hsockfd, hfdnone] at hfree
          simp only [NetServer.exec, NetServer.onAcceptHandler, hcreate, if_pos hbad,
            Bool.true_eq_false, if_false]
          exact hfree
        refine ⟨_, hexec, h.add_socket hn rfl ⟨rfl, rfl, rfl, rfl, rfl⟩ rfl ?_ hnotes, .inl rfl⟩
        by_cases hzero : fd = 0
        · subst hzero
          refine .inr ⟨hfd, ?_⟩
          dsimp only
          rw [if_pos rfl]
        · exact .inl (if_neg hzero)
      · have hexec : NetServer.exec maxTasks (.accept p fd n stream room true added) s =
            .ok { s with
            sockets := Function.update s.sockets n (some ⟨stream, stream, room, []⟩)
            fds := Function.update s.fds fd (some n)
            conns := Function.update s.conns p (some (.new fd))
            events := Function.update s.events fd ((s.events fd).create p .readable) } := by
          simp only [NetServer.exec, NetServer.onAcceptHandler, hcreate, if_neg hbad,
            Bool.true_eq_false, if_false]
        rw [not_or, not_le] at hbad
        exact ⟨_, hexec, h.add_conn hloop hp hfd hn hbad.1 ⟨rfl, rfl⟩ ⟨rfl, rfl, rfl⟩ rfl rfl rfl
          rfl hnotes, .inl rfl⟩

/-- **One step** keeps the invariant, unless a worker goes on with a task that it does not have. -/
lemma Inv.step (h : Inv maxTasks l s) (hen : s.Enabled a) :
    (∃ s', NetServer.exec maxTasks a s = .ok s' ∧ Inv maxTasks ((s, a) :: l) s' ∧
      Strays s a s' ∧ ¬s.RunsStale a) ∨
    NetServer.exec maxTasks a s = .error .staleTask ∧ s.RunsStale a := by
  -- every step but the return of a dequeue has a lemma of this form
  have succeeds : ¬s.RunsStale a → (∃ s', NetServer.exec maxTasks a s = .ok s' ∧
      Inv maxTasks ((s, a) :: l) s' ∧ Strays s a s') →
      ∃ s', NetServer.exec maxTasks a s = .ok s' ∧ Inv maxTasks ((s, a) :: l) s' ∧
        Strays s a s' ∧ ¬s.RunsStale a := fun hnot ⟨s', hexec, h', hstrays⟩ =>
    ⟨s', hexec, h', hstrays, hnot⟩
  cases a with
  | accept p fd n stream room nonBlock added => exact .inl (succeeds id (h.accept hen))
  | read fd stale => exact .inl (succeeds id (h.read hen))
  | delete => exact .inl (succeeds id (h.delete hen))
  | write fd => exact .inl (succeeds id (h.write hen))
  | take w => exact .inl (succeeds id (h.take hen))
  | dequeueReturn w =>
      rcases h.dequeueReturn hen with ⟨s', hexec, h', hstrays, hnil⟩ | hstale
      · exact .inl ⟨s', hexec, h', hstrays, fun hne => hne hnil⟩
      · exact .inr hstale
  | process w body => exact .inl (succeeds id (h.process hen))
  | register w added => exact .inl (succeeds id (h.register hen))

lemma inv_init (maxTasks : ℕ) : Inv maxTasks [] .init where
  owned := by
    constructor
    · intro k p hk
      cases k <;> simp [At, NetServer.init, lost, System.notes] at hk
    · simp [NetServer.init]
    · intro k _ p hk
      cases k <;> simp [At, NetServer.init, lost, System.notes] at hk
  fits := by simp [NetServer.init]
  apart := by simp [NetServer.init]
  below := by simp [NetServer.init]
  ids := by simp [NetServer.init]
  known := by simp [NetServer.init]
  opened := by simp [NetServer.init]
  small := by simp [NetServer.init]
  nodup := by simp [NetServer.init]
  once := by simp [answers, System.notes]
  asked := by simp [answers, System.notes]
  replies := by simp [NetServer.init]
  complete := by simp [finished, System.notes]

/-- **Every run.** -/
lemma net_inv_of_run (hrun : (netSystem maxTasks).Run l s) : Inv maxTasks l s :=
  System.Run.invariant_of_cases (M := netSystem maxTasks) (Inv maxTasks) (inv_init maxTasks)
    (fun h hen => (h.step hen).imp (fun ⟨s', hexec, h', _⟩ => ⟨s', hexec, h'⟩)
      fun ⟨hexec, _⟩ => ⟨_, hexec⟩) hrun

end Steps

/-! ## The results -/

section Results

variable {maxTasks : ℕ} {l : NetHistory} {s : NetServer}

/-- **A connection has one owner.**  However the loop and the workers take turns, a step succeeds,
unless a worker whose dequeue found no task reads the size of the queue when one has arrived, and
runs a task that it does not have; a run ends there.  So no step uses a connection that has been
freed, frees one twice, follows a null pointer, or reads, writes, closes or registers a descriptor
that is not open.  Only the `epoll_ctl` of an `aeDeleteFileEvent` may come behind the `close`: then
no connection has the descriptor, and the loop drops the error.  A live connection is registered for
reading, or for writing, or in the queue, or with one worker, or its task has been dropped, and it
is never two of these; and these lead to live connections only.  Live connections have descriptors
of their own, and every open descriptor but `0` is a live connection's. -/
theorem connection_owned (hrun : (netSystem maxTasks).Run l s) :
    (∀ a, s.Enabled a → (∃ s', NetServer.exec maxTasks a s = .ok s') ∧ ¬s.RunsStale a ∨
      NetServer.exec maxTasks a s = .error .staleTask ∧ s.RunsStale a) ∧
    (∀ a s', s.Enabled a → NetServer.exec maxTasks a s = .ok s' → s'.ebadf = s.ebadf ∨
      ∃ fd, s.Unregisters fd a ∧ s'.ebadf = s.ebadf ++ [fd] ∧ s'.fds fd = none ∧
        ∀ p conn, s'.conns p = some conn → conn.sockfd ≠ fd) ∧
    (∀ p, (s.conns p).isSome = true ↔ ∃ k, At s (lost maxTasks l) k p) ∧
    (∀ p k k', At s (lost maxTasks l) k p → At s (lost maxTasks l) k' p → k = k') ∧
    (∀ p q c d, s.conns p = some c → s.conns q = some d → c.sockfd = d.sockfd → p = q) ∧
    (∀ fd, fd ≠ 0 → ((s.fds fd).isSome = true ↔
      ∃ p conn, s.conns p = some conn ∧ conn.sockfd = fd)) := by
  have h := net_inv_of_run hrun
  refine ⟨fun a hen => ?_, fun a s' hen hexec => ?_,
    fun p => ⟨h.owned.placed, fun ⟨k, hk⟩ => h.owned.lives hk⟩, fun p k k' => h.owned.unique,
    fun p q c d => h.apart, fun fd hzero => ⟨fun hfd => ?_, ?_⟩⟩
  · exact (h.step hen).imp_left fun ⟨s', hexec, _, _, hnot⟩ => ⟨⟨s', hexec⟩, hnot⟩
  · rcases h.step hen with ⟨s'', hexec', h', hstrays, -⟩ | ⟨hfault, -⟩
    · obtain rfl := Except.ok.inj (hexec'.symm.trans hexec)
      refine hstrays.imp_right fun ⟨fd, hfd, hebadf, hnone⟩ =>
        ⟨fd, hfd, hebadf, hnone, fun p conn hc heq => ?_⟩
      obtain ⟨n, socket, hn, -⟩ := h'.open_of_live hc
      rw [heq, hnone] at hn
      simp at hn
    · exact absurd (hfault.symm.trans hexec) (by simp)
  · obtain ⟨n, hn⟩ := Option.isSome_iff_exists.mp hfd
    exact h.opened hn hzero
  · rintro ⟨p, conn, hc, rfl⟩
    obtain ⟨n, socket, hn, -⟩ := h.open_of_live hc
    rw [hn]
    rfl

/-- What the uninitialised variable of the read handler holds. -/
def zeroStale : Stale := ⟨[0, 0, 0, 0], rfl⟩

/-- A run of two clients whose requests overlap: the second one is not understood, so a worker
closes its connection before the loop has deleted the event, and the first response goes out in two
pieces while its connection is read no more. -/
def twoClients : List NetStep :=
  [.accept 10 5 0 [.data 4 [0, 0, 0, 1, 0], .data 0 [0]] [.bytes 3, .again, .bytes 9] true true,
    .accept 11 6 1 [.data 4 [0, 0, 0, 9, 0, 0, 0]] [] true true,
    .read 5 zeroStale, .read 6 zeroStale, .take 0, .process 0 none, .delete,
    .read 5 zeroStale, .take 1, .process 1 (some [7, 7]), .register 1 true, .delete, .write 5]

/-- `connection_owned` while the first response is under way. -/
theorem connection_owned_sample : ∃ l s, (netSystem 16).Run l s ∧
    (s.conns 11).isNone = true ∧ s.ebadf = [6] ∧
      ∃ s', NetServer.exec 16 (.write 5) s = .ok s' := by
  obtain ⟨l, s, hrun, htest⟩ := System.exists_run_of_execAll (M := netSystem 16)
    (fun _ s => decide ((s.conns 11).isNone = true ∧ s.ebadf = [6] ∧ s.Enabled (.write 5)))
    twoClients (by decide +kernel)
  obtain ⟨hnone, hebadf, hen⟩ := of_decide_eq_true htest
  refine ⟨l, s, hrun, hnone, hebadf, ?_⟩
  rcases (connection_owned hrun).1 _ hen with ⟨hok, -⟩ | ⟨-, hstale⟩
  · exact hok
  · exact absurd hstale id

/-- A dequeue that finds the queue empty, and a task that arrives before it returns. -/
example : ∃ l s, (netSystem 16).Run l s ∧ s.Enabled (.dequeueReturn 0) ∧
    s.RunsStale (.dequeueReturn 0) := by
  obtain ⟨l, s, hrun, htest⟩ := System.exists_run_of_execAll (M := netSystem 16)
    (fun _ s => decide (s.workers 0 = .emptied ∧ s.tasks ≠ []))
    [.accept 10 5 0 [.data 4 [0, 0, 0, 1, 0, 0, 0]] [] true true, .take 0, .read 5 zeroStale]
    (by decide +kernel)
  obtain ⟨hemptied, hne⟩ := of_decide_eq_true htest
  exact ⟨l, s, hrun, hemptied, hne⟩

end Results

end TsEngine
