import TsEngine.Framework.Stream
import TsEngine.Net.Server
import TsEngine.Tasks.QueueRuns

/-!
# The connections of the server

Every connection that the server has, on its way from the event loop to a worker of the thread pool
and back: accepted and read by the loop (`ts_server_on_read_handler`, from `Net/Server`), pushed as
a task, processed by a worker (`ts_server_request_process_handler`), and written by the loop
(`ts_server_on_write_handler`).  The loop and any number of workers take turns.  Between the push
and the `aeDeleteFileEvent` of the read handler, and between the response and the
`aeCreateFileEvent` of a worker, others move.

The event loop's table of events (`ae.c`) is changed by the loop and by the workers without a lock;
here an `aeCreateFileEvent` and an `aeDeleteFileEvent` are one step each, so the runs are those in
which no two of them overlap.  What a worker computes from the bytes of a request is up to the
engine and to protobuf: it is a parameter of the step.

The queue of the pool is its list of tasks, one step a critical section, as in `Tasks/QueueRuns`.  A
dequeue that finds it empty reads `queue->size` again after the unlock, which is a step of its own:
where a task has arrived in between, the worker goes on to run the task that it still has in its
variable, and that has been freed.  This is the fault `staleTask`.

The kernel's side of a descriptor is whether it is open.  A read, a write or a `close` on one that
is not is a fault.  An `epoll_ctl` on one fails with `EBADF`, and as `aeApiDelEvent` drops its
result, the model only notes it.
-/

namespace TsEngine

open Framework

/-- The address of a connection. -/
abbrev ConnPtr := ℕ

/-- A descriptor. -/
abbrev Fd := ℕ

/-- A socket that was accepted once, by its number. -/
abbrev SocketId := ℕ

/-- A socket: what its client sends, what of it has not been read, the room that writes will find,
and what has been written. -/
structure Socket where
  stream : List (Arrival UInt8)
  wire : List (Arrival UInt8)
  room : List Room
  sent : List UInt8

/-- `AE_READABLE` and `AE_WRITABLE`. -/
inductive EventMask
  | readable
  | writable

/-- `aeFileEvent`.  Its two procedures are the read and the write handler. -/
structure FileEvent where
  readable : Bool
  writable : Bool
  clientData : Option ConnPtr

namespace FileEvent

def create (e : FileEvent) (conn : ConnPtr) : EventMask → FileEvent
  | .readable => { e with readable := true, clientData := some conn }
  | .writable => { e with writable := true, clientData := some conn }

def delete (e : FileEvent) : EventMask → FileEvent
  | .readable => { e with readable := false }
  | .writable => { e with writable := false }

end FileEvent

/-- Where the event loop is: between two handlers, or in a read handler behind its push. -/
inductive LoopAt
  | polling
  | deleting (fd : Fd)
  deriving DecidableEq

/-- Where a worker is: in front of a dequeue, or behind the unlock of one that has found no task; or
it has taken a task with a connection, or has the response in place and is about to register the
write event. -/
inductive WorkerAt
  | idle
  | emptied
  | processing (conn : ConnPtr)
  | registering (conn : ConnPtr)
  deriving DecidableEq

/-- What can go wrong with a connection. -/
inductive NetFault
  | useAfterFree
  | nullDereference
  | badDescriptor
  /-- A worker runs a task again, or one that it never had. -/
  | staleTask

/-- The connections, sockets and descriptors, the loop and its events, and the pool. -/
structure NetServer where
  conns : ConnPtr → Option Connection
  sockets : SocketId → Option Socket
  fds : Fd → Option SocketId
  events : Fd → FileEvent
  loop : LoopAt
  tasks : List ConnPtr
  workers : ThreadId → WorkerAt
  /-- The descriptors that an `epoll_ctl` found not to be open, newest last. -/
  ebadf : List Fd

/-- The `setsize` of `aeCreateEventLoop(1024)`. -/
def eventLoopSize : ℕ := 1024

/-! ## Sending a packet -/

/-- How a call of the write handler leaves its loop. -/
inductive SendEnd
  | again
  | failed
  | done
  deriving DecidableEq

/-- The loop of `ts_server_on_write_handler`: how it ends, the packet and the room afterwards, and
what it has written. -/
def sendPacket (packet : NetPacket) (room : List Room) :
    SendEnd × NetPacket × List Room × List UInt8 :=
  if packet.len - packet.offset > 0 then
    match room with
    | [] => (.again, packet, [], [])
    | .again :: room => (.again, packet, room, [])
    | .failed :: room => (.failed, packet, .failed :: room, [])
    | .bytes more :: room =>
        let written := min (more + 1) (packet.len - packet.offset)
        let (r, packet', room', sent) := sendPacket
          { packet with offset := packet.offset + written } room
        (r, packet', room', (packet.data.drop packet.offset).take written ++ sent)
  else (.done, packet, room, [])

/-- `ts_adapter_response_operate_new` and `ts_adapter_response_lookup_new`, once the response is
packed to `body`. -/
def responseNew (body : List UInt8) : NetPacket :=
  ⟨4 + body.length, 0, encode body.length ++ body⟩

/-- `ts_server_request_process_handler` up to the response: which packet takes the place of the
request, or `none` if the connection is freed.  `body` is the packed response of the function that
the action selects, or `none` if the request cannot be unpacked. -/
def requestProcess (packet : NetPacket) (body : Option (List UInt8)) : Option NetPacket :=
  if packet.len < 4 then none
  else if decode (packet.data.take 4) ∈ [1, 2, 3] then body.map responseNew
  else none

/-! ## The steps -/

namespace NetServer

variable (s : NetServer)

/-- `ts_connection_free`. -/
def connectionFree (p : ConnPtr) : Except NetFault NetServer :=
  match s.conns p with
  | none => .error .useAfterFree
  | some conn =>
      let s := { s with conns := Function.update s.conns p none }
      if conn.sockfd = 0 then .ok s
      else
        match s.fds conn.sockfd with
        | none => .error .badDescriptor
        | some _ => .ok { s with fds := Function.update s.fds conn.sockfd none }

/-- `epoll_ctl` with the descriptor `fd`, and whether it is open. -/
def epollCtl (fd : Fd) : NetServer × Bool :=
  if (s.fds fd).isSome then (s, true) else ({ s with ebadf := s.ebadf ++ [fd] }, false)

/-- `aeCreateFileEvent`, and whether it returns `AE_OK`; `added` is what the kernel says of a
descriptor that is open. -/
def createFileEvent (fd : Fd) (mask : EventMask) (p : ConnPtr) (added : Bool) :
    NetServer × Bool :=
  if eventLoopSize ≤ fd then (s, false)
  else
    match s.epollCtl fd with
    | (s, false) => (s, false)
    | (s, true) =>
        if added = false then (s, false)
        else ({ s with events := Function.update s.events fd ((s.events fd).create p mask) }, true)

/-- `aeDeleteFileEvent`, which does not ask what became of the `epoll_ctl`. -/
def deleteFileEvent (fd : Fd) (mask : EventMask) : NetServer :=
  if eventLoopSize ≤ fd then s
  else if (s.events fd).readable = false ∧ (s.events fd).writable = false then s
  else
    let (s, _) := s.epollCtl fd
    { s with events := Function.update s.events fd ((s.events fd).delete mask) }

/-- `ts_threadpool_push` of a task for the connection, to a queue of `maxTasks`. -/
def push (maxTasks : ℕ) (p : ConnPtr) : NetServer :=
  if 0 < maxTasks ∧ maxTasks ≤ s.tasks.length then s else { s with tasks := s.tasks ++ [p] }

/-- `queue->size`, as the `int` that a dequeue returns. -/
def queueSize : ℤ := toInt32 (s.tasks.length % 2 ^ 32)

/-- The connection of an event, and the socket behind its descriptor. -/
def client (fd : Fd) : Except NetFault (ConnPtr × Connection × SocketId × Socket) :=
  match (s.events fd).clientData with
  | none => .error .nullDereference
  | some p =>
      match s.conns p with
      | none => .error .useAfterFree
      | some conn =>
          match s.fds conn.sockfd with
          | none => .error .badDescriptor
          | some n =>
              match s.sockets n with
              | none => .error .badDescriptor
              | some socket => .ok (p, conn, n, socket)

/-- The label `failed` of a handler. -/
def abandon (fd : Fd) (mask : EventMask) (p : ConnPtr) : Except NetFault NetServer := do
  let s ← s.connectionFree p
  return s.deleteFileEvent fd mask

/-- `ts_server_on_accept_handler`, where the kernel gives out the descriptor `fd` for the socket
`n` and the allocator the address `p`. -/
def onAcceptHandler (p : ConnPtr) (fd : Fd) (n : SocketId) (stream : List (Arrival UInt8))
    (room : List Room) (nonBlock added : Bool) : Except NetFault NetServer :=
  let s := { s with sockets := Function.update s.sockets n (some ⟨stream, stream, room, []⟩) }
  if nonBlock = false then .ok s
  else
    let s := { s with
      fds := Function.update s.fds fd (some n)
      conns := Function.update s.conns p (some (.new fd)) }
    match s.createFileEvent fd .readable p added with
    | (s, true) => .ok s
    | (s, false) => s.connectionFree p

/-- `ts_server_on_read_handler` up to its last `aeDeleteFileEvent`. -/
def onReadHandler (maxTasks : ℕ) (stale : Stale) (fd : Fd) : Except NetFault NetServer := do
  let (p, conn, n, socket) ← s.client fd
  match ReadState.onReadHandler stale ⟨some conn, socket.wire, true, []⟩ with
  | .error _ => .error .nullDereference
  | .ok r =>
      let s := { s with
        sockets := Function.update s.sockets n (some { socket with wire := r.wire }) }
      match r.conn with
      | none => s.abandon fd .readable p
      | some conn =>
          let s := { s with conns := Function.update s.conns p (some conn) }
          if r.readable then return s
          else return { s.push maxTasks p with loop := .deleting fd }

/-- `ts_server_on_write_handler`. -/
def onWriteHandler (fd : Fd) : Except NetFault NetServer := do
  let (p, conn, n, socket) ← s.client fd
  if conn.status = .sending then
    match conn.packet with
    | none => .error .nullDereference
    | some packet =>
        let (r, packet, room, sent) := sendPacket packet socket.room
        let s := { s with
          sockets := Function.update s.sockets n
            (some { socket with room, sent := socket.sent ++ sent })
          conns := Function.update s.conns p (some { conn with packet := some packet }) }
        if r = .again then return s else s.abandon fd .writable p
  else if conn.status = .finish then s.abandon fd .writable p
  else return s

/-- A worker puts the response in place of the request, or frees the connection. -/
def process (w : ThreadId) (body : Option (List UInt8)) (p : ConnPtr) :
    Except NetFault NetServer :=
  match s.conns p with
  | none => .error .useAfterFree
  | some conn =>
      match conn.packet with
      | none => .error .nullDereference
      | some packet =>
          match requestProcess packet body with
          | none =>
              ({ s with workers := Function.update s.workers w .idle }).connectionFree p
          | some response => .ok { s with
              conns := Function.update s.conns p
                (some { conn with packet := some response, status := .sending })
              workers := Function.update s.workers w (.registering p) }

/-- A worker registers the write event. -/
def register (w : ThreadId) (added : Bool) (p : ConnPtr) : Except NetFault NetServer :=
  match s.conns p with
  | none => .error .useAfterFree
  | some conn =>
      let s := { s with workers := Function.update s.workers w .idle }
      match s.createFileEvent conn.sockfd .writable p added with
      | (s, true) => .ok s
      | (s, false) => s.connectionFree p

end NetServer

/-- The steps of the loop and of the workers. -/
inductive NetStep
  | accept (p : ConnPtr) (fd : Fd) (n : SocketId) (stream : List (Arrival UInt8))
      (room : List Room) (nonBlock added : Bool)
  /-- The read handler up to its last `aeDeleteFileEvent`. -/
  | read (fd : Fd) (stale : Stale)
  /-- The last `aeDeleteFileEvent` of the read handler. -/
  | delete
  | write (fd : Fd)
  /-- The worker's dequeue up to the unlock, and its return if there was a task. -/
  | take (w : ThreadId)
  /-- The return of a dequeue that has found no task. -/
  | dequeueReturn (w : ThreadId)
  /-- The worker's handler of the task up to the response. -/
  | process (w : ThreadId) (body : Option (List UInt8))
  /-- The worker's `aeCreateFileEvent`. -/
  | register (w : ThreadId) (added : Bool)

namespace NetServer

/-- Nothing is connected. -/
def init : NetServer :=
  ⟨fun _ => none, fun _ => none, fun _ => none, fun _ => ⟨false, false, none⟩, .polling, [],
    fun _ => .idle, []⟩

/-- The effect of a step. -/
def exec (maxTasks : ℕ) : NetStep → NetServer → Except NetFault NetServer
  | .accept p fd n stream room nonBlock added, s =>
      s.onAcceptHandler p fd n stream room nonBlock added
  | .read fd stale, s => s.onReadHandler maxTasks stale fd
  | .delete, s =>
      match s.loop with
      | .deleting fd => .ok { s.deleteFileEvent fd .readable with loop := .polling }
      | .polling => .ok s
  | .write fd, s => s.onWriteHandler fd
  | .take w, s =>
      match s.tasks with
      | [] => .ok { s with workers := Function.update s.workers w .emptied }
      | p :: tasks => .ok { s with
          tasks
          workers := Function.update s.workers w
            (if 0 < s.queueSize then .processing p else .idle) }
  | .dequeueReturn w, s =>
      if 0 < s.queueSize then .error .staleTask
      else .ok { s with workers := Function.update s.workers w .idle }
  | .process w body, s =>
      match s.workers w with
      | .processing p => s.process w body p
      | _ => .ok s
  | .register w added, s =>
      match s.workers w with
      | .registering p => s.register w added p
      | _ => .ok s

/-- When a step may be taken: the kernel and the allocator give out what is not in use. -/
def Enabled (s : NetServer) : NetStep → Prop
  | .accept p fd n .. => s.loop = .polling ∧ (s.conns p).isNone = true ∧
      (s.fds fd).isNone = true ∧ (s.sockets n).isNone = true
  | .read fd _ => s.loop = .polling ∧ (s.events fd).readable = true
  | .delete => s.loop ≠ .polling
  | .write fd => s.loop = .polling ∧ (s.events fd).writable = true
  | .take w => s.workers w = .idle
  | .dequeueReturn w => s.workers w = .emptied
  | .process w _ => ∃ p, s.workers w = .processing p
  | .register w _ => ∃ p, s.workers w = .registering p

instance (w : WorkerAt) : Decidable (∃ p, w = .processing p) :=
  match w with
  | .processing p => isTrue ⟨p, rfl⟩
  | .idle | .emptied | .registering _ => isFalse (by simp)

instance (w : WorkerAt) : Decidable (∃ p, w = .registering p) :=
  match w with
  | .registering p => isTrue ⟨p, rfl⟩
  | .idle | .emptied | .processing _ => isFalse (by simp)

instance (s : NetServer) (a : NetStep) : Decidable (s.Enabled a) :=
  match a with
  | .accept .. => inferInstanceAs (Decidable (_ = _ ∧ _ = true ∧ _ = true ∧ _ = true))
  | .read .. => inferInstanceAs (Decidable (_ = _ ∧ _ = true))
  | .delete => inferInstanceAs (Decidable (_ ≠ _))
  | .write _ => inferInstanceAs (Decidable (_ = _ ∧ _ = true))
  | .take w => inferInstanceAs (Decidable (s.workers w = .idle))
  | .dequeueReturn w => inferInstanceAs (Decidable (s.workers w = .emptied))
  | .process w _ => inferInstanceAs (Decidable (∃ p, s.workers w = .processing p))
  | .register w _ => inferInstanceAs (Decidable (∃ p, s.workers w = .registering p))

end NetServer

/-- The loop and the workers, taking turns in any order, with a queue of `maxTasks`. -/
def netSystem (maxTasks : ℕ) : System NetServer NetStep NetFault where
  init := .init
  enabled _ s a := s.Enabled a
  exec := NetServer.exec maxTasks

instance (maxTasks : ℕ) (l : List (NetServer × NetStep)) (s : NetServer) (a : NetStep) :
    Decidable ((netSystem maxTasks).enabled l s a) := inferInstanceAs (Decidable (s.Enabled a))

/-! ## What a history says -/

/-- A worker whose dequeue has found no task is about to run one, for some have arrived since. -/
def NetServer.RunsStale (s : NetServer) : NetStep → Prop
  | .dequeueReturn _ => s.tasks ≠ []
  | .accept .. | .read .. | .delete | .write _ | .take _ | .process .. | .register .. => False

/-- The step has an `aeDeleteFileEvent` for `fd`. -/
def NetServer.Unregisters (s : NetServer) (fd : Fd) : NetStep → Prop
  | .read fd' _ | .write fd' => fd' = fd
  | .delete => s.loop = .deleting fd
  | .accept .. | .take _ | .dequeueReturn _ | .process .. | .register .. => False

/-- An answer: the socket, the bytes of the request, and those of the response, if there is one. -/
structure Answer where
  socket : SocketId
  request : List UInt8
  response : Option (List UInt8)

/-- The answer that a worker finds. -/
def answeredBy : NetServer × NetStep → Option Answer
  | (s, .process w body) =>
      match s.workers w with
      | .processing p => do
          let conn ← s.conns p
          let packet ← conn.packet
          let n ← s.fds conn.sockfd
          return ⟨n, packet.data, (requestProcess packet body).map NetPacket.data⟩
      | _ => none
  | _ => none

/-- The connection whose task is dropped because the queue is full. -/
def lostBy (maxTasks : ℕ) : NetServer × NetStep → Option ConnPtr
  | (s, .read fd stale) =>
      match s.onReadHandler maxTasks stale fd with
      | .ok s' =>
          if s'.loop = .deleting fd ∧ s'.tasks = s.tasks then (s.events fd).clientData else none
      | .error _ => none
  | _ => none

/-- The socket whose response is written to the end. -/
def finishedBy : NetServer × NetStep → Option SocketId
  | (s, .write fd) =>
      match s.client fd with
      | .ok (_, conn, n, socket) => do
          let packet ← conn.packet
          if conn.status = .sending ∧ (sendPacket packet socket.room).1 = .done then some n
          else none
      | .error _ => none
  | _ => none

end TsEngine
