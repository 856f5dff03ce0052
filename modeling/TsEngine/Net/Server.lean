import TsEngine.Framework.Stream
import TsEngine.Tasks.Queue

/-!
# Reading a request

`ts_server_on_read_handler` on one connection.  The event loop calls it as long as its read event is
registered and the socket is readable; what it reads is a stream that arrives in pieces
(`Framework/Stream`).  `packet_len` is an uninitialised variable that the first read of a connection
fills as far as it gets, so the handler depends on what was there before.
-/

namespace TsEngine

open Framework

/-- `MAX_PACKET_SIZE`. -/
def maxPacketSize : ℕ := 102400

/-- `enum ts_conn_status`. -/
inductive ConnStatus
  | waitRecv
  | receiving
  | recved
  | sending
  | finish
  deriving DecidableEq

/-- `ts_net_packet_t`. -/
structure NetPacket where
  len : ℕ
  offset : ℕ
  data : List UInt8
  deriving DecidableEq

/-- `ts_connection_t`. -/
structure Connection where
  sockfd : ℕ
  status : ConnStatus
  packet : Option NetPacket

/-- What can go wrong in the handler. -/
inductive ReadFault
  | useAfterFree
  | nullDereference

/-- What an uninitialised `int` holds. -/
abbrev Stale := { bytes : List UInt8 // bytes.length = 4 }

/-- A connection that is being read: `none` once it is freed, the arrivals that are left on its
socket, whether its read event is registered, and the packets of the tasks pushed. -/
structure ReadState where
  conn : Option Connection
  wire : List (Arrival UInt8)
  readable : Bool
  pushed : List NetPacket

/-- The bytes of an `int` in the order of a little-endian host. -/
def encode (n : ℕ) : List UInt8 :=
  [.ofNat n, .ofNat (n / 256), .ofNat (n / 65536), .ofNat (n / 16777216)]

/-- The `uint32_t` of four bytes. -/
def decode (bytes : List UInt8) : ℕ := Nat.ofDigits 256 (bytes.map UInt8.toNat)

/-- `ts_connection_new`. -/
def Connection.new (sockfd : ℕ) : Connection := ⟨sockfd, .waitRecv, none⟩

/-- `ts_calloc(1, sizeof(ts_net_packet_t) + packet_len)`, with its length. -/
def NetPacket.new (len : ℕ) : NetPacket := ⟨len, 0, List.replicate len 0⟩

/-- `nread` bytes read to `data + offset`. -/
def NetPacket.fill (packet : NetPacket) (chunk : List UInt8) : NetPacket where
  len := packet.len
  offset := packet.offset + chunk.length
  data := packet.data.take packet.offset ++ chunk ++
    packet.data.drop (packet.offset + chunk.length)

namespace ReadState

/-- A connection whose read event is registered. -/
def start (sockfd : ℕ) (wire : List (Arrival UInt8)) : ReadState :=
  ⟨some (.new sockfd), wire, true, []⟩

/-- The label `failed`: `ts_connection_free` and `aeDeleteFileEvent`. -/
def close (s : ReadState) : ReadState := { s with conn := none, readable := false }

/-- `ts_server->tp.push` of a task for the packet; it returns `0` always. -/
def push (s : ReadState) (packet : NetPacket) : ReadState × ℤ :=
  ({ s with pushed := s.pushed ++ [packet] }, 0)

/-- The handler from the read of the packet on. -/
def receive (conn : Connection) (s : ReadState) : Except ReadFault ReadState :=
  match conn.packet with
  | none => .error .nullDereference
  | some packet =>
      match Arrival.read (packet.len - packet.offset) s.wire with
      | (.again, wire) => .ok { s with conn := some conn, wire }
      | (.failed, wire) => .ok { s with wire }.close
      | (.bytes chunk, wire) =>
          let packet := packet.fill chunk
          let conn := { conn with packet := some packet }
          if packet.len = packet.offset then
            let (s, r) := { s with wire }.push packet
            if r < 0 then .ok s.close
            else .ok { s with conn := some { conn with status := .recved }, readable := false }
          else .ok { s with conn := some conn, wire }

/-- `ts_server_on_read_handler`. -/
def onReadHandler (stale : Stale) (s : ReadState) : Except ReadFault ReadState :=
  match s.conn with
  | none => .error .useAfterFree
  | some conn =>
      if conn.status = .waitRecv then
        let conn := { conn with status := .receiving }
        match Arrival.read 4 s.wire with
        | (.bytes chunk, wire) =>
            let packetLen := decode (chunk ++ stale.1.drop chunk.length)
            if toInt32 packetLen ≤ 0 ∨ maxPacketSize < toInt32 packetLen then
              .ok { s with wire }.close
            else receive { conn with packet := some (.new packetLen) } { s with wire }
        -- also for `EAGAIN`
        | (_, wire) => .ok { s with wire }.close
      else receive conn s

/-- The event loop calls the handler until its event is deleted, which leaves `t`. -/
inductive Serves (stale : Stale) : ReadState → ReadState → Prop
  | done {s : ReadState} (h : s.readable = false) : Serves stale s s
  | call {s s' t : ReadState} (h : s.readable = true) (hwire : s.wire ≠ [])
      (hexec : s.onReadHandler stale = .ok s') (hrest : Serves stale s' t) : Serves stale s t

end ReadState

end TsEngine
