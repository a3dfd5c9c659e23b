import LgxRuntime.Lib.SlotTable
import LgxRuntime.Runtime.Core

/-!
# Connections

A socket keeps its connections in a table of slots.  A connection is refreshed when a packet comes from its
address, and closed by `lgx_net_update` when it has not been refreshed for too long.  Times are those of
`time_ms`.
-/

namespace LgxRuntime.Net

open LgxRuntime.Runtime (LgxResult)

/-- `lgx_net_addr_t`. -/
structure NetAddr where
  ip : UInt32
  port : UInt16
  deriving DecidableEq

/-- A `connection_t` that is active; a slot that is not active is `none`. -/
structure Connection where
  addr : NetAddr
  lastRecvMs : UInt64
  deriving DecidableEq

/-- `lgx_net_socket`.  Without a file descriptor it is `none` (headless mode). -/
structure NetSocket where
  fd : Option ℕ
  connections : List (Option Connection)
  maxConnections : UInt32
  timeoutMs : UInt32
  length_connections : connections.length = maxConnections.toNat

/-- What `recvfrom` returns: an error, or the number of bytes that were received and where they came from. -/
inductive Received
  | error (wouldBlock : Bool)
  | bytes (count : ℕ) (source : NetAddr)

namespace NetSocket

/-- `lgx_net_socket_create`, when there is enough memory. -/
def create (fd : Option ℕ) (maxConnections timeoutMs : UInt32) : NetSocket where
  fd := fd
  connections := List.replicate (if 0 < maxConnections then maxConnections else 32).toNat none
  maxConnections := if 0 < maxConnections then maxConnections else 32
  timeoutMs := if 0 < timeoutMs then timeoutMs else 5000
  length_connections := List.length_replicate

/-- The connection is refreshed: a packet was received from its address. -/
def refresh (now : UInt64) (c : Connection) : Connection :=
  { c with lastRecvMs := now }

/-- `lgx_net_socket_recv`: what it returns, and the socket afterwards. -/
def recv (s : NetSocket) (received : Received) (now : UInt64) : ℤ × NetSocket :=
  if s.fd.isNone then (-1, s)
  else
    match received with
    | .error wouldBlock => (if wouldBlock then 0 else -1, s)
    | .bytes count source =>
        if 0 < count then
          match s.connections.findIdx? fun slot => slot.any fun c => c.addr = source with
          | none => (count, s)
          | some i =>
              (count, { s with
                connections := s.connections.modify i (Option.map (refresh now))
                length_connections := by
                  rw [List.length_modify]
                  exact s.length_connections })
        else (count, s)

/-- `lgx_net_connect`, to a host whose address is found: the id of the connection, and the socket
afterwards. -/
def connect (s : NetSocket) (addr : NetAddr) (now : UInt64) : Option ℕ × NetSocket :=
  match s.connections.findIdx? Option.isNone with
  | none => (none, s)
  | some i =>
      (some i, { s with
        connections := s.connections.set i (some ⟨addr, now⟩)
        length_connections := List.length_set.trans s.length_connections })

/-- `lgx_net_disconnect`. -/
def disconnect (s : NetSocket) (connId : ℤ) : LgxResult × NetSocket :=
  if connId < 0 || (s.maxConnections.toNat : ℤ) ≤ connId then (.invalidParam, s)
  else
    match s.connections[connId.toNat]? with
    | some (some _) =>
        (.success, { s with
          connections := s.connections.set connId.toNat none
          length_connections := List.length_set.trans s.length_connections })
    | _ => (.invalidParam, s)

/-- What `lgx_net_update` does to a slot. -/
def updateSlot (timeoutMs : UInt32) (now : UInt64) : Option Connection → Option Connection
  | none => none
  | some c => if timeoutMs.toUInt64 < now - c.lastRecvMs then none else some c

/-- `lgx_net_update`. -/
def update (s : NetSocket) (now : UInt64) : NetSocket :=
  { s with
    connections := s.connections.map (updateSlot s.timeoutMs now)
    length_connections := by
      rw [List.length_map]
      exact s.length_connections }

end NetSocket

end LgxRuntime.Net
