import LgxRuntime.Net.Connections
import Mathlib.Data.List.Induction
import Mathlib.Logic.Function.Basic
import Mathlib.Order.Lattice

/-!
# When connections time out

A connection should be closed when nothing has come from its address for too long.  When a connection was made
and when a packet came from an address is told from the calls and their results alone.  A packet refreshes the
first connection with its address, so that this is what the times in the table say as long as no two
connections share the address of a packet that arrives.
-/

namespace LgxRuntime.Net

open Function (update)

/-- The calls on a socket, with the time that they read off the clock. -/
inductive NetCall
  | connect (addr : NetAddr) (now : UInt64)
  | disconnect (connId : ℤ) (now : UInt64)
  | recv (received : Received) (now : UInt64)
  | update (now : UInt64)

/-- The time of a call. -/
def NetCall.now : NetCall → UInt64
  | .connect _ now => now
  | .disconnect _ now => now
  | .recv _ now => now
  | .update now => now

/-- The socket after a call. -/
def NetCall.run : NetCall → NetSocket → NetSocket
  | .connect addr now, s => (s.connect addr now).2
  | .disconnect connId _, s => (s.disconnect connId).2
  | .recv received now, s => (s.recv received now).2
  | .update now, s => s.update now

/-! ## The past -/

/-- When each connection was made, and when the last packet came from each address. -/
structure Past where
  connected : ℕ → Option UInt64
  received : NetAddr → Option UInt64

/-- Nothing has happened. -/
def Past.nothing : Past :=
  ⟨fun _ => none, fun _ => none⟩

/-- A connection was made. -/
def Past.connect (past : Past) (id : Option ℕ) (now : UInt64) : Past :=
  match id with
  | none => past
  | some i => { past with connected := update past.connected i (some now) }

/-- A packet came from an address. -/
def Past.packet (past : Past) (source : NetAddr) (now : UInt64) : Past :=
  { past with received := update past.received source (some now) }

/-- What has happened after a call on a socket. -/
def Past.after (past : Past) (s : NetSocket) : NetCall → Past
  | .connect addr now => past.connect (s.connect addr now).1 now
  | .disconnect _ _ => past
  | .recv (.error _) _ => past
  | .recv (.bytes count source) now =>
      if s.fd.isSome && 0 < count then past.packet source now else past
  | .update _ => past

/-- A time in milliseconds, zero if there is none. -/
def milliseconds (time : Option UInt64) : ℕ :=
  (time.map UInt64.toNat).getD 0

/-- The later of the times when the connection was made and when the last packet came from its address. -/
def Past.lastSign (past : Past) (id : ℕ) (addr : NetAddr) : ℕ :=
  max (milliseconds (past.connected id)) (milliseconds (past.received addr))

/-- A socket and what has happened to it. -/
structure Session where
  socket : NetSocket
  past : Past

/-- A new socket. -/
def Session.create (fd : Option ℕ) (maxConnections timeoutMs : UInt32) : Session :=
  ⟨.create fd maxConnections timeoutMs, .nothing⟩

/-- The session after a call. -/
def Session.step (session : Session) (call : NetCall) : Session :=
  ⟨call.run session.socket, session.past.after session.socket call⟩

/-- The session after some calls. -/
def Session.runAll (session : Session) (calls : List NetCall) : Session :=
  calls.foldl Session.step session

/-- The active connection with an id. -/
def NetSocket.Active (s : NetSocket) (id : ℕ) (c : Connection) : Prop :=
  s.connections[id]? = some (some c)

/-- `lgx_net_update` closes an active connection exactly if there has been no sign of it for too long. -/
def TimesOut (session : Session) (now : UInt64) : Prop :=
  ∀ id c, session.socket.Active id c →
    ((session.socket.update now).connections[id]? = some none ↔
      session.socket.timeoutMs.toNat < now.toNat - session.past.lastSign id c.addr)

/-- All updates close the connections that they should close. -/
def AllTimeOut (new : Session) (calls : List NetCall) : Prop :=
  ∀ before now, before ++ [.update now] <+: calls → TimesOut (new.runAll before) now

/-- No two active connections have the address. -/
def NetSocket.Unshared (s : NetSocket) (addr : NetAddr) : Prop :=
  ∀ id id' c c', s.Active id c → s.Active id' c' → c.addr = addr → c'.addr = addr → id = id'

/-- If the call receives a packet, no two active connections have its address. -/
def ArrivesUnshared (s : NetSocket) : NetCall → Prop
  | .recv (.bytes _ source) _ => s.Unshared source
  | _ => True

/-! ## One call -/

variable {s : NetSocket} {session : Session} {id : ℕ} {c : Connection} {now : UInt64} {addr : NetAddr}

theorem milliseconds_some (time : UInt64) : milliseconds (some time) = time.toNat := rfl

/-- A connection takes a free slot, or there is none. -/
theorem connect_cases (s : NetSocket) (addr : NetAddr) (now : UInt64) :
    ((s.connect addr now).1 = none ∧ (s.connect addr now).2 = s) ∨
      ∃ id, (s.connect addr now).1 = some id ∧ id < s.connections.length ∧
        (s.connect addr now).2.connections = s.connections.set id (some ⟨addr, now⟩) := by
  cases hfind : s.connections.findIdx? Option.isNone with
  | none => exact Or.inl (by simp only [NetSocket.connect, hfind, and_self])
  | some id =>
      obtain ⟨hlt, -⟩ := List.findIdx?_eq_some_iff_getElem.mp hfind
      exact Or.inr ⟨id, by simp only [NetSocket.connect, hfind], hlt, by simp only [NetSocket.connect, hfind]⟩

/-- A connection that is active after a disconnection was active before. -/
theorem Active.of_disconnect {connId : ℤ} (h : (s.disconnect connId).2.Active id c) : s.Active id c := by
  unfold NetSocket.disconnect at h
  split_ifs at h with hid
  · exact h
  · split at h
    · change (s.connections.set connId.toNat none)[id]? = some (some c) at h
      by_cases heq : connId.toNat = id
      · rw [heq, List.getElem?_set_self'] at h
        exact absurd h (by cases s.connections[id]? <;> simp)
      · rwa [List.getElem?_set_ne heq] at h
    · exact h

theorem getElem?_update (s : NetSocket) (now : UInt64) (h : s.Active id c) :
    (s.update now).connections[id]? = some (if s.timeoutMs.toUInt64 < now - c.lastRecvMs then none else some c) := by
  rw [NetSocket.update, List.getElem?_map, h]
  rfl

theorem Active.of_update (h : (s.update now).Active id c) : s.Active id c := by
  rw [NetSocket.Active, NetSocket.update, List.getElem?_map, Option.map_eq_some_iff] at h
  obtain ⟨slot, hslot, hupdate⟩ := h
  cases slot with
  | none => exact absurd hupdate (by simp [NetSocket.updateSlot])
  | some c' =>
      rw [NetSocket.updateSlot] at hupdate
      split_ifs at hupdate
      rw [NetSocket.Active, hslot, hupdate]

/-- A packet refreshes the first connection with its address, and no other. -/
theorem Active.of_recv {count : ℕ} {source : NetAddr} (hunshared : s.Unshared source)
    (h : (s.recv (.bytes count source) now).2.Active id c) :
    ∃ c', s.Active id c' ∧ c.addr = c'.addr ∧
      c.lastRecvMs = if (s.fd.isSome && 0 < count) = true ∧ c'.addr = source then now else c'.lastRecvMs := by
  by_cases hreceived : (s.fd.isSome && 0 < count) = true
  · obtain ⟨hfd, hcount⟩ := (Bool.and_eq_true ..).mp hreceived
    have hopen : ¬ s.fd.isNone = true := by simpa [← Option.isSome_iff_ne_none] using hfd
    cases hfind : s.connections.findIdx? fun slot => slot.any fun c => c.addr = source with
    | none =>
        have hother := SlotTable.findIdx?_any_eq_none_iff.mp hfind
        simp only [NetSocket.recv, if_neg hopen, if_pos (of_decide_eq_true hcount), hfind] at h
        have hmem : c ∈ s.connections.reduceOption :=
          List.reduceOption_mem_iff.mpr (List.mem_of_getElem? h)
        exact ⟨c, h, rfl, by rw [if_neg fun hsame => of_decide_eq_false (hother c hmem) hsame.2]⟩
    | some first =>
        obtain ⟨c', hfirst, haddr⟩ := SlotTable.getElem?_of_findIdx?_any hfind
        simp only [NetSocket.recv, if_neg hopen, if_pos (of_decide_eq_true hcount), hfind] at h
        change (s.connections.modify first (Option.map (NetSocket.refresh now)))[id]? = some (some c) at h
        by_cases heq : first = id
        · rw [heq] at hfirst
          rw [heq, List.getElem?_modify_eq, hfirst] at h
          obtain rfl : NetSocket.refresh now c' = c := by simpa using h
          exact ⟨c', hfirst, rfl, by rw [if_pos ⟨hreceived, of_decide_eq_true haddr⟩]; rfl⟩
        · rw [List.getElem?_modify_ne _ _ heq] at h
          refine ⟨c, h, rfl, ?_⟩
          rw [if_neg]
          intro hsame
          exact heq (hunshared first id c' c hfirst h (of_decide_eq_true haddr) hsame.2)
  · have hsame : (s.recv (.bytes count source) now).2 = s := by
      cases hfd : s.fd with
      | none => simp [NetSocket.recv, hfd]
      | some fd =>
          have hcount : ¬ 0 < count := by simpa [hfd] using hreceived
          simp [NetSocket.recv, hfd, hcount]
    rw [hsame] at h
    exact ⟨c, h, rfl, by rw [if_neg fun hboth => hreceived hboth.1]⟩

/-! ## The times in the table -/

/-- The times in the table are those of the last signs, and nothing has happened after `T`. -/
structure Kept (session : Session) (T : ℕ) : Prop where
  lastRecvMs : ∀ id c, session.socket.Active id c → c.lastRecvMs.toNat = session.past.lastSign id c.addr
  connected : ∀ id, milliseconds (session.past.connected id) ≤ T
  received : ∀ addr, milliseconds (session.past.received addr) ≤ T

theorem kept_create (fd : Option ℕ) (maxConnections timeoutMs : UInt32) (T : ℕ) :
    Kept (.create fd maxConnections timeoutMs) T := by
  refine ⟨fun id c hc => ?_, fun _ => Nat.zero_le _, fun _ => Nat.zero_le _⟩
  have hmem := List.mem_of_getElem? hc
  exact absurd (List.eq_of_mem_replicate hmem) (by simp)

theorem Kept.mono {T T' : ℕ} (h : Kept session T) (hle : T ≤ T') : Kept session T' :=
  ⟨h.lastRecvMs, fun id => (h.connected id).trans hle, fun addr => (h.received addr).trans hle⟩

theorem Kept.connect (h : Kept session now.toNat) (addr : NetAddr) :
    Kept (session.step (.connect addr now)) now.toNat := by
  obtain ⟨hnone, hsame⟩ | ⟨new, hnew, hlt, hconnections⟩ := connect_cases session.socket addr now
  · have hstep : session.step (.connect addr now) = session := by
      rw [Session.step, NetCall.run, Past.after, hsame, hnone]
      rfl
    rw [hstep]
    exact h
  · have hconnected : (session.step (.connect addr now)).past.connected =
        update session.past.connected new (some now) := by
      rw [Session.step, Past.after, hnew]
      rfl
    have hreceived : (session.step (.connect addr now)).past.received = session.past.received := by
      rw [Session.step, Past.after, hnew]
      rfl
    refine ⟨fun id c hc => ?_, fun id => ?_, fun addr' => ?_⟩
    · change (session.socket.connect addr now).2.connections[id]? = some (some c) at hc
      rw [hconnections] at hc
      rw [Past.lastSign, hconnected, hreceived]
      by_cases heq : new = id
      · rw [heq, List.getElem?_set_self (heq ▸ hlt)] at hc
        obtain rfl : (⟨addr, now⟩ : Connection) = c := by simpa using hc
        rw [heq, Function.update_self, milliseconds_some, max_eq_left (h.received addr)]
      · rw [List.getElem?_set_ne heq] at hc
        rw [Function.update_of_ne (Ne.symm heq)]
        exact h.lastRecvMs id c hc
    · rw [hconnected]
      by_cases heq : id = new
      · rw [heq, Function.update_self, milliseconds_some]
      · rw [Function.update_of_ne heq]
        exact h.connected id
    · rw [hreceived]
      exact h.received addr'

/-- A call that makes no connection active, and that no packet comes with. -/
theorem Kept.of_past_eq {T : ℕ} {session' : Session} (h : Kept session T) (hpast : session'.past = session.past)
    (hactive : ∀ id c, session'.socket.Active id c → session.socket.Active id c) : Kept session' T := by
  refine ⟨fun id c hc => ?_, ?_, ?_⟩
  · rw [hpast]
    exact h.lastRecvMs id c (hactive id c hc)
  · rw [hpast]
    exact h.connected
  · rw [hpast]
    exact h.received

theorem Kept.recv {count : ℕ} {source : NetAddr} (h : Kept session now.toNat)
    (hunshared : session.socket.Unshared source) :
    Kept (session.step (.recv (.bytes count source) now)) now.toNat := by
  by_cases hreceived : (session.socket.fd.isSome && 0 < count) = true
  · have hconnected : (session.step (.recv (.bytes count source) now)).past.connected = session.past.connected := by
      rw [Session.step, Past.after, if_pos hreceived]
      rfl
    have hpacket : (session.step (.recv (.bytes count source) now)).past.received =
        update session.past.received source (some now) := by
      rw [Session.step, Past.after, if_pos hreceived]
      rfl
    refine ⟨fun id c hc => ?_, fun id => ?_, fun addr => ?_⟩
    · obtain ⟨c', hc', haddr, hlast⟩ := Active.of_recv hunshared hc
      rw [Past.lastSign, hconnected, hpacket, haddr, hlast]
      by_cases hsource : c'.addr = source
      · rw [if_pos ⟨hreceived, hsource⟩, hsource, Function.update_self, milliseconds_some,
          max_eq_right (h.connected id)]
      · rw [if_neg fun hboth => hsource hboth.2, Function.update_of_ne hsource]
        exact h.lastRecvMs id c' hc'
    · rw [hconnected]
      exact h.connected id
    · rw [hpacket]
      by_cases heq : addr = source
      · rw [heq, Function.update_self, milliseconds_some]
      · rw [Function.update_of_ne heq]
        exact h.received addr
  · refine h.of_past_eq (by rw [Session.step, Past.after, if_neg hreceived]) fun id c hc => ?_
    obtain ⟨c', hc', haddr, hlast⟩ := Active.of_recv hunshared hc
    rw [if_neg fun hboth => hreceived hboth.1] at hlast
    obtain rfl : c = c' := by
      cases c
      cases c'
      simp_all
    exact hc'

/-- Whatever the call is, the times in the table stay right. -/
theorem Kept.step {call : NetCall} (h : Kept session call.now.toNat)
    (harrives : ArrivesUnshared session.socket call) : Kept (session.step call) call.now.toNat := by
  cases call with
  | connect addr now => exact h.connect addr
  | disconnect connId now => exact h.of_past_eq rfl fun id c hc => Active.of_disconnect hc
  | recv received now =>
      cases received with
      | error wouldBlock =>
          refine h.of_past_eq rfl fun id c hc => ?_
          change (session.socket.recv (.error wouldBlock) now).2.Active id c at hc
          unfold NetSocket.recv at hc
          split_ifs at hc
          · exact hc
          · exact hc
      | bytes count source => exact h.recv harrives
  | update now => exact h.of_past_eq rfl fun id c hc => Active.of_update hc

/-! ## All calls -/

theorem runAll_concat (session : Session) (calls : List NetCall) (call : NetCall) :
    session.runAll (calls ++ [call]) = (session.runAll calls).step call := by
  rw [Session.runAll, List.foldl_append]
  rfl

/-- Every packet arrives while no two active connections have its address. -/
def AllArriveUnshared (new : Session) (calls : List NetCall) : Prop :=
  ∀ before call, before ++ [call] <+: calls → ArrivesUnshared (new.runAll before).socket call

theorem kept_runAll {fd : Option ℕ} {maxConnections timeoutMs : UInt32} {calls : List NetCall}
    (hclock : calls.Pairwise fun a b => a.now ≤ b.now)
    (harrive : AllArriveUnshared (.create fd maxConnections timeoutMs) calls) {T : ℕ}
    (hT : ∀ call ∈ calls, call.now.toNat ≤ T) :
    Kept ((Session.create fd maxConnections timeoutMs).runAll calls) T := by
  induction calls using List.reverseRecOn generalizing T with
  | nil => exact kept_create fd maxConnections timeoutMs T
  | append_singleton calls call ih =>
      rw [List.pairwise_append] at hclock
      obtain ⟨hbefore, -, hlast⟩ := hclock
      have hkept := ih hbefore (fun front call' hfront => harrive front call' (hfront.trans (List.prefix_append _ _)))
        (T := call.now.toNat) fun call' hcall' =>
          UInt64.le_iff_toNat_le.mp (hlast call' hcall' call (List.mem_singleton_self call))
      rw [runAll_concat]
      exact (hkept.step (harrive calls call (List.prefix_refl _))).mono (hT call (by simp))

/-- Right times lead to right timeouts. -/
theorem Kept.timesOut (h : Kept session now.toNat) : TimesOut session now := by
  intro id c hc
  have hlast := h.lastRecvMs id c hc
  have hle : session.past.lastSign id c.addr ≤ now.toNat := max_le (h.connected id) (h.received c.addr)
  have helapsed : (now - c.lastRecvMs).toNat = now.toNat - session.past.lastSign id c.addr := by
    rw [UInt64.toNat_sub_of_le _ _ (UInt64.le_iff_toNat_le.mpr (hlast ▸ hle)), hlast]
  rw [getElem?_update _ _ hc, ← helapsed]
  by_cases hlong : session.socket.timeoutMs.toUInt64 < now - c.lastRecvMs
  · rw [if_pos hlong]
    exact iff_of_true rfl (by simpa [UInt64.lt_iff_toNat_lt] using hlong)
  · rw [if_neg hlong]
    exact iff_of_false (by simp) (by simpa [UInt64.lt_iff_toNat_lt] using hlong)

/-- If no two active connections have the address of a packet that arrives, every update closes exactly the
connections of which there has been no sign for too long. -/
theorem allTimeOut_of_unshared (fd : Option ℕ) (maxConnections timeoutMs : UInt32) (calls : List NetCall)
    (hclock : calls.Pairwise fun a b => a.now ≤ b.now)
    (harrive : AllArriveUnshared (.create fd maxConnections timeoutMs) calls) :
    AllTimeOut (.create fd maxConnections timeoutMs) calls := by
  intro before now hbefore
  have hpairwise := hclock.sublist hbefore.sublist
  rw [List.pairwise_append] at hpairwise
  obtain ⟨hfront, -, hlast⟩ := hpairwise
  refine Kept.timesOut (kept_runAll hfront (fun front call hbegin => ?_) fun call hcall => ?_)
  · exact harrive front call (hbegin.trans ((List.prefix_append _ _).trans hbefore))
  · exact UInt64.le_iff_toNat_le.mp (hlast call hcall (.update now) (List.mem_singleton_self _))

/-- A peer. -/
def peer : NetAddr :=
  ⟨16777343, 7777⟩

theorem unshared_of_length_le_one {s : NetSocket} (h : s.connections.length ≤ 1) (addr : NetAddr) :
    s.Unshared addr := by
  intro id id' c c' hc hc' _ _
  have hid := (List.getElem?_eq_some_iff.mp hc).1
  have hid' := (List.getElem?_eq_some_iff.mp hc').1
  omega

theorem maxConnections_run (call : NetCall) (s : NetSocket) : (call.run s).maxConnections = s.maxConnections := by
  cases call with
  | connect addr now =>
      rw [NetCall.run, NetSocket.connect]
      split <;> rfl
  | disconnect connId now =>
      rw [NetCall.run, NetSocket.disconnect]
      split_ifs
      · rfl
      · split <;> rfl
  | recv received now =>
      rw [NetCall.run]
      cases received with
      | error wouldBlock =>
          unfold NetSocket.recv
          split_ifs <;> rfl
      | bytes count source =>
          simp only [NetSocket.recv]
          split_ifs
          · rfl
          · split <;> rfl
          · rfl
  | update now => rfl

/-- The table keeps its size. -/
theorem maxConnections_runAll (session : Session) (calls : List NetCall) :
    (session.runAll calls).socket.maxConnections = session.socket.maxConnections := by
  induction calls using List.reverseRecOn with
  | nil => rfl
  | append_singleton calls call ih =>
      rw [runAll_concat]
      exact (maxConnections_run call _).trans ih

/-- A connection, a packet after four seconds, and an update after six. -/
def onePeer : List NetCall :=
  [.connect peer 0, .recv (.bytes 1 peer) 4000, .update 6000]

/-- One connection times out as it should. -/
theorem allTimeOut_onePeer : AllTimeOut (.create (some 3) 1 5000) onePeer := by
  refine allTimeOut_of_unshared (some 3) 1 5000 onePeer (by decide) fun before call hbefore => ?_
  have hlength := ((Session.create (some 3) 1 5000).runAll before).socket.length_connections
  rw [maxConnections_runAll] at hlength
  cases call with
  | connect addr now => trivial
  | disconnect connId now => trivial
  | update now => trivial
  | recv received now =>
      cases received with
      | error wouldBlock => trivial
      | bytes count source => exact unshared_of_length_le_one hlength.le source

/-- Two connections to one peer, a packet from it after four seconds, and an update after six. -/
def twoConnections : List NetCall :=
  [.connect peer 0, .connect peer 0, .recv (.bytes 1 peer) 4000, .update 6000]

/-- The second connection is closed two seconds after the packet. -/
theorem not_allTimeOut_twoConnections :
    twoConnections.Pairwise (fun a b => a.now ≤ b.now) ∧ ¬ AllTimeOut (.create (some 3) 2 5000) twoConnections := by
  refine ⟨by decide, fun h => ?_⟩
  have hclosed := h (twoConnections.take 3) 6000 (List.prefix_refl _) 1 ⟨peer, 0⟩ rfl
  exact absurd hclosed (by decide)

end LgxRuntime.Net
