/-
  The resolver of an `LwipRuntime` (`src/LwipRuntime.cpp`): `async_resolve`, `dns_recv`,
  `complete_dns_query` and `stop` as functions on its state, and their events as a machine.

  All of them run on the thread of the instance's `io_context`, so each is one step. What the
  handlers are is of no concern here: calls of `async_resolve` are numbered, and a query, a
  posted handler or a timer is known by the number of its call.

  A `DnsQuery` object is owned by `dns_queries_` alone once `async_resolve` has returned. So a
  query that `emplace` did not take is destroyed with its handler when the call returns, and
  its timer, just armed, is cancelled; `armTimeout` leaves such a timer out. Its pcb stays
  registered, and its argument dangles: a datagram for it has `dns_recv` read the id and the type of
  a query from freed memory (`Event.dangling`).

  An asio timer that has expired queues its handler with success, and `cancel` does not reach
  that handler any more; `waiting` and `expired` are the two stages.
-/
import Ovpn2ss.Address
import Ovpn2ss.Dns.Wire
import Ovpn2ss.Lib.Machine
import Ovpn2ss.Lib.Table

namespace Ovpn2ss.Dns

open Ovpn2ss.Lib Ovpn2ss.Lwip

/-- The DNS servers of a `TunConfig`. -/
structure TunConfig where
  ipv4Dns : List Bytes
  ipv6Dns : List Bytes
  deriving DecidableEq

structure DnsQuery where
  /-- The call whose handler this is. -/
  call : Nat
  id : Nat
  qtype : Nat
  deriving DecidableEq

/-- An `async_wait` on the timer of a query, with what its handler captures. -/
structure Wait where
  call : Nat
  id : Nat
  /-- The token `lifetime` points to. -/
  lifetime : Nat
  deriving DecidableEq

/-- A handler passed to `asio::post`, with its arguments. -/
structure Posting where
  call : Nat
  err : ErrT
  ip : Option IpAddr
  /-- The call whose failure, datagram or timer made the program post it. -/
  cause : Nat
  deriving DecidableEq

structure LwipRuntime where
  activeConfig : TunConfig
  /-- `next_id`, shared by all instances. -/
  nextId : Nat
  dnsQueries : Table Nat DnsQuery
  /-- Which token `lifetime_token_` points to, counted up when it is replaced. -/
  lifetime : Nat
  /-- `*lifetime_token_`. -/
  lifetimeToken : Bool
  /-- The UDP pcbs allocated and not removed, by the call that made them. -/
  udpPcbs : List Nat
  waiting : List Wait
  expired : List Wait
  posted : List Posting
  /-- The calls of `udp_sendto`: the payload and the destination. -/
  sent : List (Bytes × IpAddr × Nat)
  /-- The calls of `async_resolve` so far. -/
  calls : Nat
  /-- Those that returned normally. -/
  returned : List Nat
  /-- Those whose query `stop` has discarded. -/
  discarded : List Nat

/-- What lwIP answers during `async_resolve`. -/
structure DnsAnswers where
  /-- `udp_new_pcb()` is not null. -/
  udpNew : Bool
  /-- `pbuf_alloc` is not null. -/
  pbufAlloc : Bool
  sendto : ErrT

namespace LwipRuntime

/-- The calls whose queries are in `dns_queries_`. -/
def heldCalls (s : LwipRuntime) : List Nat := s.dnsQueries.values.map (·.call)

def new (config : TunConfig) : LwipRuntime where
  activeConfig := config
  nextId := 1
  dnsQueries := ∅
  lifetime := 0
  lifetimeToken := true
  udpPcbs := []
  waiting := []
  expired := []
  posted := []
  sent := []
  calls := 0
  returned := []
  discarded := []

/-- `asio::post` of the handler of `call` by that call itself. -/
def post (s : LwipRuntime) (call : Nat) (err : ErrT) (ip : Option IpAddr) : LwipRuntime :=
  { s with posted := s.posted ++ [⟨call, err, ip, call⟩] }

/-- `complete_dns_query`, on behalf of the call `cause`. -/
def completeDnsQuery (s : LwipRuntime) (id : Nat) (err : ErrT) (ip : Option IpAddr) (cause : Nat) :
    LwipRuntime :=
  match s.dnsQueries.lookup id with
  | none => s
  | some query =>
    { s with
      dnsQueries := s.dnsQueries.erase id
      waiting := s.waiting.filter (·.call ≠ query.call)
      udpPcbs := s.udpPcbs.erase query.call
      posted := s.posted ++ [⟨query.call, err, ip, cause⟩] }

variable (ipaddrAton : Bytes → Option IpAddr)

def parseIpAddr (host : Bytes) : Except String IpAddr :=
  match ipaddrAton host with
  | none => .error ("invalid IP address: " ++ text host)
  | some ip => .ok ip

def dnsServer (config : TunConfig) : Except String (Option IpAddr) :=
  match config.ipv4Dns, config.ipv6Dns with
  | front :: _, _ => some <$> parseIpAddr ipaddrAton front
  | [], front :: _ => some <$> parseIpAddr ipaddrAton front
  | [], [] => .ok none

/-- A new token, if `stop` has invalidated the last. -/
def renewLifetime (s : LwipRuntime) : LwipRuntime :=
  if s.lifetimeToken then s else { s with lifetime := s.lifetime + 1, lifetimeToken := true }

/-- `dns_queries_.emplace(id, query)`, whose result is ignored: a key that is taken stays. -/
def emplace (s : LwipRuntime) (query : DnsQuery) : LwipRuntime :=
  if (s.dnsQueries.lookup query.id).isSome then s
  else { s with dnsQueries := s.dnsQueries.insert query.id query }

/-- `query->timer.async_wait`, undone by the end of the call if nobody owns the query. -/
def armTimeout (s : LwipRuntime) (query : DnsQuery) : LwipRuntime :=
  if s.dnsQueries.lookup query.id = some query then
    { s with waiting := s.waiting ++ [⟨query.call, query.id, s.lifetime⟩] }
  else s

/-- `async_resolve` once the query has its pcb. -/
def sendDnsQuery (s : LwipRuntime) (a : DnsAnswers) (server : IpAddr) (host : Bytes)
    (query : DnsQuery) : Except String Unit × LwipRuntime :=
  let s := { s with udpPcbs := query.call :: s.udpPcbs }.emplace query
  match makeDnsQuery query.id host query.qtype with
  | .error e => (.error e, s)
  | .ok packet =>
    if !a.pbufAlloc then (.ok (), s.completeDnsQuery query.id .ERR_MEM none query.call)
    else
      let s := { s with sent := s.sent ++ [(packet.take (packet.length % 65536), server, DnsPort)] }
      if a.sendto ≠ .ERR_OK then (.ok (), s.completeDnsQuery query.id a.sendto none query.call)
      else (.ok (), s.armTimeout query)

def asyncResolve (s : LwipRuntime) (a : DnsAnswers) (host : Bytes) :
    Except String Unit × LwipRuntime :=
  let call := s.calls
  let s := { s.renewLifetime with calls := s.calls + 1 }
  match ipaddrAton host with
  | some literal => (.ok (), s.post call .ERR_OK (some literal))
  | none =>
    match dnsServer ipaddrAton s.activeConfig with
    | .error e => (.error e, s)
    | .ok none => (.ok (), s.post call .ERR_RTE none)
    | .ok (some server) =>
      let id := s.nextId % 65536
      let s := { s with nextId := (s.nextId + 1) % 2 ^ 32 }
      let qtype := if server.v6 then DnsTypeAaaa else DnsTypeA
      if !a.udpNew then (.ok (), s.post call .ERR_MEM none)
      else s.sendDnsQuery a server host ⟨call, id, qtype⟩

/-- `dns_recv` for a pcb whose argument is `query`; `none` if the process aborts, as it does on an
    empty datagram, or a read would leave the packet. -/
def dnsRecv (s : LwipRuntime) (query : DnsQuery) (p : Option Bytes) : Option LwipRuntime :=
  match p with
  | none => some s
  | some p => do
    let bytes ← pbufCopyPartial p
    let ip ← parseDnsResponse bytes query.id query.qtype
    return s.completeDnsQuery query.id (if ip.isSome then .ERR_OK else .ERR_VAL) ip query.call

/-- `stop`, as far as the queries go. -/
def stop (s : LwipRuntime) : LwipRuntime :=
  { s with
    lifetimeToken := false
    dnsQueries := ∅
    waiting := s.waiting.filter (·.call ∉ s.heldCalls)
    udpPcbs := s.udpPcbs.filter (· ∉ s.heldCalls)
    discarded := s.discarded ++ s.heldCalls }

/-- The handler of a timer that expired; `lifetime.lock()` succeeds for the present token only. -/
def onTimeout (s : LwipRuntime) (w : Wait) : LwipRuntime :=
  if w.lifetime = s.lifetime ∧ s.lifetimeToken then
    s.completeDnsQuery w.id .ERR_TIMEOUT none w.call
  else s

inductive Event where
  | resolve (host : Bytes) (a : DnsAnswers)
  /-- The tunnel comes up with another configuration. -/
  | configure (config : TunConfig)
  /-- The other instances draw `n` numbers from `next_id`. -/
  | othersDraw (n : Nat)
  /-- A datagram from `addr` and `port` for the pcb of the query under `id`. -/
  | datagram (id : Nat) (p : Option Bytes) (addr : IpAddr) (port : Nat)
  /-- A datagram for the pcb of a call whose query is gone. The id and the type are what the
      freed memory holds. -/
  | dangling (call id qtype : Nat) (p : Option Bytes)
  | expire (w : Wait)
  | timeout (w : Wait)
  | stop

def step (s : LwipRuntime) : Event → Option LwipRuntime
  | .resolve host a =>
    match s.asyncResolve ipaddrAton a host with
    | (.error _, s) => some s
    | (.ok (), s') => some { s' with returned := s'.returned ++ [s.calls] }
  | .configure config => some { s with activeConfig := config }
  | .othersDraw n => some { s with nextId := (s.nextId + n) % 2 ^ 32 }
  | .datagram id p _ _ =>
    match s.dnsQueries.lookup id with
    | none => none
    | some query => s.dnsRecv query p
  | .dangling call id qtype p =>
    if call ∈ s.udpPcbs ∧ call ∉ s.heldCalls then s.dnsRecv ⟨call, id, qtype⟩ p else none
  | .expire w =>
    if w ∈ s.waiting then
      some { s with waiting := s.waiting.erase w, expired := s.expired ++ [w] }
    else none
  | .timeout w =>
    if w ∈ s.expired then some ({ s with expired := s.expired.erase w }.onTimeout w) else none
  | .stop => some s.stop

/-! ## What `async_resolve` and a step can do -/

/-- The call has its number, and a token if the last is invalid. -/
def begun (s : LwipRuntime) : LwipRuntime :=
  { s with
    calls := s.calls + 1
    lifetime := if s.lifetimeToken then s.lifetime else s.lifetime + 1
    lifetimeToken := true }

/-- It has drawn an id. -/
def drawn (s : LwipRuntime) : LwipRuntime := { s.begun with nextId := (s.nextId + 1) % 2 ^ 32 }

/-- The query of the call that begins. -/
def ownQuery (s : LwipRuntime) (server : IpAddr) : DnsQuery where
  call := s.calls
  id := s.nextId % 65536
  qtype := if server.v6 then DnsTypeAaaa else DnsTypeA

/-- It has a pcb, and its query is in `dns_queries_` unless the id is taken. -/
def asked (s : LwipRuntime) (server : IpAddr) : LwipRuntime :=
  { s.drawn with
    udpPcbs := s.calls :: s.udpPcbs
    dnsQueries := if (s.dnsQueries.lookup (s.ownQuery server).id).isSome then s.dnsQueries
      else s.dnsQueries.insert (s.ownQuery server).id (s.ownQuery server) }

/-- Its question was passed to `udp_sendto`. -/
def questioned (s : LwipRuntime) (server : IpAddr) (packet : Bytes) : LwipRuntime :=
  { s.asked server with
    sent := s.sent ++ [(packet.take (packet.length % 65536), server, DnsPort)] }

/-- The call comes to the point where its query gets a pcb. -/
structure Reaches (s : LwipRuntime) (a : DnsAnswers) (host : Bytes) (server : IpAddr) : Prop where
  named : ipaddrAton host = none
  configured : dnsServer ipaddrAton s.activeConfig = .ok (some server)
  udpNew : a.udpNew = true

/-- The ends of `async_resolve`: what it returns and leaves, and why. -/
inductive Resolves (s : LwipRuntime) (a : DnsAnswers) (host : Bytes) :
    Except String Unit → LwipRuntime → Prop
  | literal {ip : IpAddr} (hlit : ipaddrAton host = some ip) :
      Resolves s a host (.ok ()) (s.begun.post s.calls .ERR_OK (some ip))
  | badServer {e : String} (hname : ipaddrAton host = none)
      (hserver : dnsServer ipaddrAton s.activeConfig = .error e) :
      Resolves s a host (.error e) s.begun
  | noServer (hname : ipaddrAton host = none)
      (hserver : dnsServer ipaddrAton s.activeConfig = .ok none) :
      Resolves s a host (.ok ()) (s.begun.post s.calls .ERR_RTE none)
  | noPcb (hname : ipaddrAton host = none) :
      Resolves s a host (.ok ()) (s.drawn.post s.calls .ERR_MEM none)
  | badName {server : IpAddr} {e : String} (hreach : Reaches ipaddrAton s a host server)
      (hname : makeDnsQuery (s.ownQuery server).id host (s.ownQuery server).qtype = .error e) :
      Resolves s a host (.error e) (s.asked server)
  | noPbuf {server : IpAddr} (hreach : Reaches ipaddrAton s a host server) :
      Resolves s a host (.ok ())
        ((s.asked server).completeDnsQuery (s.ownQuery server).id .ERR_MEM none s.calls)
  | refused {server : IpAddr} {packet : Bytes} (hreach : Reaches ipaddrAton s a host server)
      (herr : a.sendto ≠ .ERR_OK) :
      Resolves s a host (.ok ())
        ((s.questioned server packet).completeDnsQuery (s.ownQuery server).id a.sendto none s.calls)
  | sent {server : IpAddr} {packet : Bytes} (hreach : Reaches ipaddrAton s a host server)
      (hpacket : makeDnsQuery (s.ownQuery server).id host (s.ownQuery server).qtype = .ok packet) :
      Resolves s a host (.ok ()) ((s.questioned server packet).armTimeout (s.ownQuery server))

/-- What a step does, with the guard that let it happen. -/
inductive Fires : LwipRuntime → Event → LwipRuntime → Prop
  | threw {s t : LwipRuntime} {host : Bytes} {a : DnsAnswers} {e : String}
      (h : Resolves ipaddrAton s a host (.error e) t) : Fires s (.resolve host a) t
  | returned {s t : LwipRuntime} {host : Bytes} {a : DnsAnswers}
      (h : Resolves ipaddrAton s a host (.ok ()) t) :
      Fires s (.resolve host a) { t with returned := t.returned ++ [s.calls] }
  | configure {s : LwipRuntime} (config : TunConfig) :
      Fires s (.configure config) { s with activeConfig := config }
  | othersDraw {s : LwipRuntime} (n : Nat) :
      Fires s (.othersDraw n) { s with nextId := (s.nextId + n) % 2 ^ 32 }
  | datagram {s s' : LwipRuntime} {id : Nat} {p : Option Bytes} {addr : IpAddr} {port : Nat}
      {query : DnsQuery} (hq : s.dnsQueries.lookup id = some query)
      (hs : s.dnsRecv query p = some s') : Fires s (.datagram id p addr port) s'
  | dangling {s s' : LwipRuntime} {call id qtype : Nat} {p : Option Bytes}
      (hpcb : call ∈ s.udpPcbs) (hgone : call ∉ s.heldCalls)
      (hs : s.dnsRecv ⟨call, id, qtype⟩ p = some s') : Fires s (.dangling call id qtype p) s'
  | expire {s : LwipRuntime} {w : Wait} (h : w ∈ s.waiting) :
      Fires s (.expire w) { s with waiting := s.waiting.erase w, expired := s.expired ++ [w] }
  | timeout {s : LwipRuntime} {w : Wait} (h : w ∈ s.expired) :
      Fires s (.timeout w) ({ s with expired := s.expired.erase w }.onTimeout w)
  | stop {s : LwipRuntime} : Fires s .stop s.stop

variable {ipaddrAton}

/-- A datagram is ignored, or completes the query it is for with what it is parsed to. -/
theorem dnsRecv_cases {s s' : LwipRuntime} {query : DnsQuery} {p : Option Bytes}
    (hs : s.dnsRecv query p = some s') :
    s' = s ∨ ∃ bytes ip, p = some bytes ∧ bytes ≠ [] ∧
      parseDnsResponse bytes query.id query.qtype = some ip ∧
      s' = s.completeDnsQuery query.id (if ip.isSome then .ERR_OK else .ERR_VAL) ip query.call := by
  cases p with
  | none => exact Or.inl (Option.some.inj hs).symm
  | some p =>
    obtain ⟨bytes, hbytes, hs⟩ := Option.bind_eq_some_iff.mp hs
    obtain ⟨hne, rfl⟩ := pbufCopyPartial_eq_some.mp hbytes
    obtain ⟨ip, hip, hs⟩ := Option.bind_eq_some_iff.mp hs
    exact Or.inr ⟨p, ip, rfl, hne, hip, (Option.some.inj hs).symm⟩

theorem dnsRecv_some (s : LwipRuntime) (query : DnsQuery) {bytes : Bytes} {ip : Option IpAddr}
    (hne : bytes ≠ []) (hip : parseDnsResponse bytes query.id query.qtype = some ip) :
    s.dnsRecv query (some bytes) =
      some (s.completeDnsQuery query.id (if ip.isSome then .ERR_OK else .ERR_VAL) ip query.call) := by
  simp only [dnsRecv, pbufCopyPartial_eq_some.mpr ⟨hne, rfl⟩, Option.bind_eq_bind, Option.bind_some, hip]
  rfl

theorem completeDnsQuery_of_free {s : LwipRuntime} {id : Nat} (h : s.dnsQueries.lookup id = none)
    (err : ErrT) (ip : Option IpAddr) (cause : Nat) : s.completeDnsQuery id err ip cause = s := by
  rw [completeDnsQuery, h]

theorem completeDnsQuery_of_held {s : LwipRuntime} {id : Nat} {query : DnsQuery}
    (h : s.dnsQueries.lookup id = some query) (err : ErrT) (ip : Option IpAddr) (cause : Nat) :
    s.completeDnsQuery id err ip cause =
      { s with
        dnsQueries := s.dnsQueries.erase id
        waiting := s.waiting.filter (·.call ≠ query.call)
        udpPcbs := s.udpPcbs.erase query.call
        posted := s.posted ++ [⟨query.call, err, ip, cause⟩] } := by
  rw [completeDnsQuery, h]

/-- The token is the only thing that `async_resolve` may renew. -/
theorem renewLifetime_eq (s : LwipRuntime) :
    s.renewLifetime = { s with
      lifetime := if s.lifetimeToken then s.lifetime else s.lifetime + 1
      lifetimeToken := true } := by
  unfold renewLifetime
  cases htoken : s.lifetimeToken with
  | false => rfl
  | true =>
    rw [if_pos rfl, if_pos rfl]
    cases s
    cases htoken
    rfl

theorem emplace_eq (s : LwipRuntime) (query : DnsQuery) :
    s.emplace query = { s with
      dnsQueries := if (s.dnsQueries.lookup query.id).isSome then s.dnsQueries
        else s.dnsQueries.insert query.id query } := by
  unfold emplace
  split <;> rfl

theorem armTimeout_eq (s : LwipRuntime) (query : DnsQuery) :
    s.armTimeout query = { s with
      waiting := if s.dnsQueries.lookup query.id = some query
        then s.waiting ++ [⟨query.call, query.id, s.lifetime⟩] else s.waiting } := by
  unfold armTimeout
  split <;> rfl

theorem resolves_of_reaches {s : LwipRuntime} {a : DnsAnswers} {host : Bytes} {server : IpAddr}
    (hreach : Reaches ipaddrAton s a host server) :
    Resolves ipaddrAton s a host (s.drawn.sendDnsQuery a server host (s.ownQuery server)).1
      (s.drawn.sendDnsQuery a server host (s.ownQuery server)).2 := by
  unfold sendDnsQuery
  rw [emplace_eq]
  cases hpacket : makeDnsQuery (s.ownQuery server).id host (s.ownQuery server).qtype with
  | error e => exact .badName hreach hpacket
  | ok packet =>
    dsimp only
    split
    · exact .noPbuf hreach
    · split
      case isTrue herr => exact .refused hreach herr
      case isFalse => exact .sent hreach hpacket

/-- `async_resolve` up to the point where the query gets a pcb. -/
theorem asyncResolve_of_reaches {s : LwipRuntime} {a : DnsAnswers} {host : Bytes} {server : IpAddr}
    (h : Reaches ipaddrAton s a host server) :
    s.asyncResolve ipaddrAton a host =
      s.drawn.sendDnsQuery a server host (s.ownQuery server) := by
  simp only [asyncResolve, renewLifetime_eq, h.named, h.configured, h.udpNew, Bool.not_true,
    Bool.false_eq_true, if_false]
  rfl

/-- The inversion of `async_resolve`. -/
theorem resolves_asyncResolve (ipaddrAton : Bytes → Option IpAddr) (s : LwipRuntime) (a : DnsAnswers) (host : Bytes) :
    Resolves ipaddrAton s a host (s.asyncResolve ipaddrAton a host).1
      (s.asyncResolve ipaddrAton a host).2 := by
  cases hname : ipaddrAton host with
  | some literal =>
    simp only [asyncResolve, renewLifetime_eq, hname]
    exact .literal hname
  | none =>
    cases hserver : dnsServer ipaddrAton s.activeConfig with
    | error e =>
      simp only [asyncResolve, renewLifetime_eq, hname, hserver]
      exact .badServer hname hserver
    | ok server =>
      cases server with
      | none =>
        simp only [asyncResolve, renewLifetime_eq, hname, hserver]
        exact .noServer hname hserver
      | some server =>
        cases hudp : a.udpNew with
        | false =>
          simp only [asyncResolve, renewLifetime_eq, hname, hserver, hudp, Bool.not_false, if_true]
          exact .noPcb hname
        | true =>
          rw [asyncResolve_of_reaches ⟨hname, hserver, hudp⟩]
          exact resolves_of_reaches ⟨hname, hserver, hudp⟩

/-- The inversion of `step`. -/
theorem fires_of_step {s s' : LwipRuntime} {e : Event} (hs : step ipaddrAton s e = some s') :
    Fires ipaddrAton s e s' := by
  cases e with
  | resolve host a =>
    have hends := resolves_asyncResolve ipaddrAton s a host
    simp only [step] at hs
    rcases hr : s.asyncResolve ipaddrAton a host with ⟨_ | _, t⟩ <;> rw [hr] at hs hends
    · obtain rfl := Option.some.inj hs
      exact .threw hends
    · obtain rfl := Option.some.inj hs
      exact .returned hends
  | configure config =>
    obtain rfl := Option.some.inj hs
    exact .configure config
  | othersDraw n =>
    obtain rfl := Option.some.inj hs
    exact .othersDraw n
  | datagram id p addr port =>
    simp only [step] at hs
    split at hs
    · cases hs
    · next hq => exact .datagram hq hs
  | dangling call id qtype p =>
    simp only [step] at hs
    split at hs
    · next hpcb => exact .dangling hpcb.1 hpcb.2 hs
    · cases hs
  | expire w =>
    simp only [step] at hs
    split at hs
    · next hw =>
      obtain rfl := Option.some.inj hs
      exact .expire hw
    · cases hs
  | timeout w =>
    simp only [step] at hs
    split at hs
    · next hw =>
      obtain rfl := Option.some.inj hs
      exact .timeout hw
    · cases hs
  | stop =>
    obtain rfl := Option.some.inj hs
    exact .stop

end LwipRuntime

end Ovpn2ss.Dns
