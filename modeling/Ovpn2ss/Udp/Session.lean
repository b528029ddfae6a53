/-
  `UdpRelaySession` (`src/UdpRelaySession.cpp`): its members as functions on the state, and the
  completions and callbacks that run them as a machine.

  Everything runs on the thread of the instance's `io_context`, so each handler is one step. A
  mapping is known by its pcb, and pcbs by the order of their allocation. The timer of a
  mapping has its handlers in two stages, as any asio timer has: `waiting` until it expires, and
  then queued with success in `expired`, where neither `expires_after` nor the end of the timer
  reaches them. A receive that succeeded is queued in `arrived` in the same way, and closing
  the socket does not take it back. The owner starts a session it has just made, so no receive is
  outstanding at `start`, and `recv_buf_` and `recv_endpoint_` are those of one receive at a time.

  `lifetimeToken` is the token `lifetime_token_` points to; a token other than the present one
  holds `false`. An exception out of `on_udp_recv` would have to pass through lwIP's C code: it
  ends the process, and has no step. Nor has what lwIP aborts on: an empty datagram that
  `on_udp_recv` copies, and an empty payload that comes back from the resolver.

  `Fires` is the inversion of the machine, down to what `send_payload_to_ip` does (`Sends`).
-/
import Ovpn2ss.AddressCodec
import Ovpn2ss.Lib.Machine
import Ovpn2ss.Lib.Table
import Ovpn2ss.Lwip.Tcp

namespace Ovpn2ss.Udp

open Ovpn2ss.Aead Ovpn2ss.Lib Ovpn2ss.Lwip

/-- `asio::ip::address`. -/
structure AsioAddress where
  v6 : Bool
  bytes : Bytes
  scopeId : Nat
  deriving DecidableEq

/-- `asio::ip::udp::endpoint`. -/
structure Endpoint where
  address : AsioAddress
  port : Nat
  deriving DecidableEq

/-- The libraries below the session. -/
structure Platform where
  mbedtls : Mbedtls
  asio : Asio
  /-- `asio::ip::address::to_string`. -/
  addressToString : AsioAddress → Bytes
  /-- `ipaddr_aton`, `none` when it returns 0. -/
  ipaddrAton : Bytes → Option IpAddr
  ipaddrNtoa : IpAddr → Bytes

structure Mapping where
  pcb : Nat
  client : Endpoint
  target : TargetAddress
  key : Bytes
  deriving DecidableEq

/-- An `async_wait` on the idle timer of a mapping, with the key its handler captures. -/
structure Wait where
  /-- The number of the wait. -/
  serial : Nat
  /-- The pcb of the mapping that owns the timer. -/
  timer : Nat
  key : Bytes
  deriving DecidableEq

/-- What the handler passed to `async_resolve` captures. -/
structure Resolution where
  token : Option Nat
  payload : Bytes
  client : Endpoint
  target : TargetAddress
  deriving DecidableEq

/-- What a session does to the outside. -/
inductive Action where
  | asyncReceiveFrom
  /-- `async_resolve`, and whether it comes to allocate a pcb for a question. -/
  | asyncResolve (host : Bytes) (asks : Bool)
  | udpNew (pcb : Nat)
  | udpRemove (pcb : Nat)
  | udpSendto (pcb : Nat) (payload : Bytes) (ip : IpAddr) (port : Nat)
  | asyncSendTo (datagram : Bytes) (client : Endpoint)
  deriving DecidableEq

structure UdpRelaySession where
  crypto : ShadowsocksAeadFactory
  mappings : Table Bytes Mapping
  lifetimeToken : Option Nat
  running : Bool
  /-- `socket_` has not been closed. -/
  socketOpen : Bool
  /-- The number of `async_receive_from` that have not completed. -/
  receives : Nat
  arrived : List (Bytes × Endpoint)
  resolving : List Resolution
  waiting : List Wait
  expired : List Wait
  /-- The tokens made, the pcbs allocated and the waits started so far. -/
  tokens : Nat
  pcbs : Nat
  waits : Nat
  trace : List Action

/-- What lwIP and the runtime answer while a datagram is sent. -/
structure UdpAnswers where
  /-- `udp_new_pcb()` is not null. -/
  udpNew : Bool
  /-- `pbuf_alloc` is not null. -/
  pbufAlloc : Bool
  /-- The runtime has a DNS server. -/
  dnsServer : Bool
  deriving DecidableEq

/-- The size of `recv_buf_`. -/
def RecvBufSize : Nat := 65536

def mappingKey (P : Platform) (client : Endpoint) (target : TargetAddress) : Bytes :=
  P.addressToString client.address ++ [0x3a] ++ toDecimal client.port ++ [0x7c] ++ target.host ++
    [0x3a] ++ toDecimal target.port

namespace UdpRelaySession

/-- The constructor. -/
def new (crypto : ShadowsocksAeadFactory) : UdpRelaySession where
  crypto := crypto
  mappings := ∅
  lifetimeToken := some 0
  running := false
  socketOpen := true
  receives := 0
  arrived := []
  resolving := []
  waiting := []
  expired := []
  tokens := 1
  pcbs := 0
  waits := 0
  trace := []

def log (s : UdpRelaySession) (act : Action) : UdpRelaySession := { s with trace := s.trace ++ [act] }

def receiveLoop (s : UdpRelaySession) : UdpRelaySession :=
  if !s.running then s else { s.log .asyncReceiveFrom with receives := s.receives + 1 }

def start (s : UdpRelaySession) : UdpRelaySession :=
  let s :=
    if s.lifetimeToken.isNone then { s with lifetimeToken := some s.tokens, tokens := s.tokens + 1 }
    else s
  { s with running := true }.receiveLoop

/-- `stop`. The timers go with their mappings, and with them the handlers that wait. -/
def stop (s : UdpRelaySession) : UdpRelaySession :=
  let pcbs := s.mappings.values.map (·.pcb)
  { s with
    running := false
    lifetimeToken := none
    socketOpen := false
    mappings := ∅
    waiting := s.waiting.filter (·.timer ∉ pcbs)
    trace := s.trace ++ pcbs.map .udpRemove }

/-! ## From the client to lwIP -/

variable (P : Platform)

def mappingFor (s : UdpRelaySession) (udpNew : Bool) (client : Endpoint) (target : TargetAddress) :
    Except String Mapping × UdpRelaySession :=
  let key := mappingKey P client target
  match s.mappings.lookup key with
  | some mapping => (.ok mapping, s)
  | none =>
    if !udpNew then (.error "udp_new failed", s)
    else
      let mapping : Mapping := ⟨s.pcbs, client, target, key⟩
      (.ok mapping, { s.log (.udpNew s.pcbs) with
        pcbs := s.pcbs + 1
        mappings := s.mappings.insert key mapping })

/-- `arm_idle_timer`: `expires_after` cancels the handlers that wait on the timer. -/
def armIdleTimer (s : UdpRelaySession) (mapping : Mapping) : UdpRelaySession :=
  { s with
    waiting := s.waiting.filter (·.timer ≠ mapping.pcb) ++ [⟨s.waits, mapping.pcb, mapping.key⟩]
    waits := s.waits + 1 }

/-- `send_payload_to_ip` of a span whose `data()` may be null, `none` if it aborts. Both lengths are
    `static_cast<u16_t>(payload.size())`, and the result of `udp_sendto` is ignored. -/
def sendPayloadToIp (s : UdpRelaySession) (a : UdpAnswers) (isNull : Bool) (payload : Bytes)
    (client : Endpoint) (target : TargetAddress) (ip : IpAddr) : Option UdpRelaySession :=
  match s.mappingFor P a.udpNew client target with
  | (.error _, s) => some s
  | (.ok mapping, s) =>
    let s := s.armIdleTimer mapping
    if !a.pbufAlloc then some s
    else (pbufTake isNull payload).map fun p => s.log (.udpSendto mapping.pcb p ip target.port)

/-- `resolve_domain_then_send`. An exception of `async_resolve` is caught by the caller, and may
    leave the handler registered. A host that is an address is answered at once, and so is one for
    which there is no server; otherwise `async_resolve` allocates a pcb. -/
def resolveDomainThenSend (s : UdpRelaySession) (a : UdpAnswers) (payload : Bytes) (client : Endpoint)
    (target : TargetAddress) : UdpRelaySession :=
  let asks := (P.ipaddrAton target.host).isNone && a.dnsServer && a.udpNew
  { s.log (.asyncResolve target.host asks) with
    resolving := s.resolving ++ [⟨s.lifetimeToken, payload, client, target⟩] }

def parseIp (host : Bytes) : Except String IpAddr :=
  match P.ipaddrAton host with
  | none => .error ("invalid UDP target IP: " ++ text host)
  | some ip => .ok ip

/-- `send_to_lwip`. Whatever is thrown is caught, and nothing is done. The payload is a part of the
    plaintext, so its `data()` is not null even if it is empty. -/
def sendToLwip (s : UdpRelaySession) (a : UdpAnswers) (datagram : Bytes) (client : Endpoint) :
    Option UdpRelaySession :=
  match s.crypto.makeSession.decryptUdpPacket P.mbedtls datagram with
  | .error _ => some s
  | .ok none => some s
  | .ok (some plain) =>
    match parseSsAddress plain with
    | none => some s
    | some (target, bytes) =>
      if target.type = .Domain then some (s.resolveDomainThenSend P a bytes client target)
      else
        match parseIp P target.host with
        | .error _ => some s
        | .ok ip => s.sendPayloadToIp P a false bytes client target ip

/-- The handler passed to `async_resolve`. Its payload is a vector of its own, whose `data()` is null
    if it is empty. -/
def onResolved (s : UdpRelaySession) (a : UdpAnswers) (r : Resolution) (err : ErrT)
    (ip : Option IpAddr) : Option UdpRelaySession :=
  match ip with
  | none => some s
  | some ip =>
    if r.token.isNone ∨ r.token ≠ s.lifetimeToken ∨ !s.running ∨ err ≠ .ERR_OK then some s
    else s.sendPayloadToIp P a r.payload.isEmpty r.payload r.client r.target ip

/-! ## From lwIP to the client -/

/-- The address of a reply: the domain that was asked for, or where the datagram comes from. -/
def replyTarget (mapping : Mapping) (addr : IpAddr) (port : Nat) : TargetAddress :=
  let target := { mapping.target with port := port }
  if mapping.target.type ≠ .Domain then
    { target with host := P.ipaddrNtoa addr, type := if addr.v6 then .Ipv6 else .Ipv4 }
  else target

def sendToClient (s : UdpRelaySession) (mapping : Mapping) (payload : Bytes) (addr : IpAddr)
    (port : Nat) (rng : Option Salt) : Except String UdpRelaySession :=
  match encodeSsAddress P.asio (replyTarget P mapping addr port) with
  | .error e => .error e
  | .ok plain =>
    match (s.crypto.makeSession.encryptUdpPacket P.mbedtls rng (plain ++ payload)).1 with
    | .error e => .error e
    | .ok encrypted => .ok (s.log (.asyncSendTo encrypted mapping.client))

/-- `on_udp_recv`; `p` is the content of the pbuf, `none` a null pbuf. The copy of an empty pbuf
    aborts. -/
def onUdpRecv (s : UdpRelaySession) (mapping : Mapping) (p : Option Bytes) (addr : IpAddr)
    (port : Nat) (rng : Option Salt) : Except String UdpRelaySession :=
  match p with
  | none => .ok s
  | some p =>
    match pbufCopyPartial p with
    | none => .error "pbuf_copy_partial: invalid dataptr"
    | some payload => s.sendToClient P mapping payload addr port rng

/-! ## Idle mappings -/

def eraseMapping (s : UdpRelaySession) (key : Bytes) : UdpRelaySession :=
  match s.mappings.lookup key with
  | none => s
  | some mapping =>
    { s.log (.udpRemove mapping.pcb) with
      mappings := s.mappings.erase key
      waiting := s.waiting.filter (·.timer ≠ mapping.pcb) }

/-! ## Events -/

inductive Event where
  | start
  | stop
  /-- A datagram from `client` completes a receive. -/
  | arrive (datagram : Bytes) (client : Endpoint)
  /-- The handler of the receive that completed first runs. -/
  | received (a : UdpAnswers)
  /-- The handler of a receive that failed runs. -/
  | receiveFailed
  | resolved (r : Resolution) (err : ErrT) (ip : Option IpAddr) (a : UdpAnswers)
  /-- A datagram from `addr` and `port` for the pcb of the mapping under `key`. -/
  | udpRecv (key : Bytes) (p : Option Bytes) (addr : IpAddr) (port : Nat) (rng : Option Salt)
  | expire (w : Wait)
  | timeout (w : Wait)

def step (s : UdpRelaySession) : Event → Option UdpRelaySession
  | .start => if s.receives = 0 ∧ s.arrived = [] then some s.start else none
  | .stop => some s.stop
  | .arrive datagram client =>
    if s.socketOpen ∧ 0 < s.receives ∧ datagram.length ≤ RecvBufSize then
      some { s with receives := s.receives - 1, arrived := s.arrived ++ [(datagram, client)] }
    else none
  | .received a =>
    match s.arrived with
    | [] => none
    | (datagram, client) :: arrived =>
      ({ s with arrived := arrived }.sendToLwip P a datagram client).map receiveLoop
  | .receiveFailed =>
    if 0 < s.receives then some { s with receives := s.receives - 1 }.receiveLoop else none
  | .resolved r err ip a =>
    if r ∈ s.resolving then { s with resolving := s.resolving.erase r }.onResolved P a r err ip
    else none
  | .udpRecv key p addr port rng =>
    match s.mappings.lookup key with
    | none => none
    | some mapping =>
      match s.onUdpRecv P mapping p addr port rng with
      | .error _ => none
      | .ok s => some s
  | .expire w =>
    if w ∈ s.waiting then
      some { s with waiting := s.waiting.erase w, expired := s.expired ++ [w] }
    else none
  | .timeout w =>
    if w ∈ s.expired then some ({ s with expired := s.expired.erase w }.eraseMapping w.key) else none

/-! ## What a step can do -/

/-- The mapping that `mapping_for` makes. -/
def newMapping (s : UdpRelaySession) (client : Endpoint) (target : TargetAddress) : Mapping :=
  ⟨s.pcbs, client, target, mappingKey P client target⟩

/-- What goes out on the pcb of a mapping, if there is a pbuf for it. -/
def sendsOn (a : UdpAnswers) (payload : Bytes) (pcb : Nat) (ip : IpAddr) (port : Nat) : List Action :=
  if a.pbufAlloc then [.udpSendto pcb (payload.take (payload.length % 65536)) ip port] else []

/-- What `send_payload_to_ip` does: nothing, or it sends over the mapping it has found or made. -/
inductive Sends (s : UdpRelaySession) (a : UdpAnswers) (payload : Bytes) (client : Endpoint)
    (target : TargetAddress) (ip : IpAddr) : UdpRelaySession → Prop
  | refused (hl : s.mappings.lookup (mappingKey P client target) = none) (hnew : a.udpNew = false) :
      Sends s a payload client target ip s
  | found {mapping : Mapping} (hl : s.mappings.lookup (mappingKey P client target) = some mapping) :
      Sends s a payload client target ip
        { s.armIdleTimer mapping with
          trace := s.trace ++ sendsOn a payload mapping.pcb ip target.port }
  | made (hl : s.mappings.lookup (mappingKey P client target) = none) (hnew : a.udpNew = true) :
      Sends s a payload client target ip
        { s.armIdleTimer (s.newMapping P client target) with
          pcbs := s.pcbs + 1
          mappings := s.mappings.insert (mappingKey P client target) (s.newMapping P client target)
          trace := s.trace ++ .udpNew s.pcbs :: sendsOn a payload s.pcbs ip target.port }

/-- What `send_to_lwip` finds in a datagram: the target and the payload. -/
def opened (crypto : ShadowsocksAeadFactory) (datagram : Bytes) : Option (TargetAddress × Bytes) :=
  match crypto.makeSession.decryptUdpPacket P.mbedtls datagram with
  | .ok (some plain) => parseSsAddress plain
  | _ => none

/-- What `send_to_lwip` does: nothing, or it asks for a domain, or it sends. -/
inductive Handles (s : UdpRelaySession) (a : UdpAnswers) (datagram : Bytes) (client : Endpoint) :
    UdpRelaySession → Prop
  | closed (h : opened P s.crypto datagram = none) : Handles s a datagram client s
  | unreadable {target : TargetAddress} {payload : Bytes}
      (h : opened P s.crypto datagram = some (target, payload)) (htype : target.type ≠ .Domain)
      (hip : P.ipaddrAton target.host = none) : Handles s a datagram client s
  | asks {target : TargetAddress} {payload : Bytes}
      (h : opened P s.crypto datagram = some (target, payload)) (htype : target.type = .Domain) :
      Handles s a datagram client (s.resolveDomainThenSend P a payload client target)
  | sends {target : TargetAddress} {payload : Bytes} {ip : IpAddr} {s' : UdpRelaySession}
      (h : opened P s.crypto datagram = some (target, payload)) (htype : target.type ≠ .Domain)
      (hip : P.ipaddrAton target.host = some ip) (hs : Sends P s a payload client target ip s') :
      Handles s a datagram client s'

/-- The handler of a resolution does not send. -/
def Stale (s : UdpRelaySession) (r : Resolution) (err : ErrT) : Prop :=
  r.token.isNone ∨ r.token ≠ s.lifetimeToken ∨ !s.running ∨ err ≠ .ERR_OK

/-- What a step does, with the guard that let it happen. -/
inductive Fires : UdpRelaySession → Event → UdpRelaySession → Prop
  | start {s : UdpRelaySession} (hrecv : s.receives = 0) (harrived : s.arrived = []) :
      Fires s .start
        { s with
          lifetimeToken := if s.lifetimeToken.isNone then some s.tokens else s.lifetimeToken
          tokens := if s.lifetimeToken.isNone then s.tokens + 1 else s.tokens
          running := true
          receives := s.receives + 1
          trace := s.trace ++ [.asyncReceiveFrom] }
  | stop {s : UdpRelaySession} : Fires s .stop s.stop
  | arrive {s : UdpRelaySession} {datagram : Bytes} {client : Endpoint} (hopen : s.socketOpen = true)
      (hrecv : 0 < s.receives) (hlen : datagram.length ≤ RecvBufSize) :
      Fires s (.arrive datagram client)
        { s with receives := s.receives - 1, arrived := s.arrived ++ [(datagram, client)] }
  | received {s t : UdpRelaySession} {a : UdpAnswers} {datagram : Bytes} {client : Endpoint}
      {arrived : List (Bytes × Endpoint)} (h : s.arrived = (datagram, client) :: arrived)
      (ht : Handles P { s with arrived := arrived } a datagram client t) :
      Fires s (.received a) t.receiveLoop
  | receiveFailed {s : UdpRelaySession} (h : 0 < s.receives) :
      Fires s .receiveFailed { s with receives := s.receives - 1 }.receiveLoop
  | ignored {s : UdpRelaySession} {r : Resolution} {err : ErrT} {ip : Option IpAddr} {a : UdpAnswers}
      (h : r ∈ s.resolving) (hstale : ip = none ∨ s.Stale r err) :
      Fires s (.resolved r err ip a) { s with resolving := s.resolving.erase r }
  | resolved {s s' : UdpRelaySession} {r : Resolution} {err : ErrT} {ip : IpAddr} {a : UdpAnswers}
      (h : r ∈ s.resolving) (hlive : ¬ s.Stale r err)
      (hs : Sends P { s with resolving := s.resolving.erase r } a r.payload r.client r.target ip s') :
      Fires s (.resolved r err (some ip) a) s'
  | noPbuf {s : UdpRelaySession} {key : Bytes} {addr : IpAddr} {port : Nat} {rng : Option Salt}
      {mapping : Mapping} (h : s.mappings.lookup key = some mapping) :
      Fires s (.udpRecv key none addr port rng) s
  | udpRecv {s s' : UdpRelaySession} {key payload : Bytes} {addr : IpAddr} {port : Nat}
      {rng : Option Salt} {mapping : Mapping} (h : s.mappings.lookup key = some mapping)
      (hne : payload ≠ []) (hs : s.sendToClient P mapping payload addr port rng = .ok s') :
      Fires s (.udpRecv key (some payload) addr port rng) s'
  | expire {s : UdpRelaySession} {w : Wait} (h : w ∈ s.waiting) :
      Fires s (.expire w) { s with waiting := s.waiting.erase w, expired := s.expired ++ [w] }
  | missed {s : UdpRelaySession} {w : Wait} (h : w ∈ s.expired)
      (hl : s.mappings.lookup w.key = none) :
      Fires s (.timeout w) { s with expired := s.expired.erase w }
  | removed {s : UdpRelaySession} {w : Wait} {mapping : Mapping} (h : w ∈ s.expired)
      (hl : s.mappings.lookup w.key = some mapping) :
      Fires s (.timeout w)
        { s with
          expired := s.expired.erase w
          mappings := s.mappings.erase w.key
          waiting := s.waiting.filter (·.timer ≠ mapping.pcb)
          trace := s.trace ++ [.udpRemove mapping.pcb] }

variable {P}

/-- `receive_loop` in one equation. -/
theorem receiveLoop_eq (s : UdpRelaySession) :
    s.receiveLoop = { s with
      receives := if s.running then s.receives + 1 else s.receives
      trace := s.trace ++ if s.running then [.asyncReceiveFrom] else [] } := by
  by_cases hr : s.running = true
  · rw [receiveLoop, if_neg (by simp [hr]), if_pos hr, if_pos hr]
    rfl
  · rw [receiveLoop, if_pos (by simpa using hr), if_neg hr, if_neg hr, List.append_nil]

theorem start_eq (s : UdpRelaySession) :
    s.start = { s with
      lifetimeToken := if s.lifetimeToken.isNone then some s.tokens else s.lifetimeToken
      tokens := if s.lifetimeToken.isNone then s.tokens + 1 else s.tokens
      running := true
      receives := s.receives + 1
      trace := s.trace ++ [.asyncReceiveFrom] } := by
  unfold start
  rw [receiveLoop_eq]
  split <;> rfl

theorem mappingFor_cases (P : Platform) (s : UdpRelaySession) (udpNew : Bool) (client : Endpoint)
    (target : TargetAddress) :
    (∃ mapping, s.mappings.lookup (mappingKey P client target) = some mapping ∧
      s.mappingFor P udpNew client target = (.ok mapping, s)) ∨
    s.mappings.lookup (mappingKey P client target) = none ∧
      ((udpNew = false ∧ s.mappingFor P udpNew client target = (.error "udp_new failed", s)) ∨
        (udpNew = true ∧ s.mappingFor P udpNew client target =
          (.ok (s.newMapping P client target),
            { s with
              pcbs := s.pcbs + 1
              mappings := s.mappings.insert (mappingKey P client target) (s.newMapping P client target)
              trace := s.trace ++ [.udpNew s.pcbs] }))) := by
  unfold mappingFor
  dsimp only
  cases hl : s.mappings.lookup (mappingKey P client target) with
  | some mapping => exact Or.inl ⟨mapping, rfl, rfl⟩
  | none =>
    cases udpNew with
    | false => exact Or.inr ⟨rfl, Or.inl ⟨rfl, rfl⟩⟩
    | true => exact Or.inr ⟨rfl, Or.inr ⟨rfl, rfl⟩⟩

section

variable {s s' : UdpRelaySession} {a : UdpAnswers} {isNull : Bool} {payload datagram : Bytes}
  {client : Endpoint} {target : TargetAddress} {ip : IpAddr}

theorem sends_of_sendPayloadToIp (h : s.sendPayloadToIp P a isNull payload client target ip = some s') :
    Sends P s a payload client target ip s' := by
  -- what is left to do once there is a mapping
  have hrest {t : UdpRelaySession} {mapping : Mapping}
      (h : (if !a.pbufAlloc then some (t.armIdleTimer mapping)
        else (pbufTake isNull payload).map fun p =>
          (t.armIdleTimer mapping).log (.udpSendto mapping.pcb p ip target.port)) = some s') :
      s' = { t.armIdleTimer mapping with
        trace := t.trace ++ sendsOn a payload mapping.pcb ip target.port } := by
    unfold sendsOn
    cases halloc : a.pbufAlloc with
    | false =>
      rw [halloc] at h
      simpa [armIdleTimer] using (Option.some.inj h).symm
    | true =>
      rw [halloc] at h
      obtain ⟨p, hp, rfl⟩ := Option.map_eq_some_iff.mp h
      cases isNull with
      | true => cases hp
      | false =>
        obtain rfl := Option.some.inj hp
        rfl
  unfold sendPayloadToIp at h
  rcases mappingFor_cases P s a.udpNew client target with
    ⟨mapping, hl, he⟩ | ⟨hl, ⟨hnew, he⟩ | ⟨hnew, he⟩⟩ <;> rw [he] at h
  · rw [hrest h]
    exact .found hl
  · obtain rfl := Option.some.inj h
    exact .refused hl hnew
  · rw [hrest h]
    dsimp only
    rw [List.append_assoc]
    exact .made hl hnew

/-- `send_payload_to_ip` survives a payload that is not null. -/
theorem sendPayloadToIp_some (P : Platform) (s : UdpRelaySession) (a : UdpAnswers) (payload : Bytes)
    (client : Endpoint) (target : TargetAddress) (ip : IpAddr) :
    ∃ s', s.sendPayloadToIp P a false payload client target ip = some s' := by
  unfold sendPayloadToIp
  split
  · exact ⟨_, rfl⟩
  · dsimp only
    split <;> exact ⟨_, rfl⟩

/-- So does the handler of a resolution. -/
theorem onResolved_some (P : Platform) (s : UdpRelaySession) (a : UdpAnswers) {r : Resolution}
    (hne : r.payload ≠ []) (err : ErrT) (ip : Option IpAddr) :
    ∃ s', s.onResolved P a r err ip = some s' := by
  cases ip with
  | none => exact ⟨s, rfl⟩
  | some ip =>
    unfold onResolved
    dsimp only
    split
    · exact ⟨s, rfl⟩
    · rw [List.isEmpty_eq_false_iff.mpr hne]
      exact sendPayloadToIp_some P s a r.payload r.client r.target ip

/-- `send_to_lwip` never aborts. -/
theorem handles_sendToLwip (P : Platform) (s : UdpRelaySession) (a : UdpAnswers) (datagram : Bytes)
    (client : Endpoint) :
    ∃ s', s.sendToLwip P a datagram client = some s' ∧ Handles P s a datagram client s' := by
  have hclosed (h : opened P s.crypto datagram = none) : Handles P s a datagram client s := .closed h
  unfold sendToLwip
  cases hplain : s.crypto.makeSession.decryptUdpPacket P.mbedtls datagram with
  | error e => exact ⟨s, rfl, hclosed (by rw [opened, hplain])⟩
  | ok plain =>
    cases plain with
    | none => exact ⟨s, rfl, hclosed (by rw [opened, hplain])⟩
    | some plain =>
      have hopened : opened P s.crypto datagram = parseSsAddress plain := by rw [opened, hplain]
      dsimp only
      cases hparse : parseSsAddress plain with
      | none => exact ⟨s, rfl, hclosed (hopened.trans hparse)⟩
      | some parsed =>
        obtain ⟨target, payload⟩ := parsed
        rw [hparse] at hopened
        dsimp only
        by_cases htype : target.type = .Domain
        · rw [if_pos htype]
          exact ⟨_, rfl, .asks hopened htype⟩
        · rw [if_neg htype, parseIp]
          cases hip : P.ipaddrAton target.host with
          | none => exact ⟨s, rfl, .unreadable hopened htype hip⟩
          | some ip =>
            obtain ⟨s', hs⟩ := sendPayloadToIp_some P s a payload client target ip
            exact ⟨s', hs, .sends hopened htype hip (sends_of_sendPayloadToIp hs)⟩

/-- A datagram for an IP target that can be read is sent. -/
theorem Handles.sends_of_opened (hs : Handles P s a datagram client s')
    (hopened : opened P s.crypto datagram = some (target, payload)) (htype : target.type ≠ .Domain)
    (hip : P.ipaddrAton target.host = some ip) : Sends P s a payload client target ip s' := by
  cases hs with
  | closed h =>
    rw [hopened] at h
    cases h
  | unreadable h _ hnone =>
    cases hopened.symm.trans h
    cases hip.symm.trans hnone
  | asks h hdomain =>
    cases hopened.symm.trans h
    exact absurd hdomain htype
  | sends h _ hip' hsends =>
    cases hopened.symm.trans h
    cases hip.symm.trans hip'
    exact hsends

theorem Handles.running (hs : Handles P s a datagram client s') : s'.running = s.running := by
  cases hs with
  | closed | unreadable | asks => rfl
  | sends _ _ _ hsends => cases hsends <;> rfl

end

/-- The handler of a resolution. -/
theorem fires_resolved {s s' : UdpRelaySession} {r : Resolution} {err : ErrT} {ip : Option IpAddr}
    {a : UdpAnswers} (hr : r ∈ s.resolving)
    (hs : { s with resolving := s.resolving.erase r }.onResolved P a r err ip = some s') :
    Fires P s (.resolved r err ip a) s' := by
  cases ip with
  | none =>
    obtain rfl := Option.some.inj hs
    exact .ignored hr (Or.inl rfl)
  | some ip =>
    unfold onResolved at hs
    dsimp only at hs
    split at hs
    · next hstale =>
      obtain rfl := Option.some.inj hs
      exact .ignored hr (Or.inr hstale)
    · next hlive => exact .resolved hr hlive (sends_of_sendPayloadToIp hs)

/-- The inversion of `step`. -/
theorem fires_of_step {s s' : UdpRelaySession} {e : Event} (hs : s.step P e = some s') :
    Fires P s e s' := by
  cases e with
  | start =>
    simp only [step] at hs
    split at hs
    · next hidle =>
      obtain rfl := Option.some.inj hs
      rw [start_eq]
      exact .start hidle.1 hidle.2
    · cases hs
  | stop =>
    obtain rfl := Option.some.inj hs
    exact .stop
  | arrive datagram client =>
    simp only [step] at hs
    split at hs
    · next hguard =>
      obtain rfl := Option.some.inj hs
      exact .arrive hguard.1 hguard.2.1 hguard.2.2
    · cases hs
  | received a =>
    simp only [step] at hs
    split at hs
    · cases hs
    · next datagram client arrived harrived =>
      obtain ⟨t, ht, rfl⟩ := Option.map_eq_some_iff.mp hs
      obtain ⟨t', ht', hhandles⟩ := handles_sendToLwip P { s with arrived := arrived } a datagram client
      obtain rfl := Option.some.inj (ht.symm.trans ht')
      exact .received harrived hhandles
  | receiveFailed =>
    simp only [step] at hs
    split at hs
    · next hpos =>
      obtain rfl := Option.some.inj hs
      exact .receiveFailed hpos
    · cases hs
  | resolved r err ip a =>
    simp only [step] at hs
    split at hs
    · next hr => exact fires_resolved hr hs
    · cases hs
  | udpRecv key p addr port rng =>
    simp only [step] at hs
    split at hs
    · cases hs
    · next hl =>
      split at hs
      · cases hs
      · next hrecv =>
        obtain rfl := Option.some.inj hs
        cases p with
        | none =>
          obtain rfl := Except.ok.inj hrecv
          exact .noPbuf hl
        | some p =>
          simp only [onUdpRecv] at hrecv
          split at hrecv
          · cases hrecv
          · next hcopy =>
            obtain ⟨hne, rfl⟩ := pbufCopyPartial_eq_some.mp hcopy
            exact .udpRecv hl hne hrecv
  | expire w =>
    simp only [step] at hs
    split at hs
    · next hw =>
      obtain rfl := Option.some.inj hs
      exact .expire hw
    · cases hs
  | timeout w =>
    simp only [step] at hs
    split at hs
    · next hw =>
      obtain rfl := Option.some.inj hs
      unfold eraseMapping
      dsimp only
      split
      · next hl => exact .missed hw hl
      · next hl => exact .removed hw hl
    · cases hs

variable (P)

/-- The run from a new session to `s`. -/
def Reaches (crypto : ShadowsocksAeadFactory) (es : List Event) (s : UdpRelaySession) : Prop :=
  run (step P) (new crypto) es = some s

end UdpRelaySession

end Ovpn2ss.Udp
