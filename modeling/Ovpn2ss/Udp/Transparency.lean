/-
  Datagrams pass through the relay unchanged, unless lwIP receives one without a payload.

  A datagram goes through the address codec, the packet framing and the AEAD, and its IP address
  through text: printed by `parse_ss_address` and read by `ipaddr_aton` on the way out, printed
  by `ipaddr_ntoa` and read by `asio` on the way back. `RoundTrips` says that the readers undo
  the printers for an address. `sendToLwip_sends` and `sendToClient_replies` are the two directions,
  and `udp_transparent_iff` has both for every state the session can reach. That the payload's
  length fits the 16 bits of lwIP's argument is a fact about runs: what was received fits `recv_buf_`
  (`inbox_run`). An empty datagram has a payload of no bytes, which `on_udp_recv` copies into a vector
  without storage; lwIP asserts that the destination is not null, and the process ends
  (`empty_datagram_aborts`).
-/
import Ovpn2ss.Aead.Packet
import Ovpn2ss.Udp.Mapping

namespace Ovpn2ss.Udp

open Ovpn2ss.Aead Ovpn2ss.Lib Ovpn2ss.Lwip
open Ovpn2ss.Aead.ShadowsocksAeadSession (decryptUdpPacket_encrypt encryptUdpPacket_total)

/-- The text that `parse_ss_address` prints for an address. -/
def ipText (addr : IpAddr) : Bytes := if addr.v6 then ipv6Text addr.bytes else ipv4Text addr.bytes

/-- An address as `asio` reads it. -/
def readAddress (asio : Asio) (v6 : Bool) (host : Bytes) : Option IpAddr :=
  if v6 then (asio.makeAddressV6 host).map fun addr => ⟨true, addr.val⟩
  else (asio.makeAddressV4 host).map fun addr => ⟨false, addr.val⟩

/-- The text conversions of lwIP and `asio` undo each other for an address: lwIP reads what
    `parse_ss_address` prints, and `asio` reads that and what lwIP prints. -/
structure Platform.RoundTrips (P : Platform) (addr : IpAddr) : Prop where
  aton : P.ipaddrAton (ipText addr) = some addr
  ntoa : readAddress P.asio addr.v6 (P.ipaddrNtoa addr) = some addr
  text : readAddress P.asio addr.v6 (ipText addr) = some addr

/-- The numeric address of an IP target. -/
def numericAddress (asio : Asio) (target : TargetAddress) : Option IpAddr :=
  match target.type with
  | .Domain => none
  | .Ipv4 => readAddress asio false target.host
  | .Ipv6 => readAddress asio true target.host

variable {P : Platform} {s : UdpRelaySession} {target target' : TargetAddress} {ip addr : IpAddr}

/-- The type of a target with this address. -/
def typeOf (addr : IpAddr) : AddressType := if addr.v6 then .Ipv6 else .Ipv4

theorem typeOf_ne_domain (addr : IpAddr) : typeOf addr ≠ .Domain := by
  unfold typeOf
  split <;> decide

theorem numericAddress_eq (asio : Asio) (addr : IpAddr) (htype : target.type = typeOf addr) :
    numericAddress asio target = readAddress asio addr.v6 target.host := by
  obtain ⟨v6, bytes⟩ := addr
  cases v6 <;> rw [numericAddress, htype] <;> rfl

/-- What is parsed from an encoded IP target is its numeric address, printed. -/
theorem host_of_reprinted {asio : Asio} (h : Reprinted asio target target')
    (hip : numericAddress asio target = some ip) : target'.type = typeOf ip ∧ target'.host = ipText ip := by
  unfold numericAddress readAddress at hip
  cases htype : target.type with
  | Domain =>
    rw [htype] at hip
    cases hip
  | Ipv4 =>
    obtain ⟨addr, haddr, hhost⟩ := h.v4 htype
    rw [htype] at hip
    simp only [Bool.false_eq_true, if_false, haddr, Option.map_some, Option.some.injEq] at hip
    rw [← hip]
    exact ⟨h.type.trans htype, hhost⟩
  | Ipv6 =>
    obtain ⟨addr, haddr, hhost⟩ := h.v6 htype
    rw [htype] at hip
    simp only [if_true, haddr, Option.map_some, Option.some.injEq] at hip
    rw [← hip]
    exact ⟨h.type.trans htype, hhost⟩

namespace UdpRelaySession

/-! ## The datagrams that wait for their handler -/

/-- The members that sending leaves alone: the keys, and the receives. -/
structure Inbox where
  crypto : ShadowsocksAeadFactory
  receives : Nat
  arrived : List (Bytes × Endpoint)

def inbox (s : UdpRelaySession) : Inbox := ⟨s.crypto, s.receives, s.arrived⟩

/-- The keys are the first ones, a datagram fits `recv_buf_`, and there is one receive at a time. -/
structure Inbox.Valid (crypto : ShadowsocksAeadFactory) (inbox : Inbox) : Prop where
  crypto : inbox.crypto = crypto
  fits : ∀ x ∈ inbox.arrived, x.1.length ≤ RecvBufSize
  one : inbox.receives + inbox.arrived.length ≤ 1

variable {crypto : ShadowsocksAeadFactory}

theorem receiveLoop_valid (hcrypto : s.crypto = crypto) (hrecv : s.receives = 0)
    (harrived : s.arrived = []) : s.receiveLoop.inbox.Valid crypto := by
  rw [receiveLoop_eq]
  refine ⟨hcrypto, fun x hx => ?_, ?_⟩
  · have hx : x ∈ s.arrived := hx
    rw [harrived] at hx
    cases hx
  · simp only [inbox, hrecv, harrived]
    split <;> decide

theorem Sends.inbox {s' : UdpRelaySession} {a : UdpAnswers} {payload : Bytes} {client : Endpoint}
    (hs : Sends P s a payload client target ip s') : s'.inbox = s.inbox := by
  cases hs <;> rfl

theorem Handles.inbox {s' : UdpRelaySession} {a : UdpAnswers} {datagram : Bytes} {client : Endpoint}
    (hs : Handles P s a datagram client s') : s'.inbox = s.inbox := by
  cases hs with
  | closed | unreadable | asks => rfl
  | sends _ _ _ hsends => exact hsends.inbox

theorem inbox_step {s' : UdpRelaySession} {e : Event} (h : s.inbox.Valid crypto)
    (hs : s.step P e = some s') : s'.inbox.Valid crypto := by
  have hone : s.receives + s.arrived.length ≤ 1 := h.one
  cases fires_of_step hs with
  | start hrecv harrived =>
    refine ⟨h.crypto, h.fits, ?_⟩
    simp only [inbox, hrecv, harrived]
    decide
  | stop | ignored | noPbuf | expire | missed | removed => exact h
  | arrive hopen hrecv hlen =>
    refine ⟨h.crypto, fun x hx => ?_, ?_⟩
    · rcases List.mem_append.mp hx with hx | hx
      · exact h.fits x hx
      · rw [List.mem_singleton.mp hx]
        exact hlen
    · simp only [inbox, List.length_append, List.length_singleton]
      omega
  | @received t a datagram client arrived harrived ht =>
    rw [harrived, List.length_cons] at hone
    obtain ⟨hcrypto, hrecv, hrest⟩ := Inbox.mk.inj ht.inbox
    have hnil : arrived = [] := List.length_eq_zero_iff.mp (by omega)
    refine receiveLoop_valid (hcrypto.trans h.crypto) (hrecv.trans ?_) (hrest.trans hnil)
    show s.receives = 0
    omega
  | receiveFailed hpos =>
    refine receiveLoop_valid h.crypto ?_ (List.length_eq_zero_iff.mp ?_) <;> dsimp only <;> omega
  | resolved _ _ hsends =>
    rw [hsends.inbox]
    exact h
  | udpRecv hl _ hsend =>
    obtain ⟨datagram, rfl⟩ := sendToClient_logs hsend
    exact h

theorem inbox_run {es : List Event} (h : Reaches P crypto es s) : s.inbox.Valid crypto :=
  run_inv (fun s => s.inbox.Valid crypto) (fun _ _ _ hI hs => inbox_step hI hs)
    ⟨rfl, fun x hx => (by cases hx), Nat.zero_le 1⟩ h

/-! ## From the client to lwIP -/

/-- What was handed to `udp_sendto`. -/
def sendtos (s : UdpRelaySession) : List (Bytes × IpAddr × Nat) :=
  s.trace.filterMap fun act =>
    match act with
    | .udpSendto _ payload ip port => some (payload, ip, port)
    | _ => none

theorem receiveLoop_sendtos (s : UdpRelaySession) : s.receiveLoop.sendtos = s.sendtos := by
  rw [receiveLoop_eq]
  cases s.running <;> simp [sendtos]

/-- A payload that fits the length argument is sent as it is. -/
theorem Sends.sendtos {s' : UdpRelaySession} {a : UdpAnswers} {payload : Bytes} {client : Endpoint}
    (hs : Sends P s a payload client target ip s') (hnew : a.udpNew = true) (halloc : a.pbufAlloc = true)
    (hlen : payload.length < 65536) : s'.sendtos = s.sendtos ++ [(payload, ip, target.port)] := by
  have hsent (pcb : Nat) : sendsOn a payload pcb ip target.port = [.udpSendto pcb payload ip target.port] := by
    rw [sendsOn, if_pos halloc, Nat.mod_eq_of_lt hlen, List.take_length]
  cases hs with
  | refused _ hno =>
    rw [hnew] at hno
    cases hno
  | found => simp [UdpRelaySession.sendtos, hsent]
  | made => simp [UdpRelaySession.sendtos, hsent]

/-- What a client with the master key built opens to its target and payload. -/
theorem opened_of_encrypt (hI : P.mbedtls.Inverts) {session : ShadowsocksAeadSession}
    (hkey : session.masterKey = crypto.masterKey) (hport : target.port < 65536) {address : Bytes}
    (haddr : encodeSsAddress P.asio target = .ok address) {rng : Option Salt} {payload datagram : Bytes}
    (hdatagram : (session.encryptUdpPacket P.mbedtls rng (address ++ payload)).1 = .ok datagram) :
    ∃ parsed, opened P crypto datagram = some (parsed, payload) ∧ Reprinted P.asio target parsed := by
  have hkey' : crypto.makeSession.masterKey = session.masterKey := hkey.symm
  obtain ⟨hplain, -⟩ := decryptUdpPacket_encrypt hI hkey' hdatagram
  obtain ⟨parsed, hspells, hprinted⟩ := spells_of_encodeSsAddress hport haddr
  refine ⟨parsed, ?_, hprinted⟩
  rw [opened, hplain]
  exact parseSsAddress_iff.mpr ⟨address, hspells, rfl⟩

/-- The payload of a client's datagram for an IP target goes to that address and port. -/
theorem sendToLwip_sends (hP : P.RoundTrips ip) (hI : P.mbedtls.Inverts)
    {session : ShadowsocksAeadSession} (hkey : session.masterKey = s.crypto.masterKey)
    (hip : numericAddress P.asio target = some ip) (hport : target.port < 65536)
    {address : Bytes} (haddr : encodeSsAddress P.asio target = .ok address) {rng : Option Salt}
    {payload datagram : Bytes}
    (hdatagram : (session.encryptUdpPacket P.mbedtls rng (address ++ payload)).1 = .ok datagram)
    (hsize : datagram.length ≤ RecvBufSize) {a : UdpAnswers} (hnew : a.udpNew = true)
    (halloc : a.pbufAlloc = true) (client : Endpoint) :
    ∃ t, s.sendToLwip P a datagram client = some t ∧
      t.sendtos = s.sendtos ++ [(payload, ip, target.port)] := by
  obtain ⟨parsed, hopened, hprinted⟩ := opened_of_encrypt hI hkey hport haddr hdatagram
  obtain ⟨htype, hhost⟩ := host_of_reprinted hprinted hip
  have hfits : payload.length < 65536 := by
    rw [(decryptUdpPacket_encrypt hI rfl hdatagram).2, List.length_append] at hsize
    unfold RecvBufSize SaltSize at hsize
    omega
  obtain ⟨t, ht, hhandles⟩ := handles_sendToLwip P s a datagram client
  refine ⟨t, ht, ?_⟩
  have hsends : Sends P s a payload client parsed ip t :=
    hhandles.sends_of_opened hopened (htype ▸ typeOf_ne_domain ip) (hhost ▸ hP.aton)
  rw [hsends.sendtos hnew halloc hfits, hprinted.port]

/-! ## From lwIP to the client -/

/-- The reply of an IP mapping carries the address the datagram comes from. -/
theorem numericAddress_replyTarget (hP : P.RoundTrips addr) {mapping : Mapping}
    (htype : mapping.target.type ≠ .Domain) (port : Nat) :
    numericAddress P.asio (replyTarget P mapping addr port) = some addr := by
  rw [replyTarget, if_pos htype, numericAddress_eq P.asio addr rfl]
  exact hP.ntoa

theorem encodeSsAddress_of_numericAddress (h : numericAddress P.asio target = some ip) :
    ∃ e, encodeSsAddress P.asio target = .ok e := by
  unfold numericAddress readAddress at h
  unfold encodeSsAddress
  cases ht : target.type with
  | Domain =>
    rw [ht] at h
    cases h
  | Ipv4 =>
    rw [ht] at h
    obtain ⟨addr, haddr, -⟩ := Option.map_eq_some_iff.mp h
    dsimp only
    rw [haddr]
    exact ⟨_, rfl⟩
  | Ipv6 =>
    rw [ht] at h
    obtain ⟨addr, haddr, -⟩ := Option.map_eq_some_iff.mp h
    dsimp only
    rw [haddr]
    exact ⟨_, rfl⟩

/-- `target` is what a reply on `mapping` has to name: the port the datagram comes from, and the
    domain that was asked for or the address the datagram comes from. -/
structure Names (P : Platform) (mapping : Mapping) (addr : IpAddr) (port : Nat)
    (target : TargetAddress) : Prop where
  port : target.port = port
  domain : mapping.target.type = .Domain →
    target.type = .Domain ∧ target.host = mapping.target.host
  ip : mapping.target.type ≠ .Domain → numericAddress P.asio target = some addr

variable {mapping : Mapping} {port : Nat}

theorem replyTarget_port : (replyTarget P mapping addr port).port = port := by
  unfold replyTarget
  dsimp only
  split <;> rfl

/-- Whatever was parsed can be asked for and answered. -/
theorem encodeSsAddress_replyTarget {e : Bytes} (h : Spells e mapping.target)
    (hP : mapping.target.type ≠ .Domain → P.RoundTrips addr) (port : Nat) :
    ∃ address, encodeSsAddress P.asio (replyTarget P mapping addr port) = .ok address := by
  by_cases htype : mapping.target.type = .Domain
  · obtain ⟨pcb, client, target, key⟩ := mapping
    cases h with
    | ipv4 addr port => cases htype
    | ipv6 addr port => cases htype
    | domain n host port =>
      have hn := n.toNat_lt
      refine ⟨_, if_neg ?_⟩
      rw [replyTarget, if_neg (not_not.mpr rfl)]
      dsimp only
      rw [host.property]
      omega
  · exact encodeSsAddress_of_numericAddress (numericAddress_replyTarget (hP htype) htype port)

/-- The address in front of a reply names what it has to. -/
theorem names_of_encodeSsAddress (hP : mapping.target.type ≠ .Domain → P.RoundTrips addr)
    (hport : port < 65536) {address : Bytes}
    (h : encodeSsAddress P.asio (replyTarget P mapping addr port) = .ok address) :
    ∃ target, Spells address target ∧ Names P mapping addr port target := by
  obtain ⟨target, hspells, hprinted⟩ := spells_of_encodeSsAddress (by rwa [replyTarget_port]) h
  refine ⟨target, hspells, hprinted.port.trans replyTarget_port, fun hdomain => ?_, fun htype => ?_⟩
  · have heq : replyTarget P mapping addr port = { mapping.target with port := port } :=
      if_neg (not_not.mpr hdomain)
    rw [heq] at hprinted
    exact ⟨hprinted.type.trans hdomain, hprinted.domain hdomain⟩
  · obtain ⟨htype', hhost⟩ :=
      host_of_reprinted hprinted (numericAddress_replyTarget (hP htype) htype port)
    rw [numericAddress_eq P.asio addr htype', hhost]
    exact (hP htype).text

/-- Any session with the master key reads from the reply whom it comes from, and the payload. -/
theorem sendToClient_replies (hP : mapping.target.type ≠ .Domain → P.RoundTrips addr)
    (hI : P.mbedtls.Inverts) (hport : port < 65536) {payload : Bytes} {rng : Option Salt}
    {s' : UdpRelaySession} (h : s.sendToClient P mapping payload addr port rng = .ok s') :
    ∃ datagram, s' = s.log (.asyncSendTo datagram mapping.client) ∧
      ∀ session : ShadowsocksAeadSession, session.masterKey = s.crypto.masterKey →
        ∃ plain target, session.decryptUdpPacket P.mbedtls datagram = .ok (some plain) ∧
          parseSsAddress plain = some (target, payload) ∧ Names P mapping addr port target := by
  unfold sendToClient at h
  split at h
  · cases h
  · next address haddress =>
    split at h
    · cases h
    · next datagram hdatagram =>
      obtain ⟨target, hspells, hnames⟩ := names_of_encodeSsAddress hP hport haddress
      refine ⟨datagram, (Except.ok.inj h).symm, fun session hkey => ?_⟩
      exact ⟨address ++ payload, target, (decryptUdpPacket_encrypt hI hkey hdatagram).1,
        parseSsAddress_iff.mpr ⟨address, hspells, rfl⟩, hnames⟩

/-- The reply is sent if the salt is drawn and the library does not fail. -/
theorem sendToClient_total (hP : mapping.target.type ≠ .Domain → P.RoundTrips addr)
    (hS : P.mbedtls.Seals) (hK : P.mbedtls.Derives) {e : Bytes} (h : Spells e mapping.target) (port : Nat)
    (payload : Bytes) (salt : Salt) :
    ∃ s', s.sendToClient P mapping payload addr port (some salt) = .ok s' := by
  obtain ⟨address, haddress⟩ := encodeSsAddress_replyTarget h hP port
  obtain ⟨datagram, hdatagram⟩ :=
    encryptUdpPacket_total hS hK s.crypto.makeSession salt (address ++ payload)
  refine ⟨s.log (.asyncSendTo datagram mapping.client), ?_⟩
  rw [sendToClient, haddress]
  dsimp only
  rw [hdatagram]

/-! ## Both directions -/

/-- On a mapping that exists, a datagram from lwIP is a step exactly if it is not empty and the
    reply is sent. -/
theorem step_udpRecv_iff {key payload : Bytes} (hl : s.mappings.lookup key = some mapping)
    {rng : Option Salt} {s' : UdpRelaySession} :
    s.step P (.udpRecv key (some payload) addr port rng) = some s' ↔
      payload ≠ [] ∧ s.sendToClient P mapping payload addr port rng = .ok s' := by
  simp only [step, hl, onUdpRecv]
  by_cases hne : payload = []
  · rw [hne]
    exact iff_of_false (fun h => by cases h) (fun h => h.1 rfl)
  · rw [pbufCopyPartial_eq_some.mpr ⟨hne, rfl⟩]
    dsimp only
    cases s.sendToClient P mapping payload addr port rng with
    | error e => exact iff_of_false (fun h => by cases h) (fun h => by cases h.2)
    | ok t => simp [hne]

/-- Datagrams pass unchanged in both directions, in every state a session can reach. When the
    handler runs for what a client with the master key built for an IP target, it hands exactly
    the payload to lwIP, for exactly that address and port. What is sent to the client for a
    datagram that lwIP received on a mapping is read by anyone with the master key as exactly the
    payload, from the port and the domain or address it has to name. And it is sent, whenever the
    salt is drawn and the library does not fail, exactly if the datagram is not empty. -/
theorem udp_transparent_iff {crypto : ShadowsocksAeadFactory} {es : List Event}
    (h : Reaches P crypto es s) (hI : P.mbedtls.Inverts) :
    (∀ (session : ShadowsocksAeadSession) (target : TargetAddress) (ip : IpAddr) (rng : Option Salt)
      (address payload datagram : Bytes) (client : Endpoint) (rest : List (Bytes × Endpoint))
      (a : UdpAnswers), session.masterKey = crypto.masterKey →
      numericAddress P.asio target = some ip → P.RoundTrips ip → target.port < 65536 →
      encodeSsAddress P.asio target = .ok address →
      (session.encryptUdpPacket P.mbedtls rng (address ++ payload)).1 = .ok datagram →
      s.arrived = (datagram, client) :: rest → a.udpNew = true → a.pbufAlloc = true →
      ∃ s', s.step P (.received a) = some s' ∧
        s'.sendtos = s.sendtos ++ [(payload, ip, target.port)]) ∧
    (∀ (key : Bytes) (mapping : Mapping) (payload : Bytes) (addr : IpAddr) (port : Nat)
      (rng : Option Salt) (s' : UdpRelaySession), s.mappings.lookup key = some mapping →
      (mapping.target.type ≠ .Domain → P.RoundTrips addr) → port < 65536 →
      s.step P (.udpRecv key (some payload) addr port rng) = some s' →
      ∃ datagram, s' = s.log (.asyncSendTo datagram mapping.client) ∧
        ∀ session : ShadowsocksAeadSession, session.masterKey = crypto.masterKey →
          ∃ plain target, session.decryptUdpPacket P.mbedtls datagram = .ok (some plain) ∧
            parseSsAddress plain = some (target, payload) ∧ Names P mapping addr port target) ∧
    (P.mbedtls.Seals → P.mbedtls.Derives → ∀ (key : Bytes) (mapping : Mapping) (payload : Bytes)
      (addr : IpAddr) (port : Nat) (salt : Salt), s.mappings.lookup key = some mapping →
      (mapping.target.type ≠ .Domain → P.RoundTrips addr) →
      ((∃ s', s.step P (.udpRecv key (some payload) addr port (some salt)) = some s') ↔
        payload ≠ [])) := by
  obtain ⟨hcrypto, harrived, -⟩ := inbox_run h
  obtain rfl : s.crypto = crypto := hcrypto
  refine ⟨?_, ?_, ?_⟩
  · intro session target ip rng address payload datagram client rest a hkey hip hP hport haddress
      hdatagram hqueue hnew halloc
    have hmem : (datagram, client) ∈ s.arrived := by
      rw [hqueue]
      exact List.mem_cons_self
    have hsize : datagram.length ≤ RecvBufSize := harrived (datagram, client) hmem
    have hkey' : session.masterKey = ({ s with arrived := rest } : UdpRelaySession).crypto.masterKey := hkey
    obtain ⟨t, ht, hsent⟩ :=
      sendToLwip_sends hP hI hkey' hip hport haddress hdatagram hsize hnew halloc client
    refine ⟨t.receiveLoop, ?_, (receiveLoop_sendtos t).trans hsent⟩
    simp only [step, hqueue, ht, Option.map_some]
  · intro key mapping payload addr port rng s' hl hP hport hs
    exact sendToClient_replies hP hI hport ((step_udpRecv_iff hl).mp hs).2
  · intro hS hK key mapping payload addr port salt hl hP
    constructor
    · rintro ⟨s', hs⟩
      exact ((step_udpRecv_iff hl).mp hs).1
    · intro hne
      obtain ⟨e, he⟩ := (orderly_run h).targets key mapping hl
      obtain ⟨s', hs'⟩ := sendToClient_total hP hS hK he port payload salt
      exact ⟨s', (step_udpRecv_iff hl).mpr ⟨hne, hs'⟩⟩

/-- 1.2.3.4. -/
theorem demoPlatform_roundTrips : demoPlatform.RoundTrips ⟨false, [1, 2, 3, 4]⟩ := by
  constructor <;> decide

/-- The payload 7 has gone to 1.2.3.4 port 53, and the payload 8 waits for its handler. -/
def demoQueued : List Event :=
  demoAsked ++ [.arrive (demoDatagram ([1, 1, 2, 3, 4, 0, 53] ++ [8])) demoClient]

/-- The payload 8 is sent to the same place, and the answer 9 of 1.2.3.4 reaches the client. -/
theorem udp_transparent_iff_demo :
    ∃ s mapping, Reaches demoPlatform demoFactory demoQueued s ∧
      s.mappings.lookup (mappingKey demoPlatform demoClient demoAddress) = some mapping ∧
      (∃ s', s.step demoPlatform (.received ⟨true, true, true⟩) = some s' ∧
        s'.sendtos = [([7], ⟨false, [1, 2, 3, 4]⟩, 53), ([8], ⟨false, [1, 2, 3, 4]⟩, 53)]) ∧
      ∃ s' datagram, s.step demoPlatform (.udpRecv (mappingKey demoPlatform demoClient demoAddress)
          (some [9]) ⟨false, [1, 2, 3, 4]⟩ 53 (some (zeroBlock SaltSize))) = some s' ∧
        s' = s.log (.asyncSendTo datagram demoClient) ∧
        ∃ plain target, demoFactory.makeSession.decryptUdpPacket standIn datagram = .ok (some plain) ∧
          parseSsAddress plain = some (target, [9]) ∧
          Names demoPlatform mapping ⟨false, [1, 2, 3, 4]⟩ 53 target := by
  obtain ⟨s, mapping, h, hl, hclient, hqueue, hsent⟩ : ∃ s mapping,
      Reaches demoPlatform demoFactory demoQueued s ∧
      s.mappings.lookup (mappingKey demoPlatform demoClient demoAddress) = some mapping ∧
      mapping.client = demoClient ∧
      s.arrived = [(demoDatagram ([1, 1, 2, 3, 4, 0, 53] ++ [8]), demoClient)] ∧
      s.sendtos = [([7], ⟨false, [1, 2, 3, 4]⟩, 53)] := ⟨_, _, rfl, rfl, rfl, rfl, rfl⟩
  have hderives : standIn.Derives := fun salt key info => ⟨_, rfl⟩
  obtain ⟨hsend, hreply, htotal⟩ := udp_transparent_iff h standIn_inverts
  refine ⟨s, mapping, h, hl, ?_, ?_⟩
  · obtain ⟨s', hs', hsendtos⟩ := hsend demoFactory.makeSession demoAddress ⟨false, [1, 2, 3, 4]⟩
      (some (zeroBlock SaltSize)) [1, 1, 2, 3, 4, 0, 53] [8] _ demoClient [] ⟨true, true, true⟩ rfl
      (by decide) demoPlatform_roundTrips (by decide) (by decide) rfl hqueue rfl rfl
    rw [hsent] at hsendtos
    exact ⟨s', hs', hsendtos⟩
  · obtain ⟨s', hs'⟩ := (htotal standIn_seals hderives _ mapping [9] ⟨false, [1, 2, 3, 4]⟩ 53
      (zeroBlock SaltSize) hl fun _ => demoPlatform_roundTrips).mpr (List.cons_ne_nil 9 [])
    obtain ⟨datagram, hlog, hread⟩ := hreply _ mapping [9] ⟨false, [1, 2, 3, 4]⟩ 53 _ s' hl
      (fun _ => demoPlatform_roundTrips) (by decide) hs'
    rw [hclient] at hlog
    exact ⟨s', datagram, hs', hlog, hread demoFactory.makeSession rfl⟩

/-- The target answers the payload 7 with an empty datagram, and the process ends. -/
theorem empty_datagram_aborts :
    ∃ s mapping, Reaches demoPlatform demoFactory demoAsked s ∧
      s.mappings.lookup (mappingKey demoPlatform demoClient demoAddress) = some mapping ∧
      ∀ rng, s.onUdpRecv demoPlatform mapping (some []) ⟨false, [1, 2, 3, 4]⟩ 53 rng =
          .error "pbuf_copy_partial: invalid dataptr" ∧
        s.step demoPlatform (.udpRecv (mappingKey demoPlatform demoClient demoAddress) (some [])
          ⟨false, [1, 2, 3, 4]⟩ 53 rng) = none :=
  ⟨_, _, rfl, rfl, fun _ => ⟨rfl, rfl⟩⟩

end UdpRelaySession

end Ovpn2ss.Udp
