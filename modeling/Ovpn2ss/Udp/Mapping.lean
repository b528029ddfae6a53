/-
  Which datagrams share a mapping.

  Mappings are found by a text: the client's address and port, a bar, and the host and port of
  the target. A host may hold any byte, bars and colons included; the text can still be taken
  apart, since the bar that ends the client is the first and the colon before the port is
  the last (`mappingKey_inj`). What the text does not hold is the type of the target, so a
  domain that spells an IP address shares the mapping of that address
  (`mapping_identity_iff`), and the replies are encoded for whichever came first.

  `Orderly` is what holds of the tables between events.
-/
import Ovpn2ss.Aead.Chunk
import Ovpn2ss.Udp.Session

namespace Ovpn2ss.Udp

open Ovpn2ss.Aead Ovpn2ss.Lib Ovpn2ss.Lwip

/-! ## Taking the key apart -/

theorem cut_first_inj {α : Type} {sep : α} {x x' y y' : List α} (hx : sep ∉ x) (hx' : sep ∉ x')
    (h : x ++ sep :: y = x' ++ sep :: y') : x = x' ∧ y = y' := by
  induction x generalizing x' with
  | nil =>
    cases x' with
    | nil => exact ⟨rfl, (List.cons.inj h).2⟩
    | cons a x' =>
      obtain ⟨rfl, -⟩ := List.cons.inj h
      exact absurd List.mem_cons_self hx'
  | cons a x ih =>
    cases x' with
    | nil =>
      obtain ⟨rfl, -⟩ := List.cons.inj h
      exact absurd List.mem_cons_self hx
    | cons a' x' =>
      obtain ⟨rfl, htail⟩ := List.cons.inj h
      obtain ⟨rfl, hy⟩ := ih (fun hm => hx (List.mem_cons_of_mem _ hm))
        (fun hm => hx' (List.mem_cons_of_mem _ hm)) htail
      exact ⟨rfl, hy⟩

theorem cut_last_inj {α : Type} {sep : α} {x x' y y' : List α} (hy : sep ∉ y) (hy' : sep ∉ y')
    (h : x ++ sep :: y = x' ++ sep :: y') : x = x' ∧ y = y' := by
  have hrev := congrArg List.reverse h
  simp only [List.reverse_append, List.reverse_cons, List.append_assoc, List.singleton_append] at hrev
  obtain ⟨hyy, hxx⟩ := cut_first_inj (by rwa [List.mem_reverse]) (by rwa [List.mem_reverse]) hrev
  exact ⟨List.reverse_injective hxx, List.reverse_injective hyy⟩

/-- A host or address, a colon and a port in decimal. -/
theorem hostPort_inj {host host' : Bytes} {port port' : Nat}
    (h : host ++ 0x3a :: toDecimal port = host' ++ 0x3a :: toDecimal port') :
    host = host' ∧ port = port' := by
  obtain ⟨hhost, hport⟩ := cut_last_inj (not_mem_toDecimal (by decide))
    (not_mem_toDecimal (by decide)) h
  exact ⟨hhost, toDecimal_inj.mp hport⟩

/-- `to_string` tells two addresses apart, and prints no bar. -/
structure TellsApart (P : Platform) (a b : AsioAddress) : Prop where
  inj : P.addressToString a = P.addressToString b → a = b
  noBar : (0x7c : UInt8) ∉ P.addressToString a
  noBar' : (0x7c : UInt8) ∉ P.addressToString b

theorem mappingKey_eq (P : Platform) (client : Endpoint) (target : TargetAddress) :
    mappingKey P client target =
      (P.addressToString client.address ++ 0x3a :: toDecimal client.port) ++
        0x7c :: (target.host ++ 0x3a :: toDecimal target.port) := by
  simp [mappingKey]

theorem bar_not_mem_client {P : Platform} {client : Endpoint}
    (h : (0x7c : UInt8) ∉ P.addressToString client.address) :
    (0x7c : UInt8) ∉ P.addressToString client.address ++ 0x3a :: toDecimal client.port := by
  have hdigits : (0x7c : UInt8) ∉ toDecimal client.port := not_mem_toDecimal (by decide)
  simp [h, hdigits]

/-- Two keys are equal exactly if the clients, the hosts and the ports are. -/
theorem mappingKey_inj {P : Platform} {client client' : Endpoint} {target target' : TargetAddress}
    (hP : TellsApart P client.address client'.address) :
    mappingKey P client target = mappingKey P client' target' ↔
      client = client' ∧ target.host = target'.host ∧ target.port = target'.port := by
  constructor
  · intro h
    rw [mappingKey_eq, mappingKey_eq] at h
    obtain ⟨hclient, htarget⟩ :=
      cut_first_inj (bar_not_mem_client hP.noBar) (bar_not_mem_client hP.noBar') h
    obtain ⟨htext, hport⟩ := hostPort_inj hclient
    obtain ⟨hhost, htport⟩ := hostPort_inj htarget
    have haddr := hP.inj htext
    refine ⟨?_, hhost, htport⟩
    cases client
    cases client'
    exact (Endpoint.mk.injEq ..).mpr ⟨haddr, hport⟩
  · rintro ⟨rfl, hhost, hport⟩
    rw [mappingKey, mappingKey, hhost, hport]

/-! ## The tables between events -/

variable {P : Platform} {s s' : UdpRelaySession} {mappings : Table Bytes Mapping}
  {resolving : List Resolution}

/-- Every mapping is under its key, which is that of the client and the target it was made for, and
    every target was parsed. -/
structure Orderly (P : Platform) (mappings : Table Bytes Mapping) (resolving : List Resolution) :
    Prop where
  keys : ∀ key mapping, mappings.lookup key = some mapping →
    mapping.key = key ∧ key = mappingKey P mapping.client mapping.target
  targets : ∀ key mapping, mappings.lookup key = some mapping → ∃ e, Spells e mapping.target
  pending : ∀ r ∈ resolving, ∃ e, Spells e r.target

theorem Orderly.no_mappings (h : ∀ r ∈ resolving, ∃ e, Spells e r.target) :
    Orderly P ∅ resolving :=
  ⟨fun _ _ hl => (by cases hl), fun _ _ hl => (by cases hl), h⟩

theorem Orderly.insert (h : Orderly P mappings resolving) (pcb : Nat) (client : Endpoint)
    {target : TargetAddress} (ht : ∃ e, Spells e target) :
    Orderly P (mappings.insert (mappingKey P client target)
      ⟨pcb, client, target, mappingKey P client target⟩) resolving := by
  refine ⟨fun key mapping hl => ?_, fun key mapping hl => ?_, h.pending⟩ <;>
    rcases Table.lookup_of_lookup_insert hl with ⟨rfl, rfl⟩ | ⟨-, hl⟩
  · exact ⟨rfl, rfl⟩
  · exact h.keys key mapping hl
  · exact ht
  · exact h.targets key mapping hl

theorem Orderly.erase (h : Orderly P mappings resolving) (key : Bytes) :
    Orderly P (mappings.erase key) resolving :=
  ⟨fun key' m hl => h.keys key' m (Table.lookup_of_lookup_erase hl).2,
    fun key' m hl => h.targets key' m (Table.lookup_of_lookup_erase hl).2, h.pending⟩

namespace UdpRelaySession

theorem Sends.orderly {a : UdpAnswers} {payload : Bytes} {client : Endpoint} {target : TargetAddress}
    {ip : IpAddr} (hs : Sends P s a payload client target ip s')
    (h : Orderly P s.mappings s.resolving) (ht : ∃ e, Spells e target) :
    Orderly P s'.mappings s'.resolving := by
  cases hs with
  | refused | found => exact h
  | made => exact h.insert _ _ ht

theorem spells_of_opened {crypto : ShadowsocksAeadFactory} {datagram payload : Bytes}
    {target : TargetAddress} (h : opened P crypto datagram = some (target, payload)) :
    ∃ e, Spells e target := by
  unfold opened at h
  split at h
  · obtain ⟨e, he, -⟩ := parseSsAddress_iff.mp h
    exact ⟨e, he⟩
  · cases h

theorem Handles.orderly {a : UdpAnswers} {datagram : Bytes} {client : Endpoint}
    (hs : Handles P s a datagram client s') (h : Orderly P s.mappings s.resolving) :
    Orderly P s'.mappings s'.resolving := by
  cases hs with
  | closed | unreadable => exact h
  | asks hopened =>
    refine ⟨h.keys, h.targets, fun r hr => ?_⟩
    rcases List.mem_append.mp hr with hr | hr
    · exact h.pending r hr
    · rw [List.mem_singleton.mp hr]
      exact spells_of_opened hopened
  | sends hopened _ _ hsends => exact hsends.orderly h (spells_of_opened hopened)

/-- All `send_to_client` does is to send. -/
theorem sendToClient_logs {mapping : Mapping} {payload : Bytes} {addr : IpAddr} {port : Nat}
    {rng : Option Salt} (h : s.sendToClient P mapping payload addr port rng = .ok s') :
    ∃ datagram, s' = s.log (.asyncSendTo datagram mapping.client) := by
  unfold sendToClient at h
  split at h
  · cases h
  · split at h
    · cases h
    · exact ⟨_, (Except.ok.inj h).symm⟩

theorem orderly_step {e : Event} (h : Orderly P s.mappings s.resolving)
    (hs : s.step P e = some s') : Orderly P s'.mappings s'.resolving := by
  have herase (r : Resolution) : Orderly P s.mappings (s.resolving.erase r) :=
    ⟨h.keys, h.targets, fun r' hr' => h.pending r' (List.mem_of_mem_erase hr')⟩
  cases fires_of_step hs with
  | start | arrive | noPbuf | expire | missed => exact h
  | stop => exact .no_mappings h.pending
  | received harrived ht =>
    rw [receiveLoop_eq]
    exact ht.orderly h
  | receiveFailed =>
    rw [receiveLoop_eq]
    exact h
  | ignored => exact herase _
  | resolved hr _ hsends => exact hsends.orderly (herase _) (h.pending _ hr)
  | udpRecv hl _ hsend =>
    obtain ⟨datagram, rfl⟩ := sendToClient_logs hsend
    exact h
  | removed => exact h.erase _

theorem orderly_run {crypto : ShadowsocksAeadFactory} {es : List Event} (h : Reaches P crypto es s) :
    Orderly P s.mappings s.resolving :=
  run_inv (fun s => Orderly P s.mappings s.resolving) (fun _ _ _ hI hs => orderly_step hI hs)
    (.no_mappings fun _ hr => (by cases hr)) h

/-! ## One mapping for two targets -/

/-- A mapping that `mapping_for` found is under the key it looked for. -/
theorem lookup_of_mappingFor {udpNew : Bool} {client : Endpoint} {target : TargetAddress}
    {mapping : Mapping} (h : s.mappingFor P udpNew client target = (.ok mapping, s)) :
    s.mappings.lookup (mappingKey P client target) = some mapping := by
  rcases mappingFor_cases P s udpNew client target with ⟨found, hl, he⟩ | ⟨-, ⟨-, he⟩ | ⟨-, he⟩⟩ <;>
    rw [he] at h
  · rw [hl, Except.ok.inj (Prod.mk.inj h).1]
  · cases (Prod.mk.inj h).1
  · have htrace := congrArg (List.length ∘ UdpRelaySession.trace) (Prod.mk.inj h).2
    simp at htrace

/-- `mapping_for` returns a live mapping for exactly the pairs with its key. -/
theorem mappingFor_live_iff (hO : Orderly P s.mappings s.resolving) {mapping : Mapping}
    (hlive : s.mappings.lookup mapping.key = some mapping) (udpNew : Bool) (client : Endpoint)
    (target : TargetAddress) :
    (s.mappingFor P udpNew client target).1 = .ok mapping ↔
      mapping.key = mappingKey P client target := by
  rcases mappingFor_cases P s udpNew client target with
    ⟨found, hl, he⟩ | ⟨hl, ⟨-, he⟩ | ⟨-, he⟩⟩ <;> rw [he]
  · constructor
    · intro h
      obtain rfl := Except.ok.inj h
      exact (hO.keys _ _ hl).1
    · intro hkey
      rw [← hkey, hlive] at hl
      rw [Option.some.inj hl]
  · refine iff_of_false (fun h => by cases h) fun hkey => ?_
    rw [← hkey, hlive] at hl
    cases hl
  · refine iff_of_false (fun h => ?_) fun hkey => ?_
    · rw [← Except.ok.inj h] at hlive
      cases hl.symm.trans hlive
    · rw [← hkey, hlive] at hl
      cases hl

/-- Which pairs of a client and a target share a mapping. Let `mapping_for` return a live mapping
    for `client` and `target`. That it returns this mapping for `client'` and `target'` exactly
    if the two pairs are the same holds unless the pairs differ in the type of the target
    only. -/
theorem mapping_identity_iff {crypto : ShadowsocksAeadFactory} {es : List Event}
    (h : Reaches P crypto es s) {udpNew : Bool} {client client' : Endpoint}
    {target target' : TargetAddress} {mapping : Mapping}
    (hlive : s.mappingFor P udpNew client target = (.ok mapping, s))
    (hP : TellsApart P client.address client'.address) :
    ((s.mappingFor P udpNew client' target').1 = .ok mapping ↔ client = client' ∧ target = target') ↔
      ¬ (client = client' ∧ target.host = target'.host ∧ target.port = target'.port ∧
        target.type ≠ target'.type) := by
  have hO := orderly_run h
  have hl := lookup_of_mappingFor hlive
  have hkey := (hO.keys _ _ hl).1
  rw [← hkey] at hl
  rw [mappingFor_live_iff hO hl, hkey, mappingKey_inj hP]
  obtain ⟨type, host, port⟩ := target
  obtain ⟨type', host', port'⟩ := target'
  simp only [TargetAddress.mk.injEq]
  tauto

/-- A stand-in for the libraries, to run the model on concrete input. `ipaddr_aton` reads what
    `demoAsio` reads. -/
def demoPlatform : Platform where
  mbedtls := standIn
  asio := demoAsio
  addressToString a := if a.v6 then ipv6Text a.bytes else ipv4Text a.bytes
  ipaddrAton host :=
    match demoAsio.makeAddressV4 host with
    | some addr => some ⟨false, addr.val⟩
    | none => (demoAsio.makeAddressV6 host).map fun addr => ⟨true, addr.val⟩
  ipaddrNtoa a := if a.v6 then ipv6Text a.bytes else ipv4Text a.bytes

def demoFactory : ShadowsocksAeadFactory := ⟨zeroKey⟩

/-- 127.0.0.1 port 4000. -/
def demoClient : Endpoint := ⟨⟨false, [127, 0, 0, 1], 0⟩, 4000⟩

/-- What a client with the all-zero salt sends for `plain`. -/
def demoDatagram (plain : Bytes) : Bytes :=
  match (demoFactory.makeSession.encryptUdpPacket standIn (some (zeroBlock SaltSize)) plain).1 with
  | .ok datagram => datagram
  | .error _ => []

/-- The address 1.2.3.4 port 53, and the domain of the same spelling. -/
def demoAddress : TargetAddress := ⟨.Ipv4, ipv4Text [1, 2, 3, 4], 53⟩

def demoDomain : TargetAddress := ⟨.Domain, ipv4Text [1, 2, 3, 4], 53⟩

/-- The address is asked for, with the payload 7. -/
def demoAsked : List Event :=
  [.start, .arrive (demoDatagram ([1, 1, 2, 3, 4, 0, 53] ++ [7])) demoClient,
    .received ⟨true, true, true⟩]

/-- The mapping of 1.2.3.4 is not that of port 54 of the same address. -/
theorem mapping_identity_demo :
    ∃ s mapping, Reaches demoPlatform demoFactory demoAsked s ∧
      s.mappingFor demoPlatform true demoClient demoAddress = (.ok mapping, s) ∧
      ((s.mappingFor demoPlatform true demoClient { demoAddress with port := 54 }).1 = .ok mapping ↔
        demoClient = demoClient ∧ demoAddress = { demoAddress with port := 54 }) := by
  obtain ⟨s, mapping, h, hlive⟩ : ∃ s mapping, Reaches demoPlatform demoFactory demoAsked s ∧
      s.mappingFor demoPlatform true demoClient demoAddress = (.ok mapping, s) := ⟨_, _, rfl, rfl⟩
  have hP : TellsApart demoPlatform demoClient.address demoClient.address :=
    ⟨fun _ => rfl, by decide, by decide⟩
  refine ⟨s, mapping, h, hlive, (mapping_identity_iff h hlive hP).mpr ?_⟩
  rintro ⟨-, -, hport, -⟩
  cases hport

/-- A client asks for the domain "1.2.3.4", which `async_resolve` answers with the address that it
    spells, and then for the address 1.2.3.4: both have one mapping, and the answer to the second is
    encoded as coming from the domain. -/
theorem domain_shares_mapping :
    ∃ s mapping, Reaches demoPlatform demoFactory
        [.start, .arrive (demoDatagram (3 :: 7 :: ipv4Text [1, 2, 3, 4] ++ [0, 53] ++ [6])) demoClient,
          .received ⟨true, true, true⟩,
          .resolved ⟨some 0, [6], demoClient, demoDomain⟩ .ERR_OK (some ⟨false, [1, 2, 3, 4]⟩)
            ⟨true, true, true⟩,
          .arrive (demoDatagram ([1, 1, 2, 3, 4, 0, 53] ++ [7])) demoClient,
          .received ⟨true, true, true⟩] s ∧
      s.mappingFor demoPlatform true demoClient demoDomain = (.ok mapping, s) ∧
      s.mappingFor demoPlatform true demoClient demoAddress = (.ok mapping, s) ∧
      demoDomain ≠ demoAddress ∧
      s.onUdpRecv demoPlatform mapping (some [8]) ⟨false, [1, 2, 3, 4]⟩ 53 (some (zeroBlock SaltSize)) =
        .ok (s.log (.asyncSendTo
          (demoDatagram (3 :: 7 :: ipv4Text [1, 2, 3, 4] ++ [0, 53] ++ [8])) demoClient)) :=
  ⟨_, _, rfl, rfl, rfl, by decide, rfl⟩

end UdpRelaySession

end Ovpn2ss.Udp
