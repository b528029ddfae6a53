/-
  The tunnel builder (`src/OpenVpnTunBuilder.cpp`) and what it configures of an `LwipRuntime`
  (`apply_tun_config_locked` of `src/LwipRuntime.cpp`).

  Of the netif the MTU, the IPv4 address with mask and gateway, and slot 0 of the IPv6 addresses are
  modelled. Addresses are bytes in network order; the zone lwIP gives an IPv6 address depends on the
  address and the netif only. `netif_set_addr` also resets the TCP connections of the old address,
  which changes nothing here. `ip_addr_t` is a union: an IPv6 text in an IPv4 entry gives its first four
  bytes, an IPv4 text in an IPv6 entry is padded with zeros.

  `apply_tun_config_locked` commits the configuration and the MTU and then applies the addresses one by
  one, each of which may throw. So a configuration that fails is kept, with the entries before the first
  bad one (`applyAddresses_eq`); nothing was changed only if the runtime had all that before
  (`establish_failed_unchanged_iff`).
-/
import Ovpn2ss.AddressText
import Ovpn2ss.Dns.Resolver
import Ovpn2ss.Lib.LastWrite

namespace Ovpn2ss.Tun

open Ovpn2ss.Aead Ovpn2ss.Lib Ovpn2ss.Lwip
open Ovpn2ss.Dns.LwipRuntime (parseIpAddr dnsServer)

structure TunAddress where
  address : Bytes
  gateway : Bytes
  prefixLength : Int
  ipv6 : Bool
  net30 : Bool
  deriving DecidableEq

structure TunConfig extends Dns.TunConfig where
  addresses : List TunAddress
  mtu : Int
  deriving DecidableEq

/-- `TunConfig{}`. -/
def TunConfig.empty : TunConfig := ⟨⟨[], []⟩, [], 1500⟩

def IP6_ADDR_INVALID : Nat := 0x00
def IP6_ADDR_PREFERRED : Nat := 0x30

/-- What `netif_set_addr` sets. -/
structure Ip4 where
  ipAddr : Bytes
  netmask : Bytes
  gw : Bytes
  deriving DecidableEq

/-- Slot 0 of `ip6_addr` and `ip6_addr_state`. -/
structure Ip6 where
  addr : Bytes
  state : Nat
  deriving DecidableEq

structure Netif where
  mtu : Nat
  ip4 : Ip4
  ip6 : Ip6
  deriving DecidableEq

inductive PacketOutput where
  /-- An empty function. -/
  | unset
  | sendFromLwip
  deriving DecidableEq

structure LwipRuntime where
  activeConfig : TunConfig
  netif : Netif
  packetOutput : PacketOutput
  deriving DecidableEq

def ip4Any : Bytes := [0, 0, 0, 0]
def ip6Any : Bytes := List.replicate 16 0

/-- The netif as `netif_add` and `netif_init` leave it. -/
def Netif.new : Netif := ⟨1500, ⟨ip4Any, ip4Any, ip4Any⟩, ⟨ip6Any, IP6_ADDR_INVALID⟩⟩

def LwipRuntime.new : LwipRuntime := ⟨.empty, .new, .unset⟩

def ip2Ip4 (ip : IpAddr) : Bytes := ip.bytes.take 4
def ip2Ip6 (ip : IpAddr) : Bytes := (ip.bytes ++ ip6Any).take 16

def prefixToNetmask (prefixLength : Int) : Except String Bytes :=
  if prefixLength < 0 ∨ 32 < prefixLength then .error "invalid IPv4 prefix length"
  else
    let mask := if prefixLength = 0 then 0 else (0xffffffff <<< (32 - prefixLength.toNat)) % 2 ^ 32
    .ok (be16 (mask >>> 16) ++ be16 (mask % 2 ^ 16))

section

variable (ipaddrAton : Bytes → Option IpAddr)

/-- What the loop passes to `netif_set_addr`. -/
def parseIp4 (address : TunAddress) : Except String Ip4 := do
  let ip ← parseIpAddr ipaddrAton address.address
  let mask ← prefixToNetmask address.prefixLength
  let gw ←
    if address.gateway.isEmpty then pure ip4Any
    else ip2Ip4 <$> parseIpAddr ipaddrAton address.gateway
  return ⟨ip2Ip4 ip, mask, gw⟩

/-- What it passes to `netif_ip6_addr_set` and `netif_ip6_addr_set_state`. -/
def parseIp6 (address : TunAddress) : Except String Ip6 := do
  let ip ← parseIpAddr ipaddrAton address.address
  return ⟨ip2Ip6 ip, IP6_ADDR_PREFERRED⟩

/-- The body of the loop. The netif is set when all of the entry has been parsed. -/
def applyAddress (n : Netif) (address : TunAddress) : Except String Netif :=
  if address.ipv6 then do return { n with ip6 := ← parseIp6 ipaddrAton address }
  else do return { n with ip4 := ← parseIp4 ipaddrAton address }

def applyAddresses (n : Netif) : List TunAddress → Except String Unit × Netif
  | [] => (.ok (), n)
  | address :: addresses =>
    match applyAddress ipaddrAton n address with
    | .error e => (.error e, n)
    | .ok n => applyAddresses n addresses

/-- `static_cast<u16_t>(config.mtu > 0 ? config.mtu : 1500)`. -/
def TunConfig.netifMtu (config : TunConfig) : Nat :=
  ((if 0 < config.mtu then config.mtu else 1500) % 2 ^ 16).toNat

def LwipRuntime.applyTunConfigLocked (s : LwipRuntime) (config : TunConfig) :
    Except String Unit × LwipRuntime :=
  let (r, netif) := applyAddresses ipaddrAton { s.netif with mtu := config.netifMtu } config.addresses
  (r, { s with activeConfig := config, netif := netif })

def LwipRuntime.applyTunConfigAndOutput (s : LwipRuntime) (config : TunConfig)
    (output : PacketOutput) : Except String Unit × LwipRuntime :=
  match s.applyTunConfigLocked ipaddrAton config with
  | (.error e, s) => (.error e, s)
  | (.ok (), s) => (.ok (), { s with packetOutput := output })

structure OpenVpnTunBuilder where
  lwip : LwipRuntime
  pending : TunConfig
  deriving DecidableEq

namespace OpenVpnTunBuilder

/-- The constructor, on a new runtime. -/
def new : OpenVpnTunBuilder := ⟨.new, .empty⟩

def tunBuilderNew (b : OpenVpnTunBuilder) : OpenVpnTunBuilder := { b with pending := .empty }

def tunBuilderEstablish (b : OpenVpnTunBuilder) : Int × OpenVpnTunBuilder :=
  match b.lwip.applyTunConfigAndOutput ipaddrAton b.pending .sendFromLwip with
  | (.ok (), lwip) => (0, { b with lwip := lwip })
  | (.error _, lwip) => (-1, { b with lwip := lwip })

def tunBuilderAddAddress (b : OpenVpnTunBuilder) (address : TunAddress) : OpenVpnTunBuilder :=
  { b with pending := { b.pending with addresses := b.pending.addresses ++ [address] } }

def tunBuilderSetMtu (b : OpenVpnTunBuilder) (mtu : Int) : OpenVpnTunBuilder :=
  { b with pending := { b.pending with mtu := mtu } }

def tunBuilderAddDnsServer (b : OpenVpnTunBuilder) (address : Bytes) (ipv6 : Bool) :
    OpenVpnTunBuilder :=
  if ipv6 then { b with pending := { b.pending with ipv6Dns := b.pending.ipv6Dns ++ [address] } }
  else { b with pending := { b.pending with ipv4Dns := b.pending.ipv4Dns ++ [address] } }

/-- `dns.servers` as the addresses of each server, in the order of the map. -/
def tunBuilderSetDnsOptions (b : OpenVpnTunBuilder) (servers : List (List Bytes)) :
    OpenVpnTunBuilder :=
  servers.flatten.foldl (fun b address => b.tunBuilderAddDnsServer address (0x3a ∈ address)) b

def tunBuilderTeardown (b : OpenVpnTunBuilder) : OpenVpnTunBuilder :=
  { b with lwip := { b.lwip with packetOutput := .unset } }

end OpenVpnTunBuilder

end

/-! ## What the loop leaves -/

variable (ipaddrAton : Bytes → Option IpAddr)

/-- The entry can be applied. -/
def TunAddress.valid (address : TunAddress) : Bool :=
  if address.ipv6 then (parseIp6 ipaddrAton address).isOk else (parseIp4 ipaddrAton address).isOk

/-- What an entry writes to the IPv4 settings. -/
def TunAddress.ip4 (address : TunAddress) : Option Ip4 :=
  if address.ipv6 then none else (parseIp4 ipaddrAton address).toOption

/-- What it writes to slot 0. -/
def TunAddress.ip6 (address : TunAddress) : Option Ip6 :=
  if address.ipv6 then (parseIp6 ipaddrAton address).toOption else none

/-- The entries before the first that throws. -/
def TunConfig.applied (config : TunConfig) : List TunAddress :=
  config.addresses.takeWhile (·.valid ipaddrAton)

/-- What an entry needs for that. -/
structure TunAddress.WellFormed (a : TunAddress) : Prop where
  address : (ipaddrAton a.address).isSome
  /-- The prefix and the gateway of an IPv6 entry are not read. -/
  prefixLength : a.ipv6 = false → 0 ≤ a.prefixLength ∧ a.prefixLength ≤ 32
  gateway : a.ipv6 = false → a.gateway = [] ∨ (ipaddrAton a.gateway).isSome

theorem TunAddress.valid_iff (address : TunAddress) :
    address.valid ipaddrAton = true ↔ address.WellFormed ipaddrAton := by
  unfold TunAddress.valid parseIp6 parseIp4 parseIpAddr prefixToNetmask
  cases hip : ipaddrAton address.address with
  | none =>
    have hbad : ¬ address.WellFormed ipaddrAton := fun h => by
      have := h.address
      rw [hip] at this
      cases this
    cases address.ipv6 <;> exact iff_of_false Bool.false_ne_true hbad
  | some ip =>
    have hsome : (ipaddrAton address.address).isSome := Option.isSome_of_mem hip
    cases h6 : address.ipv6 with
    | true =>
      have hfalse : address.ipv6 ≠ false := by rw [h6]; decide
      exact iff_of_true rfl ⟨hsome, fun h => absurd h hfalse, fun h => absurd h hfalse⟩
    | false =>
      by_cases hp : address.prefixLength < 0 ∨ 32 < address.prefixLength
      · rw [if_pos hp]
        refine iff_of_false Bool.false_ne_true fun h => ?_
        have := h.prefixLength h6
        omega
      · rw [if_neg hp]
        have hrange : 0 ≤ address.prefixLength ∧ address.prefixLength ≤ 32 := by omega
        cases hg : address.gateway with
        | nil => exact iff_of_true rfl ⟨hsome, fun _ => hrange, fun _ => Or.inl hg⟩
        | cons c cs =>
          cases hgw : ipaddrAton (c :: cs) with
          | none =>
            refine iff_of_false Bool.false_ne_true fun h => ?_
            have := h.gateway h6
            rw [hg, hgw] at this
            rcases this with h | h <;> cases h
          | some gateway =>
            refine iff_of_true rfl ⟨hsome, fun _ => hrange, fun _ => Or.inr ?_⟩
            rw [hg, hgw]
            rfl

theorem applyAddress_cases (n : Netif) (address : TunAddress) :
    (address.valid ipaddrAton = true ∧
      applyAddress ipaddrAton n address = .ok { n with
        ip4 := (address.ip4 ipaddrAton).getD n.ip4, ip6 := (address.ip6 ipaddrAton).getD n.ip6 }) ∨
    (address.valid ipaddrAton = false ∧ ∃ e, applyAddress ipaddrAton n address = .error e) := by
  unfold applyAddress TunAddress.valid TunAddress.ip4 TunAddress.ip6
  cases address.ipv6 with
  | true =>
    cases parseIp6 ipaddrAton address with
    | error e => exact Or.inr ⟨rfl, e, rfl⟩
    | ok ip6 => exact Or.inl ⟨rfl, rfl⟩
  | false =>
    cases parseIp4 ipaddrAton address with
    | error e => exact Or.inr ⟨rfl, e, rfl⟩
    | ok ip4 => exact Or.inl ⟨rfl, rfl⟩

/-- The loop applies the entries before the first bad one, and throws if there is one. -/
theorem applyAddresses_eq (n : Netif) (addresses : List TunAddress) :
    (applyAddresses ipaddrAton n addresses).2 = { n with
      ip4 := lastWrite (·.ip4 ipaddrAton) n.ip4 (addresses.takeWhile (·.valid ipaddrAton))
      ip6 := lastWrite (·.ip6 ipaddrAton) n.ip6 (addresses.takeWhile (·.valid ipaddrAton)) } ∧
    ((applyAddresses ipaddrAton n addresses).1 = .ok () ↔
      ∀ address ∈ addresses, address.valid ipaddrAton = true) := by
  induction addresses generalizing n with
  | nil => exact ⟨rfl, iff_of_true rfl (fun _ h => absurd h List.not_mem_nil)⟩
  | cons address addresses ih =>
    rw [applyAddresses]
    rcases applyAddress_cases ipaddrAton n address with ⟨hv, he⟩ | ⟨hv, e, he⟩ <;> rw [he]
    · obtain ⟨hnetif, hok⟩ := ih { n with
        ip4 := (address.ip4 ipaddrAton).getD n.ip4, ip6 := (address.ip6 ipaddrAton).getD n.ip6 }
      rw [List.takeWhile_cons_of_pos hv, lastWrite_cons, lastWrite_cons, List.forall_mem_cons]
      exact ⟨hnetif, hok.trans (and_iff_right hv).symm⟩
    · rw [List.takeWhile_cons_of_neg (Bool.eq_false_iff.mp hv), List.forall_mem_cons]
      refine ⟨rfl, iff_of_false (fun h => by cases h) fun h => ?_⟩
      exact Bool.false_ne_true (hv.symm.trans h.1)

/-- The runtime after `apply_tun_config_locked`, whether it throws or not. -/
def LwipRuntime.configured (s : LwipRuntime) (config : TunConfig) : LwipRuntime :=
  { s with
    activeConfig := config
    netif :=
      { mtu := config.netifMtu
        ip4 := lastWrite (·.ip4 ipaddrAton) s.netif.ip4 (config.applied ipaddrAton)
        ip6 := lastWrite (·.ip6 ipaddrAton) s.netif.ip6 (config.applied ipaddrAton) } }

theorem applyTunConfigLocked_eq (s : LwipRuntime) (config : TunConfig) :
    (s.applyTunConfigLocked ipaddrAton config).2 = s.configured ipaddrAton config ∧
    ((s.applyTunConfigLocked ipaddrAton config).1 = .ok () ↔
      ∀ address ∈ config.addresses, address.valid ipaddrAton = true) := by
  obtain ⟨hnetif, hok⟩ :=
    applyAddresses_eq ipaddrAton { s.netif with mtu := config.netifMtu } config.addresses
  refine ⟨?_, hok⟩
  rw [LwipRuntime.applyTunConfigLocked, LwipRuntime.configured]
  exact congrArg (fun netif => LwipRuntime.mk config netif s.packetOutput) hnetif

theorem configured_eq_self_iff {s : LwipRuntime} {config : TunConfig} :
    s.configured ipaddrAton config = s ↔ s.activeConfig = config ∧ s.netif.mtu = config.netifMtu ∧
      lastWrite (·.ip4 ipaddrAton) s.netif.ip4 (config.applied ipaddrAton) = s.netif.ip4 ∧
      lastWrite (·.ip6 ipaddrAton) s.netif.ip6 (config.applied ipaddrAton) = s.netif.ip6 := by
  rcases s with ⟨active, ⟨mtu, ip4, ip6⟩, output⟩
  rw [LwipRuntime.configured, LwipRuntime.mk.injEq, Netif.mk.injEq]
  constructor
  · rintro ⟨hc, ⟨hm, h4, h6⟩, -⟩
    exact ⟨hc.symm, hm.symm, h4, h6⟩
  · rintro ⟨hc, hm, h4, h6⟩
    exact ⟨hc.symm, ⟨hm.symm, h4, h6⟩, rfl⟩

namespace OpenVpnTunBuilder

/-- Whatever it returns, `tun_builder_establish` configures the runtime; the output is set if all
    entries could be applied. -/
theorem establish_cases (b : OpenVpnTunBuilder) :
    ((∀ address ∈ b.pending.addresses, address.valid ipaddrAton = true) ∧
      b.tunBuilderEstablish ipaddrAton = (0, { b with
        lwip := { b.lwip.configured ipaddrAton b.pending with packetOutput := .sendFromLwip } })) ∨
    (¬ (∀ address ∈ b.pending.addresses, address.valid ipaddrAton = true) ∧
      b.tunBuilderEstablish ipaddrAton =
        (-1, { b with lwip := b.lwip.configured ipaddrAton b.pending })) := by
  obtain ⟨hlwip, hok⟩ := applyTunConfigLocked_eq ipaddrAton b.lwip b.pending
  unfold tunBuilderEstablish LwipRuntime.applyTunConfigAndOutput
  rcases hr : b.lwip.applyTunConfigLocked ipaddrAton b.pending with ⟨r, lwip⟩
  rw [hr] at hlwip hok
  obtain rfl : lwip = b.lwip.configured ipaddrAton b.pending := hlwip
  cases r with
  | ok u => exact Or.inl ⟨hok.mp rfl, rfl⟩
  | error e => exact Or.inr ⟨fun h => (by cases hok.mpr h), rfl⟩

/-- It fails exactly if some entry is not well formed. -/
theorem establish_fails_iff (b : OpenVpnTunBuilder) :
    (b.tunBuilderEstablish ipaddrAton).1 = -1 ↔
      ∃ address ∈ b.pending.addresses, ¬ address.WellFormed ipaddrAton := by
  simp only [← TunAddress.valid_iff]
  rcases establish_cases ipaddrAton b with ⟨hv, he⟩ | ⟨hv, he⟩ <;> rw [he]
  · refine iff_of_false (show (0 : Int) ≠ -1 by decide) ?_
    rintro ⟨address, hmem, hbad⟩
    exact hbad (hv address hmem)
  · refine iff_of_true rfl ?_
    push Not at hv
    exact hv

/-! ## Failure -/

variable {ipaddrAton} {b b' : OpenVpnTunBuilder}

/-- A failed `tun_builder_establish` leaves the output alone, and the rest as it was exactly if the
    configuration and the MTU were committed before and the last IPv4 and the last IPv6 entry before
    the first bad one are what the netif has. -/
theorem establish_failed_unchanged_iff (h : b.tunBuilderEstablish ipaddrAton = (-1, b')) :
    b'.lwip.packetOutput = b.lwip.packetOutput ∧
    (b'.lwip = b.lwip ↔
      b.lwip.activeConfig = b.pending ∧ b.lwip.netif.mtu = b.pending.netifMtu ∧
      (∀ ip4, ((b.pending.applied ipaddrAton).filterMap (·.ip4 ipaddrAton)).getLast? = some ip4 →
        ip4 = b.lwip.netif.ip4) ∧
      ∀ ip6, ((b.pending.applied ipaddrAton).filterMap (·.ip6 ipaddrAton)).getLast? = some ip6 →
        ip6 = b.lwip.netif.ip6) := by
  have hlwip : b'.lwip = b.lwip.configured ipaddrAton b.pending := by
    rcases establish_cases ipaddrAton b with ⟨-, he⟩ | ⟨-, he⟩ <;> rw [he] at h
    · cases h
    · rw [← (Prod.mk.inj h).2]
  rw [hlwip, ← lastWrite_eq_self_iff, ← lastWrite_eq_self_iff]
  exact ⟨rfl, configured_eq_self_iff ipaddrAton⟩

/-- An address that is fine, and one whose prefix is not. -/
def demoBad : OpenVpnTunBuilder :=
  (new.tunBuilderAddAddress ⟨ipv4Text [10, 8, 0, 2], [], 24, false, false⟩).tunBuilderAddAddress
    ⟨ipv4Text [10, 8, 0, 3], [], 33, false, false⟩

/-- The second attempt with the same configuration changes nothing. -/
theorem establish_failed_twice :
    ∃ b b', demoBad.tunBuilderEstablish printedAton = (-1, b) ∧
      b.tunBuilderEstablish printedAton = (-1, b') ∧ b'.lwip = b.lwip := by
  obtain ⟨b, b', hb, hb', hc, hm, h4, h6⟩ : ∃ b b', demoBad.tunBuilderEstablish printedAton = (-1, b) ∧
      b.tunBuilderEstablish printedAton = (-1, b') ∧ b.lwip.activeConfig = b.pending ∧
      b.lwip.netif.mtu = b.pending.netifMtu ∧
      ((b.pending.applied printedAton).filterMap (·.ip4 printedAton)).getLast? = some b.lwip.netif.ip4 ∧
      ((b.pending.applied printedAton).filterMap (·.ip6 printedAton)).getLast? = none :=
    ⟨_, _, rfl, rfl, rfl, rfl, rfl, rfl⟩
  refine ⟨b, b', hb, hb', (establish_failed_unchanged_iff hb').2.mpr ⟨hc, hm, ?_, ?_⟩⟩
  · intro ip4 h
    exact (Option.some.inj (h4.symm.trans h)).symm
  · intro ip6 h
    cases h6.symm.trans h

/-- The first attempt leaves the configuration that failed and its first address. -/
theorem establish_failed_keeps_address :
    ∃ b, demoBad.tunBuilderEstablish printedAton = (-1, b) ∧
      demoBad.lwip.netif.ip4.ipAddr = [0, 0, 0, 0] ∧ b.lwip.netif.ip4.ipAddr = [10, 8, 0, 2] ∧
      demoBad.lwip.activeConfig ≠ demoBad.pending ∧ b.lwip.activeConfig = demoBad.pending :=
  ⟨_, rfl, rfl, rfl, by decide, rfl⟩

end OpenVpnTunBuilder

end Ovpn2ss.Tun
