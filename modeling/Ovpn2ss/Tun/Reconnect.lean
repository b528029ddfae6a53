/-
  Tunnels one after the other on one runtime: histories of calls of the builder.

  `tun_builder_new` resets the configuration that is being built and `tun_builder_teardown` the output;
  neither touches the netif. So after any history the netif has what the last applied IPv4 entry and the
  last applied IPv6 entry of all its tunnels wrote (`left_run`), the entries of failed attempts included,
  and a reconnect overwrites a family only if its configuration has an entry of it. Two histories
  that end with the same configuration agree exactly if, for each family, it has an entry or they left
  the same (`reconnect_agrees_iff`). The MTU and the DNS server always agree.
-/
import Ovpn2ss.Tun.Builder
import Ovpn2ss.Lib.Machine
import Mathlib.Data.List.TakeWhile

namespace Ovpn2ss.Tun.OpenVpnTunBuilder

open Ovpn2ss.Aead Ovpn2ss.Lib Ovpn2ss.Lwip
open Ovpn2ss.Dns.LwipRuntime (dnsServer)

variable (ipaddrAton : Bytes → Option IpAddr)

inductive Event where
  | new
  | addAddress (address : TunAddress)
  | setMtu (mtu : Int)
  | addDnsServer (address : Bytes) (ipv6 : Bool)
  | setDnsOptions (servers : List (List Bytes))
  | establish
  | teardown

def step (b : OpenVpnTunBuilder) : Event → Option OpenVpnTunBuilder
  | .new => some b.tunBuilderNew
  | .addAddress address => some (b.tunBuilderAddAddress address)
  | .setMtu mtu => some (b.tunBuilderSetMtu mtu)
  | .addDnsServer address ipv6 => some (b.tunBuilderAddDnsServer address ipv6)
  | .setDnsOptions servers => some (b.tunBuilderSetDnsOptions servers)
  | .establish => some (b.tunBuilderEstablish ipaddrAton).2
  | .teardown => some b.tunBuilderTeardown

/-! ## What a history leaves -/

/-- The entries a call applies. -/
def applies (b : OpenVpnTunBuilder) : Event → List TunAddress
  | .establish => b.pending.applied ipaddrAton
  | _ => []

/-- The entries applied in the history `es` of a new builder. -/
def history (es : List Event) : List TunAddress :=
  collect (step ipaddrAton) (applies ipaddrAton) new es

def left4 (es : List Event) : Ip4 :=
  lastWrite (·.ip4 ipaddrAton) Netif.new.ip4 (history ipaddrAton es)

def left6 (es : List Event) : Ip6 :=
  lastWrite (·.ip6 ipaddrAton) Netif.new.ip6 (history ipaddrAton es)

/-- The netif has what the last of the entries `applied` wrote. -/
def Left (applied : List TunAddress) (b : OpenVpnTunBuilder) : Prop :=
  b.lwip.netif.ip4 = lastWrite (·.ip4 ipaddrAton) Netif.new.ip4 applied ∧
    b.lwip.netif.ip6 = lastWrite (·.ip6 ipaddrAton) Netif.new.ip6 applied

variable {ipaddrAton} {b b' : OpenVpnTunBuilder} {e : Event}

theorem addDnsServer_lwip (b : OpenVpnTunBuilder) (address : Bytes) (ipv6 : Bool) :
    (b.tunBuilderAddDnsServer address ipv6).lwip = b.lwip := by
  cases ipv6 <;> rfl

theorem setDnsOptions_lwip (b : OpenVpnTunBuilder) (servers : List (List Bytes)) :
    (b.tunBuilderSetDnsOptions servers).lwip = b.lwip := by
  unfold tunBuilderSetDnsOptions
  induction servers.flatten generalizing b with
  | nil => rfl
  | cons address addresses ih => rw [List.foldl_cons, ih, addDnsServer_lwip]

theorem establish_netif (b : OpenVpnTunBuilder) :
    (b.tunBuilderEstablish ipaddrAton).2.lwip.netif =
      (b.lwip.configured ipaddrAton b.pending).netif := by
  rcases establish_cases ipaddrAton b with ⟨-, he⟩ | ⟨-, he⟩ <;> rw [he]

/-- A call that applies no entry leaves the netif. -/
theorem Left.frame {applied : List TunAddress} (h : Left ipaddrAton applied b)
    (hn : b'.lwip.netif = b.lwip.netif) : Left ipaddrAton (applied ++ []) b' := by
  rw [List.append_nil, Left, hn]
  exact h

theorem left_step {applied : List TunAddress} (h : Left ipaddrAton applied b)
    (hs : b.step ipaddrAton e = some b') :
    Left ipaddrAton (applied ++ b.applies ipaddrAton e) b' := by
  cases e with
  | new =>
    obtain rfl := Option.some.inj hs
    exact h.frame rfl
  | addAddress address =>
    obtain rfl := Option.some.inj hs
    exact h.frame rfl
  | setMtu mtu =>
    obtain rfl := Option.some.inj hs
    exact h.frame rfl
  | addDnsServer address ipv6 =>
    obtain rfl := Option.some.inj hs
    exact h.frame (congrArg LwipRuntime.netif (addDnsServer_lwip b address ipv6))
  | setDnsOptions servers =>
    obtain rfl := Option.some.inj hs
    exact h.frame (congrArg LwipRuntime.netif (setDnsOptions_lwip b servers))
  | establish =>
    obtain rfl := Option.some.inj hs
    rw [Left, establish_netif, lastWrite_append, lastWrite_append, ← h.1, ← h.2]
    exact ⟨rfl, rfl⟩
  | teardown =>
    obtain rfl := Option.some.inj hs
    exact h.frame rfl

theorem left_run {es : List Event} (h : run (step ipaddrAton) new es = some b) :
    b.lwip.netif.ip4 = left4 ipaddrAton es ∧ b.lwip.netif.ip6 = left6 ipaddrAton es :=
  run_collect_inv (applies ipaddrAton) (Left ipaddrAton) (fun _ _ _ _ => left_step) ⟨rfl, rfl⟩ h

/-! ## The last tunnel -/

/-- The configuration has an entry of the family. -/
def Has (config : TunConfig) (ipv6 : Bool) : Prop := ∃ address ∈ config.addresses, address.ipv6 = ipv6

/-- An entry that can be applied writes to its own family. -/
theorem written_iff {address : TunAddress} (h : address.valid ipaddrAton = true) :
    ((address.ip4 ipaddrAton).isSome ↔ address.ipv6 = false) ∧
      ((address.ip6 ipaddrAton).isSome ↔ address.ipv6 = true) := by
  unfold TunAddress.valid at h
  unfold TunAddress.ip4 TunAddress.ip6
  cases h6 : address.ipv6 with
  | false =>
    rw [h6] at h
    cases hip : parseIp4 ipaddrAton address with
    | ok ip4 => exact ⟨iff_of_true rfl rfl, iff_of_false Bool.false_ne_true Bool.false_ne_true⟩
    | error msg =>
      rw [hip] at h
      cases h
  | true =>
    rw [h6] at h
    cases hip : parseIp6 ipaddrAton address with
    | ok ip6 => exact ⟨iff_of_false Bool.false_ne_true (by decide), iff_of_true rfl rfl⟩
    | error msg =>
      rw [hip] at h
      cases h

/-- A successful `tun_builder_establish` has applied every entry, over what the history left. -/
theorem established_run {es : List Event} (h : run (step ipaddrAton) new es = some b)
    (ho : b.tunBuilderEstablish ipaddrAton = (0, b')) :
    (∀ address ∈ b.pending.addresses, address.valid ipaddrAton = true) ∧
      b'.lwip.activeConfig = b.pending ∧
      b'.lwip.netif =
        { mtu := b.pending.netifMtu
          ip4 := lastWrite (·.ip4 ipaddrAton) (left4 ipaddrAton es) b.pending.addresses
          ip6 := lastWrite (·.ip6 ipaddrAton) (left6 ipaddrAton es) b.pending.addresses } := by
  obtain ⟨h4, h6⟩ := left_run h
  rcases establish_cases ipaddrAton b with ⟨hv, he⟩ | ⟨hv, he⟩ <;> rw [he] at ho
  · have happlied : b.pending.applied ipaddrAton = b.pending.addresses :=
      List.takeWhile_eq_self_iff.mpr hv
    rw [← (Prod.mk.inj ho).2, ← h4, ← h6, LwipRuntime.configured, happlied]
    exact ⟨hv, rfl, rfl⟩
  · cases ho

section Family

variable {β : Type} {f : TunAddress → Option β} {config : TunConfig} {ipv6 : Bool} {v w : β}

/-- What the entries of a family write shows the earlier value only if there are none. -/
theorem family_agrees_iff
    (hf : ∀ address ∈ config.addresses, (f address).isSome ↔ address.ipv6 = ipv6) :
    lastWrite f v config.addresses = lastWrite f w config.addresses ↔ Has config ipv6 ∨ v = w := by
  rw [lastWrite_eq_lastWrite_iff]
  refine or_congr_left ⟨?_, ?_⟩
  · rintro ⟨address, hmem, hs⟩
    exact ⟨address, hmem, (hf address hmem).mp hs⟩
  · rintro ⟨address, hmem, hs⟩
    exact ⟨address, hmem, (hf address hmem).mpr hs⟩

theorem family_kept
    (hf : ∀ address ∈ config.addresses, (f address).isSome ↔ address.ipv6 = ipv6)
    (hnone : ¬ Has config ipv6) : lastWrite f v config.addresses = v := by
  refine lastWrite_of_forall_none fun address hmem => ?_
  rw [← Option.not_isSome_iff_eq_none, hf address hmem]
  exact fun h6 => hnone ⟨address, hmem, h6⟩

end Family

/-- Two histories and then the same configuration, established by both. A family that the
    configuration has no entry of is as the history left it, and the two netifs and DNS servers are
    equal exactly if, for each family, it has an entry or the histories left the same. -/
theorem reconnect_agrees_iff {es₁ es₂ : List Event} {b₁ b₂ b₁' b₂' : OpenVpnTunBuilder}
    (h₁ : run (step ipaddrAton) new es₁ = some b₁) (h₂ : run (step ipaddrAton) new es₂ = some b₂)
    (hc : b₁.pending = b₂.pending) (ho₁ : b₁.tunBuilderEstablish ipaddrAton = (0, b₁'))
    (ho₂ : b₂.tunBuilderEstablish ipaddrAton = (0, b₂')) :
    (¬ Has b₁.pending false → b₁'.lwip.netif.ip4 = left4 ipaddrAton es₁) ∧
    (¬ Has b₁.pending true → b₁'.lwip.netif.ip6 = left6 ipaddrAton es₁) ∧
    (b₁'.lwip.netif = b₂'.lwip.netif ∧
        dnsServer ipaddrAton b₁'.lwip.activeConfig.toTunConfig =
          dnsServer ipaddrAton b₂'.lwip.activeConfig.toTunConfig ↔
      (Has b₁.pending false ∨ left4 ipaddrAton es₁ = left4 ipaddrAton es₂) ∧
      (Has b₁.pending true ∨ left6 ipaddrAton es₁ = left6 ipaddrAton es₂)) := by
  obtain ⟨hv, hactive₁, hnetif₁⟩ := established_run h₁ ho₁
  obtain ⟨-, hactive₂, hnetif₂⟩ := established_run h₂ ho₂
  have h4 := fun address hmem => (written_iff (hv address hmem)).1
  have h6 := fun address hmem => (written_iff (hv address hmem)).2
  rw [hactive₁, hactive₂, hnetif₁, hnetif₂, ← hc]
  refine ⟨family_kept h4, family_kept h6, ?_⟩
  rw [Netif.mk.injEq, family_agrees_iff h4, family_agrees_iff h6]
  constructor
  · rintro ⟨⟨-, hagree⟩, -⟩
    exact hagree
  · intro hagree
    exact ⟨⟨rfl, hagree⟩, rfl⟩

/-- A tunnel with the entry `address`, built and torn down. -/
def tunnel (address : TunAddress) : List Event :=
  [.new, .addAddress address, .establish, .teardown]

def demoV4 (last : UInt8) : TunAddress :=
  ⟨ipv4Text [10, 8, 0, last], ipv4Text [10, 8, 0, 1], 24, false, false⟩

def demoV6 : TunAddress := ⟨ipv6Text (List.replicate 16 0xfd), [], 64, true, false⟩

/-- A reconnect with an entry of both families, after a tunnel and without one. -/
theorem reconnect_agrees_demo :
    ∃ b₁ b₂ b₁' b₂',
      run (step printedAton) new (tunnel (demoV4 2) ++ [.new, .addAddress (demoV4 3), .addAddress demoV6]) =
        some b₁ ∧
      run (step printedAton) new [.addAddress (demoV4 3), .addAddress demoV6] = some b₂ ∧
      b₁.tunBuilderEstablish printedAton = (0, b₁') ∧ b₂.tunBuilderEstablish printedAton = (0, b₂') ∧
      b₁'.lwip.netif = b₂'.lwip.netif := by
  obtain ⟨b₁, b₂, b₁', b₂', h₁, h₂, ho₁, ho₂, hc, h4, h6⟩ : ∃ b₁ b₂ b₁' b₂',
      run (step printedAton) new (tunnel (demoV4 2) ++ [.new, .addAddress (demoV4 3), .addAddress demoV6]) =
        some b₁ ∧
      run (step printedAton) new [.addAddress (demoV4 3), .addAddress demoV6] = some b₂ ∧
      b₁.tunBuilderEstablish printedAton = (0, b₁') ∧ b₂.tunBuilderEstablish printedAton = (0, b₂') ∧
      b₁.pending = b₂.pending ∧ Has b₁.pending false ∧ Has b₁.pending true := by
    refine ⟨_, _, _, _, rfl, rfl, rfl, rfl, ?_, ?_, ?_⟩
    · rfl
    · exact ⟨demoV4 3, List.mem_cons_self, rfl⟩
    · exact ⟨demoV6, List.mem_cons_of_mem _ List.mem_cons_self, rfl⟩
  have hagree := (reconnect_agrees_iff h₁ h₂ hc ho₁ ho₂).2.2.mpr ⟨Or.inl h4, Or.inl h6⟩
  exact ⟨b₁, b₂, b₁', b₂', h₁, h₂, ho₁, ho₂, hagree.1⟩

/-- An IPv6 tunnel after an IPv4 one keeps the IPv4 address. -/
theorem address_survives_reconnect :
    ∃ b₁ b₂ b₁' b₂',
      run (step printedAton) new (tunnel (demoV4 2) ++ [.new, .addAddress demoV6]) = some b₁ ∧
      run (step printedAton) new [.new, .addAddress demoV6] = some b₂ ∧ b₁.pending = b₂.pending ∧
      b₁.tunBuilderEstablish printedAton = (0, b₁') ∧ b₂.tunBuilderEstablish printedAton = (0, b₂') ∧
      b₁'.lwip.netif.ip4.ipAddr = [10, 8, 0, 2] ∧ b₂'.lwip.netif.ip4.ipAddr = [0, 0, 0, 0] :=
  ⟨_, _, _, _, rfl, rfl, rfl, rfl, rfl, rfl, rfl⟩

end Ovpn2ss.Tun.OpenVpnTunBuilder
