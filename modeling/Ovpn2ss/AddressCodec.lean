/-
  The Shadowsocks address codec (`parse_ss_address` and `encode_ss_address` in
  `src/ShadowsocksAead.cpp`).

  `Spells e t` is the grammar, with the target each word of it stands for. The parser accepts
  exactly a word of the grammar followed by anything (`parseSsAddress_iff`), the encoder writes
  the word back, and parsing what the encoder wrote gives the target back
  (`address_codec`). An IP address travels as text in between: `Asio.ReadsText` says that
  `make_address_v4` and `make_address_v6` read what the parser prints.
-/
import Ovpn2ss.AddressText

namespace Ovpn2ss

open Ovpn2ss.Aead (Block be16 readBe16 readBe16_be16 be16_readBe16)

/-- `static_cast<std::byte>(target.type)`. -/
def AddressType.byte : AddressType → UInt8
  | .Ipv4 => 1
  | .Domain => 3
  | .Ipv6 => 4

/-- The two readers of `asio::ip`, with `to_bytes` of the address; `none` is an error code. -/
structure Asio where
  makeAddressV4 : Bytes → Option (Block 4)
  makeAddressV6 : Bytes → Option (Block 16)

/-- `make_address_v4` reads dotted quads, and `make_address_v6` eight groups of four
    hexadecimal digits. -/
structure Asio.ReadsText (asio : Asio) : Prop where
  v4 : ∀ addr : Block 4, asio.makeAddressV4 (ipv4Text addr.val) = some addr
  v6 : ∀ addr : Block 16, asio.makeAddressV6 (ipv6Text addr.val) = some addr

/-- `encode_ss_address`. A type that is none of the three, for which the source throws
    "invalid Shadowsocks address type", cannot be built here. -/
def encodeSsAddress (asio : Asio) (target : TargetAddress) : Except String Bytes :=
  match target.type with
  | .Domain =>
    if 255 < target.host.length then .error "domain too long"
    else .ok (target.type.byte :: UInt8.ofNat target.host.length :: target.host ++ be16 target.port)
  | .Ipv4 =>
    match asio.makeAddressV4 target.host with
    | none => .error "invalid IPv4 address"
    | some ip => .ok (target.type.byte :: ip.val ++ be16 target.port)
  | .Ipv6 =>
    match asio.makeAddressV6 target.host with
    | none => .error "invalid IPv6 address"
    | some ip => .ok (target.type.byte :: ip.val ++ be16 target.port)

/-! ## The grammar -/

/-- The bytes that spell a target: a type byte, four bytes, a counted name or sixteen bytes, and a
    big-endian port. -/
inductive Spells : Bytes → TargetAddress → Prop
  | ipv4 (addr : Block 4) (port : Block 2) :
    Spells (1 :: addr.val ++ port.val) ⟨.Ipv4, ipv4Text addr.val, readBe16 port.val⟩
  | domain (n : UInt8) (host : Block n.toNat) (port : Block 2) :
    Spells (3 :: n :: host.val ++ port.val) ⟨.Domain, host.val, readBe16 port.val⟩
  | ipv6 (addr : Block 16) (port : Block 2) :
    Spells (4 :: addr.val ++ port.val) ⟨.Ipv6, ipv6Text addr.val, readBe16 port.val⟩

/-- The number of bytes that spell a target. -/
def TargetAddress.size (target : TargetAddress) : Nat :=
  match target.type with
  | .Ipv4 => 7
  | .Domain => 4 + target.host.length
  | .Ipv6 => 19

variable {b e r host : Bytes} {t : TargetAddress} {type : AddressType}

theorem Spells.length (h : Spells e t) : e.length = t.size := by
  cases h with
  | ipv4 addr port => simp [TargetAddress.size, addr.property, port.property]
  | domain n host port => simp [TargetAddress.size, host.property, port.property]; omega
  | ipv6 addr port => simp [TargetAddress.size, addr.property, port.property]

/-! ## Parsing -/

theorem parsePort_iff :
    parsePort type host b = some (t, r) ↔
      ∃ port : Block 2, t = ⟨type, host, readBe16 port.val⟩ ∧ b = port.val ++ r := by
  unfold parsePort
  constructor
  · intro h
    split at h
    · cases h
    · next hlen =>
      obtain ⟨rfl, rfl⟩ := Prod.mk.inj (Option.some.inj h)
      exact ⟨⟨b.take 2, List.length_take_of_le (by omega)⟩, rfl, (List.take_append_drop 2 b).symm⟩
  · rintro ⟨⟨port, hport⟩, rfl, rfl⟩
    rw [if_neg (by rw [List.length_append, hport]; omega), List.take_left' hport, List.drop_left' hport]

/-- What the parser does after a type byte: a host of `n` bytes, then the port. -/
theorem parseHost_iff {n : Nat} (print : Bytes → Bytes) :
    (if b.length < n + 2 then none else parsePort type (print (b.take n)) (b.drop n)) = some (t, r) ↔
      ∃ (addr : Block n) (port : Block 2), t = ⟨type, print addr.val, readBe16 port.val⟩ ∧
        b = addr.val ++ port.val ++ r := by
  constructor
  · intro h
    split at h
    · cases h
    · next hlen =>
      obtain ⟨port, rfl, hrest⟩ := parsePort_iff.mp h
      refine ⟨⟨b.take n, List.length_take_of_le (by omega)⟩, port, rfl, ?_⟩
      rw [List.append_assoc, ← hrest, List.take_append_drop]
  · rintro ⟨⟨addr, haddr⟩, port, rfl, rfl⟩
    have hlen : ¬ (addr ++ port.val ++ r).length < n + 2 := by
      rw [List.length_append, List.length_append, haddr, port.property]
      omega
    rw [if_neg hlen, List.append_assoc, List.take_left' haddr, List.drop_left' haddr]
    exact parsePort_iff.mpr ⟨port, rfl, rfl⟩

/-- The parser accepts a word of the grammar followed by anything, and nothing else. -/
theorem parseSsAddress_iff :
    parseSsAddress b = some (t, r) ↔ ∃ e, Spells e t ∧ b = e ++ r := by
  constructor
  · intro h
    unfold parseSsAddress at h
    split at h
    · cases h
    · next atyp bytes =>
      split at h
      · next h1 =>
        obtain ⟨addr, port, rfl, rfl⟩ := (parseHost_iff ipv4Text).mp h
        exact ⟨_, .ipv4 addr port, by rw [h1]; rfl⟩
      · split at h
        · next h3 =>
          split at h
          · cases h
          · next len bytes =>
            obtain ⟨host, port, rfl, rfl⟩ := (parseHost_iff id).mp h
            exact ⟨_, .domain len host port, by rw [h3]; rfl⟩
        · split at h
          · next h4 =>
            obtain ⟨addr, port, rfl, rfl⟩ := (parseHost_iff ipv6Text).mp h
            exact ⟨_, .ipv6 addr port, by rw [h4]; rfl⟩
          · cases h
  · rintro ⟨e, he, rfl⟩
    cases he with
    | ipv4 addr port => exact (parseHost_iff ipv4Text).mpr ⟨addr, port, rfl, rfl⟩
    | domain n host port => exact (parseHost_iff id).mpr ⟨host, port, rfl, rfl⟩
    | ipv6 addr port => exact (parseHost_iff ipv6Text).mpr ⟨addr, port, rfl, rfl⟩

/-! ## Encoding -/

/-- The encoder writes a word of the grammar back. -/
theorem encodeSsAddress_of_spells {asio : Asio} (hA : asio.ReadsText) (h : Spells e t) :
    encodeSsAddress asio t = .ok e := by
  cases h with
  | ipv4 addr port =>
    rw [encodeSsAddress]
    dsimp only
    rw [hA.v4, be16_readBe16]
    rfl
  | domain n host port =>
    have hn := n.toNat_lt
    rw [encodeSsAddress]
    dsimp only
    rw [host.property, if_neg (by omega), be16_readBe16, UInt8.ofNat_toNat]
    rfl
  | ipv6 addr port =>
    rw [encodeSsAddress]
    dsimp only
    rw [hA.v6, be16_readBe16]
    rfl

/-- The same target, up to the text of an IP address. -/
structure SameTarget (asio : Asio) (t t' : TargetAddress) : Prop where
  type : t'.type = t.type
  port : t'.port = t.port
  domain : t.type = .Domain → t'.host = t.host
  v4 : t.type = .Ipv4 → asio.makeAddressV4 t'.host = asio.makeAddressV4 t.host
  v6 : t.type = .Ipv6 → asio.makeAddressV6 t'.host = asio.makeAddressV6 t.host

/-- The target with the text that the parser prints for its address. -/
structure Reprinted (asio : Asio) (t t' : TargetAddress) : Prop where
  type : t'.type = t.type
  port : t'.port = t.port
  domain : t.type = .Domain → t'.host = t.host
  v4 : t.type = .Ipv4 → ∃ ip, asio.makeAddressV4 t.host = some ip ∧ t'.host = ipv4Text ip.val
  v6 : t.type = .Ipv6 → ∃ ip, asio.makeAddressV6 t.host = some ip ∧ t'.host = ipv6Text ip.val

/-- What the encoder writes spells the target it was given. -/
theorem spells_of_encodeSsAddress {asio : Asio} (hport : t.port < 65536)
    (h : encodeSsAddress asio t = .ok e) : ∃ t', Spells e t' ∧ Reprinted asio t t' := by
  obtain ⟨type, host, port⟩ := t
  have hbe : readBe16 (be16 port) = port := readBe16_be16 hport
  cases type with
  | Domain =>
    rw [encodeSsAddress] at h
    dsimp only at h
    split at h
    · cases h
    · next hlen =>
      obtain rfl := Except.ok.inj h
      have hn : (UInt8.ofNat host.length).toNat = host.length := by
        rw [UInt8.toNat_ofNat']
        omega
      exact ⟨_, .domain (UInt8.ofNat host.length) ⟨host, hn.symm⟩ ⟨be16 port, rfl⟩, rfl, hbe,
        fun _ => rfl, fun htype => (by cases htype), fun htype => (by cases htype)⟩
  | Ipv4 =>
    rw [encodeSsAddress] at h
    dsimp only at h
    split at h
    · cases h
    · next ip hip =>
      obtain rfl := Except.ok.inj h
      exact ⟨_, .ipv4 ip ⟨be16 port, rfl⟩, rfl, hbe, fun htype => (by cases htype),
        fun _ => ⟨ip, hip, rfl⟩, fun htype => (by cases htype)⟩
  | Ipv6 =>
    rw [encodeSsAddress] at h
    dsimp only at h
    split at h
    · cases h
    · next ip hip =>
      obtain rfl := Except.ok.inj h
      exact ⟨_, .ipv6 ip ⟨be16 port, rfl⟩, rfl, hbe, fun htype => (by cases htype),
        fun htype => (by cases htype), fun _ => ⟨ip, hip, rfl⟩⟩

theorem Reprinted.sameTarget {asio : Asio} {t t' : TargetAddress} (h : Reprinted asio t t')
    (hA : asio.ReadsText) : SameTarget asio t t' where
  type := h.type
  port := h.port
  domain := h.domain
  v4 htype := by
    obtain ⟨ip, hip, hhost⟩ := h.v4 htype
    rw [hip, hhost, hA.v4]
  v6 htype := by
    obtain ⟨ip, hip, hhost⟩ := h.v6 htype
    rw [hip, hhost, hA.v6]

/-- The codec is a bijection onto its grammar. The parser accepts exactly a word of the grammar with
    anything behind it, and the encoder writes the word of the parsed target back. Conversely,
    whatever the encoder accepts, the parser reads the same type and port, the same domain and
    the same numeric address in front of any suffix. -/
theorem address_codec {asio : Asio} (hA : asio.ReadsText) :
    (∀ b t r, parseSsAddress b = some (t, r) ↔ ∃ e, Spells e t ∧ b = e ++ r) ∧
    (∀ b t r e, parseSsAddress b = some (t, r) → b = e ++ r → encodeSsAddress asio t = .ok e) ∧
    ∀ t e r, t.port < 65536 → encodeSsAddress asio t = .ok e →
      ∃ t', parseSsAddress (e ++ r) = some (t', r) ∧ SameTarget asio t t' := by
  refine ⟨fun b t r => parseSsAddress_iff, fun b t r e h hb => ?_, fun t e r hport h => ?_⟩
  · obtain ⟨e', he', rfl⟩ := parseSsAddress_iff.mp h
    obtain rfl := List.append_cancel_right hb
    exact encodeSsAddress_of_spells hA he'
  · obtain ⟨t', hsp, hprinted⟩ := spells_of_encodeSsAddress hport h
    exact ⟨t', parseSsAddress_iff.mpr ⟨e, hsp, rfl⟩, hprinted.sameTarget hA⟩

/-- A stand-in for `asio`, to run the model on concrete input: it reads the dotted quads and the
    eight groups of four hexadecimal digits, and nothing else. -/
def demoAsio : Asio where
  makeAddressV4 host :=
    let addr := dottedNumbers host 0
    if h : addr.length = 4 then if ipv4Text addr = host then some ⟨addr, h⟩ else none else none
  makeAddressV6 host :=
    let addr := hexGroups host
    if h : addr.length = 16 then if ipv6Text addr = host then some ⟨addr, h⟩ else none else none

theorem demoAsio_readsText : demoAsio.ReadsText where
  v4 := by
    rintro ⟨addr, haddr⟩
    have hne : addr ≠ [] := by
      rintro rfl
      cases haddr
    have hread := dottedNumbers_ipv4Text hne
    simp only [demoAsio, hread, haddr, dite_true, if_true]
  v6 := by
    rintro ⟨addr, haddr⟩
    have hread : hexGroups (ipv6Text addr) = addr := hexGroups_ipv6Text (by rw [haddr])
    simp only [demoAsio, hread, haddr, dite_true, if_true]

/-- The address of the unit tests, 192.0.2.1 port 53, with the suffix 7. -/
theorem address_codec_demo :
    encodeSsAddress demoAsio ⟨.Ipv4, ipv4Text [192, 0, 2, 1], 53⟩ = .ok [1, 192, 0, 2, 1, 0, 53] ∧
    ∃ t', parseSsAddress ([1, 192, 0, 2, 1, 0, 53] ++ [7]) = some (t', [7]) ∧
      SameTarget demoAsio ⟨.Ipv4, ipv4Text [192, 0, 2, 1], 53⟩ t' := by
  have henc : encodeSsAddress demoAsio ⟨.Ipv4, ipv4Text [192, 0, 2, 1], 53⟩ =
      .ok [1, 192, 0, 2, 1, 0, 53] := by decide
  exact ⟨henc, (address_codec demoAsio_readsText).2.2 _ _ [7] (by decide) henc⟩

end Ovpn2ss
