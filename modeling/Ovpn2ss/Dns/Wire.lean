/-
  The DNS messages of `src/LwipRuntime.cpp`: `make_dns_query`, `skip_dns_name` and
  `parse_dns_response`.

  A read of the packet outside its bounds is undefined in the source. Here it makes the function
  that reads return `none`, so the parsers return an `Option` around the result of the source:
  `some none` is `std::nullopt` (or `false`), `none` a read out of bounds. `parseDnsResponse_some`
  shows that the second never happens.
-/
import Ovpn2ss.Lwip.Tcp

namespace Ovpn2ss.Dns

open Ovpn2ss.Aead Ovpn2ss.Lwip

def DnsPort : Nat := 53
def DnsTypeA : Nat := 1
def DnsTypeAaaa : Nat := 28
def DnsClassIn : Nat := 1

/-! ## Queries -/

/-- The loop over the labels of `host`, from `start` on. Every iteration but the last takes a
    label and its dot, so as many iterations as there are bytes are enough. -/
def encodeLabels : Nat → Bytes → Except String Bytes
  | 0, _ => .ok []
  | fuel + 1, host =>
    if host.isEmpty then .ok []
    else
      let label := host.takeWhile (· ≠ 0x2e)
      if label.length = 0 ∨ 63 < label.length then .error "invalid DNS label"
      else
        match host.drop label.length with
        | [] => .ok (UInt8.ofNat label.length :: label)
        | _ :: host =>
          match encodeLabels fuel host with
          | .error e => .error e
          | .ok labels => .ok (UInt8.ofNat label.length :: label ++ labels)

/-- The header asks for recursion, with one question and nothing else. -/
def makeDnsQuery (id : Nat) (host : Bytes) (qtype : Nat) : Except String Bytes :=
  match encodeLabels host.length host with
  | .error e => .error e
  | .ok labels =>
    .ok (be16 id ++ be16 0x0100 ++ be16 1 ++ be16 0 ++ be16 0 ++ be16 0 ++ labels ++ [0] ++
      be16 qtype ++ be16 DnsClassIn)

/-! ## Responses -/

def readU16 (bytes : Bytes) (offset : Nat) : Option Nat := do
  let hi ← bytes[offset]?
  let lo ← bytes[offset + 1]?
  return hi.toNat <<< 8 ||| lo.toNat

def readU32 (bytes : Bytes) (offset : Nat) : Option Nat := do
  let hi ← readU16 bytes offset
  let lo ← readU16 bytes (offset + 2)
  return hi <<< 16 ||| lo

/-- What one iteration of `skip_dns_name` finds at `offset`: something that ends the loop with
    false, the end of the name, or a label; the latter two with the offset after it. -/
inductive NamePart where
  | bad
  | done (offset : Nat)
  | label (offset : Nat)

def namePart (packet : Bytes) (offset : Nat) : Option NamePart :=
  if offset < packet.length then do
    let len ← packet[offset]?
    if len &&& 0xc0 = 0xc0 then
      if packet.length ≤ offset + 1 then some .bad else some (.done (offset + 2))
    else if len &&& 0xc0 ≠ 0 then some .bad
    else if len = 0 then some (.done (offset + 1))
    else if packet.length < offset + 1 + len.toNat then some .bad
    else some (.label (offset + 1 + len.toNat))
  else some .bad

/-- `skip_dns_name`: the offset after the name, `some none` if it returns false. The first
    argument is how many labels `jumps` still allows. -/
def skipDnsName (packet : Bytes) : Nat → Nat → Option (Option Nat)
  | 0, offset =>
    match namePart packet offset with
    | none => none
    | some (.done offset) => some (some offset)
    | some _ => some none
  | left + 1, offset =>
    match namePart packet offset with
    | none => none
    | some .bad => some none
    | some (.done offset) => some (some offset)
    | some (.label offset) => skipDnsName packet left offset

/-- `++jumps > 255`. -/
def maxJumps : Nat := 255

/-- The loop over the question section: the offset after it. -/
def skipQuestions (packet : Bytes) : Nat → Nat → Option (Option Nat)
  | 0, offset => some (some offset)
  | qdcount + 1, offset => do
    match ← skipDnsName packet maxJumps offset with
    | none => some none
    | some offset =>
      if packet.length < offset + 4 then some none else skipQuestions packet qdcount (offset + 4)

/-- A 32-bit word in the memory of a little-endian host. -/
def wordBytes (word : Nat) : Bytes :=
  [UInt8.ofNat word, UInt8.ofNat (word >>> 8), UInt8.ofNat (word >>> 16), UInt8.ofNat (word >>> 24)]

/-- The address in the RDATA at `offset`, if its type and length are those of an address.
    `IP_ADDR4` stores the four bytes in their order, `IP_ADDR6` the four words as they are. -/
def rdataAddress (packet : Bytes) (type rdlen offset : Nat) : Option (Option IpAddr) :=
  if type = DnsTypeA ∧ rdlen = 4 then do
    let b0 ← packet[offset]?
    let b1 ← packet[offset + 1]?
    let b2 ← packet[offset + 2]?
    let b3 ← packet[offset + 3]?
    return some ⟨false, [b0, b1, b2, b3]⟩
  else if type = DnsTypeAaaa ∧ rdlen = 16 then do
    let w0 ← readU32 packet offset
    let w1 ← readU32 packet (offset + 4)
    let w2 ← readU32 packet (offset + 8)
    let w3 ← readU32 packet (offset + 12)
    return some ⟨true, wordBytes w0 ++ wordBytes w1 ++ wordBytes w2 ++ wordBytes w3⟩
  else some none

/-- The loop over the answer section: the first address of the type asked for. -/
def findAnswer (packet : Bytes) (qtype : Nat) : Nat → Nat → Option (Option IpAddr)
  | 0, _ => some none
  | ancount + 1, offset => do
    match ← skipDnsName packet maxJumps offset with
    | none => some none
    | some offset =>
      if packet.length < offset + 10 then some none
      else do
        let type ← readU16 packet offset
        let klass ← readU16 packet (offset + 2)
        let rdlen ← readU16 packet (offset + 8)
        if packet.length < offset + 10 + rdlen then some none
        else if klass = DnsClassIn ∧ type = qtype then do
          match ← rdataAddress packet type rdlen (offset + 10) with
          | some ip => some (some ip)
          | none => findAnswer packet qtype ancount (offset + 10 + rdlen)
        else findAnswer packet qtype ancount (offset + 10 + rdlen)

def parseDnsResponse (packet : Bytes) (id qtype : Nat) : Option (Option IpAddr) :=
  if packet.length < 12 then some none
  else do
    let rid ← readU16 packet 0
    if rid ≠ id then some none
    else do
      let flags ← readU16 packet 2
      if flags &&& 0x8000 = 0 ∨ flags &&& 0x000f ≠ 0 then some none
      else do
        let qdcount ← readU16 packet 4
        let ancount ← readU16 packet 6
        match ← skipQuestions packet qdcount 12 with
        | none => some none
        | some offset => findAnswer packet qtype ancount offset

/-! ## Every read is inside the packet -/

theorem byte_some (packet : Bytes) {offset : Nat} (h : offset < packet.length) :
    ∃ b, packet[offset]? = some b :=
  ⟨_, List.getElem?_eq_getElem h⟩

theorem readU16_some (packet : Bytes) {offset : Nat} (h : offset + 1 < packet.length) :
    ∃ v, readU16 packet offset = some v := by
  obtain ⟨hi, hhi⟩ := byte_some packet (Nat.lt_of_succ_lt h)
  obtain ⟨lo, hlo⟩ := byte_some packet h
  exact ⟨_, by rw [readU16, hhi, hlo]; rfl⟩

theorem readU32_some (packet : Bytes) {offset : Nat} (h : offset + 3 < packet.length) :
    ∃ v, readU32 packet offset = some v := by
  obtain ⟨hi, hhi⟩ := readU16_some packet (Nat.lt_of_succ_lt (Nat.lt_of_succ_lt h))
  obtain ⟨lo, hlo⟩ := readU16_some packet h
  exact ⟨_, by rw [readU32, hhi, hlo]; rfl⟩

theorem namePart_some (packet : Bytes) (offset : Nat) :
    ∃ part, namePart packet offset = some part := by
  unfold namePart
  split
  · rename_i h
    obtain ⟨len, hlen⟩ := byte_some packet h
    rw [hlen]
    simp only [Option.bind_eq_bind, Option.bind_some]
    repeat' split
    all_goals exact ⟨_, rfl⟩
  · exact ⟨_, rfl⟩

theorem skipDnsName_some (packet : Bytes) (left offset : Nat) :
    ∃ r, skipDnsName packet left offset = some r := by
  induction left generalizing offset with
  | zero =>
    obtain ⟨part, hpart⟩ := namePart_some packet offset
    rw [skipDnsName, hpart]
    cases part <;> exact ⟨_, rfl⟩
  | succ left ih =>
    obtain ⟨part, hpart⟩ := namePart_some packet offset
    rw [skipDnsName, hpart]
    cases part with
    | bad => exact ⟨_, rfl⟩
    | done offset => exact ⟨_, rfl⟩
    | label offset => exact ih offset

theorem skipQuestions_some (packet : Bytes) (qdcount offset : Nat) :
    ∃ r, skipQuestions packet qdcount offset = some r := by
  induction qdcount generalizing offset with
  | zero => exact ⟨_, rfl⟩
  | succ qdcount ih =>
    obtain ⟨r, hr⟩ := skipDnsName_some packet maxJumps offset
    rw [skipQuestions, hr]
    cases r with
    | none => exact ⟨_, rfl⟩
    | some offset' =>
      simp only [Option.bind_eq_bind, Option.bind_some]
      split
      · exact ⟨_, rfl⟩
      · exact ih _

/-- The RDATA lies inside the packet, and only its own bytes are read. -/
theorem rdataAddress_some {packet : Bytes} (type : Nat) {rdlen offset : Nat}
    (h : offset + rdlen ≤ packet.length) : ∃ r, rdataAddress packet type rdlen offset = some r := by
  unfold rdataAddress
  split
  · rename_i htype
    obtain ⟨b0, h0⟩ := byte_some packet (show offset < packet.length by omega)
    obtain ⟨b1, h1⟩ := byte_some packet (show offset + 1 < packet.length by omega)
    obtain ⟨b2, h2⟩ := byte_some packet (show offset + 2 < packet.length by omega)
    obtain ⟨b3, h3⟩ := byte_some packet (show offset + 3 < packet.length by omega)
    rw [h0, h1, h2, h3]
    exact ⟨_, rfl⟩
  · split
    · rename_i htype
      obtain ⟨w0, h0⟩ := readU32_some packet (show offset + 3 < packet.length by omega)
      obtain ⟨w1, h1⟩ := readU32_some packet (show offset + 4 + 3 < packet.length by omega)
      obtain ⟨w2, h2⟩ := readU32_some packet (show offset + 8 + 3 < packet.length by omega)
      obtain ⟨w3, h3⟩ := readU32_some packet (show offset + 12 + 3 < packet.length by omega)
      rw [h0, h1, h2, h3]
      exact ⟨_, rfl⟩
    · exact ⟨_, rfl⟩

theorem findAnswer_some (packet : Bytes) (qtype ancount offset : Nat) :
    ∃ r, findAnswer packet qtype ancount offset = some r := by
  induction ancount generalizing offset with
  | zero => exact ⟨_, rfl⟩
  | succ ancount ih =>
    obtain ⟨r, hr⟩ := skipDnsName_some packet maxJumps offset
    rw [findAnswer, hr]
    cases r with
    | none => exact ⟨_, rfl⟩
    | some offset' =>
      simp only [Option.bind_eq_bind, Option.bind_some]
      split
      · exact ⟨_, rfl⟩
      · -- the fixed part of the record is inside the packet
        obtain ⟨type, ht⟩ := readU16_some packet (show offset' + 1 < packet.length by omega)
        obtain ⟨klass, hk⟩ := readU16_some packet (show offset' + 2 + 1 < packet.length by omega)
        obtain ⟨rdlen, hl⟩ := readU16_some packet (show offset' + 8 + 1 < packet.length by omega)
        rw [ht, hk, hl]
        simp only [Option.bind_some]
        split
        · exact ⟨_, rfl⟩
        · split
          · obtain ⟨ip, hip⟩ := rdataAddress_some type
              (show offset' + 10 + rdlen ≤ packet.length by omega)
            rw [hip]
            cases ip with
            | none => exact ih _
            | some ip => exact ⟨_, rfl⟩
          · exact ih _

/-- The parser reads no byte outside the packet, whatever the packet. -/
theorem parseDnsResponse_some (packet : Bytes) (id qtype : Nat) :
    ∃ r, parseDnsResponse packet id qtype = some r := by
  unfold parseDnsResponse
  split
  · exact ⟨_, rfl⟩
  · obtain ⟨rid, h0⟩ := readU16_some packet (show 0 + 1 < packet.length by omega)
    obtain ⟨flags, h2⟩ := readU16_some packet (show 2 + 1 < packet.length by omega)
    obtain ⟨qdcount, h4⟩ := readU16_some packet (show 4 + 1 < packet.length by omega)
    obtain ⟨ancount, h6⟩ := readU16_some packet (show 6 + 1 < packet.length by omega)
    rw [h0, h2, h4, h6]
    simp only [Option.bind_eq_bind, Option.bind_some]
    split
    · exact ⟨_, rfl⟩
    · split
      · exact ⟨_, rfl⟩
      · obtain ⟨r, hr⟩ := skipQuestions_some packet qdcount 12
        rw [hr]
        cases r with
        | none => exact ⟨_, rfl⟩
        | some offset => exact findAnswer_some packet qtype ancount offset

/-- A packet with another id has no address. -/
theorem parseDnsResponse_otherId {packet : Bytes} {id : Nat} (h : readU16 packet 0 ≠ some id)
    (qtype : Nat) : parseDnsResponse packet id qtype = some none := by
  unfold parseDnsResponse
  split
  · rfl
  · obtain ⟨rid, h0⟩ := readU16_some packet (show 0 + 1 < packet.length by omega)
    have hne : rid ≠ id := by
      rintro rfl
      exact h h0
    rw [h0]
    simp only [Option.bind_eq_bind, Option.bind_some]
    rw [if_pos hne]

end Ovpn2ss.Dns
