/-
  Shadowsocks target addresses (`parse_ss_address` in `src/ShadowsocksAead.cpp`).

  A `std::string` is a byte string: the host of a domain target is whatever bytes the client
  sent, and the host of an IP target is the ASCII text the parser prints.
-/
import Ovpn2ss.Aead.Basic

namespace Ovpn2ss

open Ovpn2ss.Aead (readBe16)

/-- Bytes as text, for the message of an exception. -/
def text (bytes : Bytes) : String := String.ofList (bytes.map fun b => Char.ofNat b.toNat)

inductive AddressType where
  | Ipv4
  | Domain
  | Ipv6
  deriving DecidableEq

structure TargetAddress where
  type : AddressType
  host : Bytes
  port : Nat
  deriving DecidableEq

/-- `std::to_string` of an unsigned value. -/
def toDecimal (n : Nat) : Bytes := (Nat.toDigits 10 n).map fun c => UInt8.ofNat c.toNat

/-- `%02x`. -/
def toHex2 (b : UInt8) : Bytes :=
  [b.toNat / 16, b.toNat % 16].map fun d => UInt8.ofNat (if d < 10 then 0x30 + d else 0x57 + d)

/-- Four bytes as a dotted quad. -/
def ipv4Text : Bytes → Bytes
  | [] => []
  | [b] => toDecimal b.toNat
  | b :: rest => toDecimal b.toNat ++ 0x2e :: ipv4Text rest

/-- Sixteen bytes as eight groups of four hexadecimal digits. -/
def ipv6Text : Bytes → Bytes
  | a :: b :: [] => toHex2 a ++ toHex2 b
  | a :: b :: rest => toHex2 a ++ toHex2 b ++ 0x3a :: ipv6Text rest
  | _ => []

/-- The two-byte port that ends every address. -/
def parsePort (type : AddressType) (host : Bytes) (bytes : Bytes) : Option (TargetAddress × Bytes) :=
  if bytes.length < 2 then none
  else some (⟨type, host, readBe16 (bytes.take 2)⟩, bytes.drop 2)

/-- `parse_ss_address`: the target and the bytes after it. -/
def parseSsAddress : Bytes → Option (TargetAddress × Bytes)
  | [] => none
  | atyp :: bytes =>
    if atyp = 1 then
      if bytes.length < 6 then none
      else parsePort .Ipv4 (ipv4Text (bytes.take 4)) (bytes.drop 4)
    else if atyp = 3 then
      match bytes with
      | [] => none
      | len :: bytes =>
        if bytes.length < len.toNat + 2 then none
        else parsePort .Domain (bytes.take len.toNat) (bytes.drop len.toNat)
    else if atyp = 4 then
      if bytes.length < 18 then none
      else parsePort .Ipv6 (ipv6Text (bytes.take 16)) (bytes.drop 16)
    else none

theorem parsePort_length {type : AddressType} {host bytes rest : Bytes} {t : TargetAddress}
    (h : parsePort type host bytes = some (t, rest)) : rest.length + 2 = bytes.length := by
  unfold parsePort at h
  split at h
  · cases h
  · rename_i hlen
    obtain ⟨-, rfl⟩ := Prod.mk.inj (Option.some.inj h)
    rw [List.length_drop]
    omega

/-- What follows the address is shorter than the input. -/
theorem parseSsAddress_length {bytes rest : Bytes} {t : TargetAddress}
    (h : parseSsAddress bytes = some (t, rest)) : rest.length < bytes.length := by
  unfold parseSsAddress at h
  split at h
  · cases h
  · rename_i atyp bytes
    rw [List.length_cons]
    split at h
    · split at h
      · cases h
      · have := parsePort_length h
        rw [List.length_drop] at this
        omega
    · split at h
      · split at h
        · cases h
        · split at h
          · cases h
          · have := parsePort_length h
            rw [List.length_drop] at this
            rw [List.length_cons]
            omega
      · split at h
        · split at h
          · cases h
          · have := parsePort_length h
            rw [List.length_drop] at this
            omega
        · cases h

end Ovpn2ss
