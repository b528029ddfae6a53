/-
  `ShadowsocksAeadSession` (`src/ShadowsocksAead.cpp`): keys, nonces, the TCP chunk and UDP
  packet framing, and the factory that makes sessions.

  mbedTLS is not part of the repository. `Mbedtls` stands for the four calls the code makes;
  a result of `none` is a non-zero return code. The two size fields say what the buffers of
  the call sites fix anyway: the output span of `crypt` and `decrypt` has the size of the
  input span, and the tag span has 16 bytes.

  A `throw` keeps every change made before it, so fallible members return the new session
  beside the result. `sendOps` and `recvOps` are history variables: the AEAD operations
  performed under the present send key, and those of the chunks accepted under the present
  receive key. No function reads them.
-/
import Mathlib.Data.List.Basic
import Mathlib.Tactic

namespace Ovpn2ss

/-- `std::vector<std::byte>`, `PacketBuffer` and the spans over them. -/
abbrev Bytes := List UInt8

namespace Aead

def KeySize : Nat := 32
def SaltSize : Nat := 32
def TagSize : Nat := 16
def NonceSize : Nat := 12

/-- `std::array<std::byte, n>`. -/
abbrev Block (n : Nat) := { bytes : Bytes // bytes.length = n }

abbrev Key := Block KeySize
abbrev Salt := Block SaltSize
abbrev Nonce := Block NonceSize

/-- The mbedTLS calls made by the session and the factory. -/
structure Mbedtls where
  /-- `mbedtls_hkdf` over SHA-1: salt, input key, info; a 32-byte output. -/
  hkdf : Bytes → Bytes → Bytes → Option Key
  /-- `mbedtls_chachapoly_encrypt_and_tag` after `setkey`, without additional data. -/
  encryptAndTag : Key → Nonce → Bytes → Option (Bytes × Bytes)
  /-- `mbedtls_chachapoly_auth_decrypt` after `setkey`: input, then tag. -/
  authDecrypt : Key → Nonce → Bytes → Bytes → Option Bytes
  md5 : Bytes → Block 16
  encrypt_size : ∀ {k n p c t}, encryptAndTag k n p = some (c, t) →
    c.length = p.length ∧ t.length = TagSize
  decrypt_size : ∀ {k n c t p}, authDecrypt k n c t = some p → p.length = c.length

/-- One AEAD operation, as it went over the wire. -/
structure AeadOp where
  nonce : Nonce
  plain : Bytes
  cipher : Bytes
  tag : Bytes
  deriving DecidableEq

structure ShadowsocksAeadSession where
  masterKey : Key
  sendKey : Key
  recvKey : Key
  sendNonce : Nonce
  recvNonce : Nonce
  haveRecvKey : Bool
  sentSalt : Bool
  sendOps : List AeadOp
  recvOps : List AeadOp
  deriving DecidableEq

/-- `fill(std::byte{0})`. -/
def zeroBlock (n : Nat) : Block n := ⟨List.replicate n 0, List.length_replicate⟩

def zeroKey : Key := zeroBlock KeySize

def zeroNonce : Nonce := zeroBlock NonceSize

/-- The constructor: a master key, everything else value-initialised. -/
def ShadowsocksAeadSession.new (masterKey : Key) : ShadowsocksAeadSession :=
  ⟨masterKey, zeroKey, zeroKey, zeroNonce, zeroNonce, false, false, [], []⟩

/-! ## Integers on the wire -/

/-- `read_be16`: `(bytes[0] << 8) | bytes[1]`. -/
def readBe16 : Bytes → Nat
  | hi :: lo :: _ => hi.toNat <<< 8 ||| lo.toNat
  | _ => 0

/-- The two bytes `value >> 8`, `value & 0xff`. -/
def be16 (value : Nat) : Bytes := [UInt8.ofNat (value >>> 8), UInt8.ofNat (value &&& 0xff)]

@[simp] theorem be16_length (value : Nat) : (be16 value).length = 2 := rfl

theorem shiftLeft_or_byte (a b : Nat) (hb : b < 256) : a <<< 8 ||| b = 256 * a + b := by
  rw [← Nat.shiftLeft_add_eq_or_of_lt (show b < 2 ^ 8 from hb), Nat.shiftLeft_eq]
  omega

/-- `read_be16` undoes the split of a 16-bit value. -/
theorem readBe16_be16 {value : Nat} (h : value < 65536) : readBe16 (be16 value) = value := by
  have hand : value &&& 0xff = value % 256 := Nat.and_two_pow_sub_one_eq_mod value 8
  have hshr : value >>> 8 = value / 256 := Nat.shiftRight_eq_div_pow value 8
  rw [be16, readBe16, UInt8.toNat_ofNat', UInt8.toNat_ofNat', hand, hshr,
    shiftLeft_or_byte _ _ (Nat.mod_lt _ (by decide))]
  omega

/-- And the split undoes `read_be16`. -/
theorem be16_readBe16 (bytes : Block 2) : be16 (readBe16 bytes.val) = bytes.val := by
  obtain ⟨bytes, hbytes⟩ := bytes
  match bytes with
  | [hi, lo] =>
    have hhi := hi.toNat_lt
    have hlo := lo.toNat_lt
    have hand (n : Nat) : n &&& 0xff = n % 256 := Nat.and_two_pow_sub_one_eq_mod n 8
    rw [be16, readBe16, shiftLeft_or_byte _ _ hlo, Nat.shiftRight_eq_div_pow, hand,
      show (256 * hi.toNat + lo.toNat) / 2 ^ 8 = hi.toNat by omega,
      show (256 * hi.toNat + lo.toNat) % 256 = lo.toNat by omega, UInt8.ofNat_toNat, UInt8.ofNat_toNat]

theorem and_3fff (value : Nat) : value &&& 0x3fff = value % 16384 :=
  Nat.and_two_pow_sub_one_eq_mod value 14

/-! ## Nonces, keys and the two AEAD calls -/

/-- The loop of `increment_nonce`. `next` is an `int`: `static_cast<unsigned char>(b)` is
    promoted before the addition, and only the store back into `b` truncates it. -/
def incrementBytes : Bytes → Bytes
  | [] => []
  | b :: rest =>
    let next := b.toNat + 1
    let stored := UInt8.ofNat next
    if next ≠ 0 then stored :: rest else stored :: incrementBytes rest

@[simp] theorem incrementBytes_length (bs : Bytes) : (incrementBytes bs).length = bs.length := by
  induction bs with
  | nil => rfl
  | cons b rest ih =>
    rw [incrementBytes]
    split <;> simp [ih]

def incrementNonce (nonce : Nonce) : Nonce :=
  ⟨incrementBytes nonce.val, by rw [incrementBytes_length, nonce.property]⟩

/-- `info`, the bytes of `"ss-subkey"`. -/
def subkeyInfo : Bytes := [0x73, 0x73, 0x2d, 0x73, 0x75, 0x62, 0x6b, 0x65, 0x79]

variable (M : Mbedtls)

def deriveSubkey (masterKey : Key) (salt : Bytes) : Option Key :=
  M.hkdf salt masterKey.val subkeyInfo

/-- `crypt`: seal under the nonce, then advance it. `none` is the `throw`. -/
def crypt (key : Key) (nonce : Nonce) (input : Bytes) : Option (Bytes × Bytes × Nonce) :=
  match M.encryptAndTag key nonce input with
  | none => none
  | some (cipher, tag) => some (cipher, tag, incrementNonce nonce)

/-- `decrypt`: open under the nonce, then advance it. `none` is the result `false`. -/
def decrypt (key : Key) (nonce : Nonce) (input tag : Bytes) : Option (Bytes × Nonce) :=
  match M.authDecrypt key nonce input tag with
  | none => none
  | some plain => some (plain, incrementNonce nonce)

/-! ## The members -/

namespace ShadowsocksAeadSession

/-- `client_salt`. `rng` is what `random_bytes` produces, `none` when the CSPRNG fails. -/
def clientSalt (s : ShadowsocksAeadSession) (rng : Option Salt) :
    Except String Bytes × ShadowsocksAeadSession :=
  match rng with
  | none => (.error "mbedTLS CTR_DRBG random failed", s)
  | some salt =>
    match deriveSubkey M s.masterKey salt.val with
    | none => (.error "mbedTLS HKDF failed", s)
    | some key =>
      (.ok salt.val, { s with sendKey := key, sendNonce := zeroNonce, sentSalt := true,
                              sendOps := [] })

def setClientSalt (s : ShadowsocksAeadSession) (salt : Bytes) :
    Except String Unit × ShadowsocksAeadSession :=
  if salt.length ≠ SaltSize then
    (.error "invalid Shadowsocks AEAD salt size", s)
  else
    match deriveSubkey M s.masterKey salt with
    | none => (.error "mbedTLS HKDF failed", s)
    | some key =>
      (.ok (), { s with recvKey := key, recvNonce := zeroNonce, haveRecvKey := true,
                        recvOps := [] })

/-- `crypt(send_key_, send_nonce_, ...)`, the call of both encrypting members. -/
def cryptSend (s : ShadowsocksAeadSession) (input : Bytes) :
    Option (Bytes × Bytes) × ShadowsocksAeadSession :=
  match crypt M s.sendKey s.sendNonce input with
  | none => (none, s)
  | some (cipher, tag, nonce) =>
    (some (cipher, tag),
      { s with sendNonce := nonce, sendOps := s.sendOps ++ [⟨s.sendNonce, input, cipher, tag⟩] })

def encryptTcpChunk (s : ShadowsocksAeadSession) (plain : Bytes) :
    Except String Bytes × ShadowsocksAeadSession :=
  if !s.sentSalt then
    (.error "send salt not initialized", s)
  else if plain.length > 0x3fff then
    (.error "Shadowsocks AEAD TCP chunk too large", s)
  else
    match s.cryptSend M (be16 plain.length) with
    | (none, s) => (.error "mbedTLS chachapoly encrypt failed", s)
    | (some (lenCipher, lenTag), s) =>
      match s.cryptSend M plain with
      | (none, s) => (.error "mbedTLS chachapoly encrypt failed", s)
      | (some (payloadCipher, payloadTag), s) =>
        (.ok (lenCipher ++ lenTag ++ payloadCipher ++ payloadTag), s)

/-- `decrypt_tcp_chunk`. `recv_nonce_` and the caller's view are written only on the last
    path, after both records have been opened under `trial_nonce`. -/
def decryptTcpChunk (s : ShadowsocksAeadSession) (stream : Bytes) :
    Except String (Option Bytes) × ShadowsocksAeadSession × Bytes :=
  if !s.haveRecvKey || decide (stream.length < 2 + TagSize) then
    (.ok none, s, stream)
  else
    match decrypt M s.recvKey s.recvNonce (stream.take 2) ((stream.drop 2).take TagSize) with
    | none => (.error "invalid Shadowsocks AEAD TCP length tag", s, stream)
    | some (lenPlain, trialNonce) =>
      let payloadLen := readBe16 lenPlain &&& 0x3fff
      let need := 2 + TagSize + payloadLen + TagSize
      if stream.length < need then
        (.ok none, s, stream)
      else
        let payload := (stream.drop (2 + TagSize)).take payloadLen
        let payloadTag := (stream.drop (2 + TagSize + payloadLen)).take TagSize
        match decrypt M s.recvKey trialNonce payload payloadTag with
        | none => (.error "invalid Shadowsocks AEAD TCP payload tag", s, stream)
        | some (plain, nextNonce) =>
          (.ok (some plain),
            { s with recvNonce := nextNonce,
                     recvOps := s.recvOps ++
                       [⟨s.recvNonce, lenPlain, stream.take 2, (stream.drop 2).take TagSize⟩,
                        ⟨trialNonce, plain, payload, payloadTag⟩] },
            stream.drop need)

/-- `encrypt_udp_packet`: every packet draws its own salt, and with it the send key. -/
def encryptUdpPacket (s : ShadowsocksAeadSession) (rng : Option Salt) (plain : Bytes) :
    Except String Bytes × ShadowsocksAeadSession :=
  match s.clientSalt M rng with
  | (.error e, s) => (.error e, s)
  | (.ok salt, s) =>
    match s.cryptSend M plain with
    | (none, s) => (.error "mbedTLS chachapoly encrypt failed", s)
    | (some (cipher, tag), s) => (.ok (salt ++ cipher ++ tag), s)

/-- `decrypt_udp_packet`: a local key and a zero nonce, so the session stays as it is. -/
def decryptUdpPacket (s : ShadowsocksAeadSession) (encrypted : Bytes) :
    Except String (Option Bytes) :=
  if encrypted.length < SaltSize + TagSize then
    .ok none
  else
    match deriveSubkey M s.masterKey (encrypted.take SaltSize) with
    | none => .error "mbedTLS HKDF failed"
    | some key =>
      let bodyLen := encrypted.length - SaltSize - TagSize
      let body := (encrypted.drop SaltSize).take bodyLen
      let tag := (encrypted.drop (SaltSize + bodyLen)).take TagSize
      match decrypt M key zeroNonce body tag with
      | none => .ok none
      | some (plain, _) => .ok (some plain)

end ShadowsocksAeadSession

/-! ## The factory -/

/-- The loop of `evp_bytes_to_key`: hash the previous digest and the password until the key
    is full. The first round hashes the password alone. -/
def evpLoop (password : Bytes) : Nat → Bytes → Bytes → Bytes
  | 0, _, key => key
  | rounds + 1, digest, key =>
    if key.length < KeySize then
      let digest := (M.md5 ((if key.length ≠ 0 then digest else []) ++ password)).val
      evpLoop password rounds digest (key ++ digest.take (min digest.length (KeySize - key.length)))
    else key

theorem evpLoop_length (password : Bytes) :
    ∀ (rounds : Nat) (digest key : Bytes), key.length ≤ KeySize →
      KeySize - key.length ≤ 16 * rounds → (evpLoop M password rounds digest key).length = KeySize
  | 0, _, key, h, hr => by
    rw [evpLoop]
    omega
  | rounds + 1, digest, key, h, hr => by
    rw [evpLoop]
    split
    · have hd : (M.md5 ((if key.length ≠ 0 then digest else []) ++ password)).val.length = 16 :=
        (M.md5 _).property
      apply evpLoop_length password rounds <;> rw [List.length_append, List.length_take, hd] <;> omega
    · omega

/-- `evp_bytes_to_key`: two MD5 digests fill the 32 bytes. -/
def evpBytesToKey (password : Bytes) : Key :=
  ⟨evpLoop M password KeySize [] [], evpLoop_length M password KeySize [] [] (by decide) (by decide)⟩

structure ShadowsocksAeadFactory where
  masterKey : Key

/-- The constructor from a password. -/
def ShadowsocksAeadFactory.new (password : Bytes) : ShadowsocksAeadFactory :=
  ⟨evpBytesToKey M password⟩

def ShadowsocksAeadFactory.makeSession (f : ShadowsocksAeadFactory) : ShadowsocksAeadSession :=
  ShadowsocksAeadSession.new f.masterKey

end Aead

end Ovpn2ss
