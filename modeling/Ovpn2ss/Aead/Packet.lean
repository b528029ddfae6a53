/-
  UDP packets (`encrypt_udp_packet` and `decrypt_udp_packet` in `src/ShadowsocksAead.cpp`).

  Every packet carries its salt and is sealed under the subkey of that salt and the zero nonce, so
  sealing and opening need nothing in common but the master key (`decryptUdpPacket_encrypt`).
-/
import Ovpn2ss.Aead.Chunk

namespace Ovpn2ss.Aead

/-- `mbedtls_hkdf` succeeds. -/
def Mbedtls.Derives (M : Mbedtls) : Prop := ∀ salt key info, ∃ k, M.hkdf salt key info = some k

namespace ShadowsocksAeadSession

variable {M : Mbedtls} {snd rcv : ShadowsocksAeadSession}

/-- `encrypt_udp_packet` returns the salt and the plaintext sealed under its subkey and the zero
    nonce. -/
theorem encryptUdpPacket_ok {rng : Option Salt} {plain packet : Bytes}
    (h : (snd.encryptUdpPacket M rng plain).1 = .ok packet) :
    ∃ (salt : Salt) (key : Key) (cipher tag : Bytes),
      deriveSubkey M snd.masterKey salt.val = some key ∧
      M.encryptAndTag key zeroNonce plain = some (cipher, tag) ∧
      packet = salt.val ++ cipher ++ tag := by
  unfold encryptUdpPacket clientSalt at h
  cases rng with
  | none => cases h
  | some salt =>
    dsimp only at h
    cases hk : deriveSubkey M snd.masterKey salt.val with
    | none =>
      rw [hk] at h
      cases h
    | some key =>
      rw [hk] at h
      simp only [cryptSend, crypt] at h
      rcases hc : M.encryptAndTag key zeroNonce plain with _ | ⟨cipher, tag⟩ <;> rw [hc] at h
      · cases h
      · exact ⟨salt, key, cipher, tag, hk, hc, (Except.ok.inj h).symm⟩

theorem encryptUdpPacket_total (hS : M.Seals) (hK : M.Derives) (snd : ShadowsocksAeadSession)
    (salt : Salt) (plain : Bytes) :
    ∃ packet, (snd.encryptUdpPacket M (some salt) plain).1 = .ok packet := by
  obtain ⟨key, hk⟩ := hK salt.val snd.masterKey.val subkeyInfo
  obtain ⟨cipher, tag, hc⟩ := hS key zeroNonce plain
  refine ⟨salt.val ++ cipher ++ tag, ?_⟩
  simp only [encryptUdpPacket, clientSalt, deriveSubkey, hk, cryptSend, crypt, hc]

/-- A packet sealed under a master key is opened under the same master key. -/
theorem decryptUdpPacket_encrypt (hI : M.Inverts) (hkey : rcv.masterKey = snd.masterKey)
    {rng : Option Salt} {plain packet : Bytes}
    (h : (snd.encryptUdpPacket M rng plain).1 = .ok packet) :
    rcv.decryptUdpPacket M packet = .ok (some plain) ∧
      packet.length = SaltSize + plain.length + TagSize := by
  obtain ⟨salt, key, cipher, tag, hk, hc, rfl⟩ := encryptUdpPacket_ok h
  obtain ⟨hcipher, htag⟩ := M.encrypt_size hc
  have hsalt := salt.property
  have hlen : (salt.val ++ cipher ++ tag).length = SaltSize + cipher.length + TagSize := by
    rw [List.length_append, List.length_append, hsalt, htag]
  have hbody : SaltSize + cipher.length + TagSize - SaltSize - TagSize = cipher.length := by omega
  refine ⟨?_, by rw [hlen, hcipher]⟩
  rw [decryptUdpPacket, hlen, if_neg (by omega), hkey, List.append_assoc, List.take_left' hsalt, hk]
  dsimp only
  rw [hbody, List.drop_left' hsalt, List.take_left' rfl, ← List.drop_drop, List.drop_left' hsalt,
    List.drop_left' rfl, List.take_of_length_le htag.le, decrypt, hI key zeroNonce plain cipher tag hc]

end ShadowsocksAeadSession

end Ovpn2ss.Aead
