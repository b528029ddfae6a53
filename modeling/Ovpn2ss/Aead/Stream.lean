/-
  A whole TCP stream between two sessions.

  `encryptStream` seals a list of chunks in order, `drainAll (decryptTcpChunk M)` is the loop
  that calls `decrypt_tcp_chunk` until it hands out nothing. A sender and a receiver that
  share key and nonce stay in step chunk by chunk (`decrypt_encrypt`), also across the wrap of
  the one-byte counter, since both sides wrap alike; `stream_roundtrip` follows by induction
  on the chunks.
-/
import Ovpn2ss.Aead.Nonce

namespace Ovpn2ss.Aead.ShadowsocksAeadSession

open Ovpn2ss.Lib

variable {M : Mbedtls} {s s' snd snd' rcv : ShadowsocksAeadSession}

/-- `encrypt_tcp_chunk` on each chunk, the output appended; `none` if one of the calls throws. -/
def encryptStream (M : Mbedtls) :
    ShadowsocksAeadSession → List Bytes → Option (Bytes × ShadowsocksAeadSession)
  | s, [] => some ([], s)
  | s, plain :: plains =>
    match s.encryptTcpChunk M plain with
    | (.error _, _) => none
    | (.ok out, s') =>
      match encryptStream M s' plains with
      | none => none
      | some (stream, s'') => some (out ++ stream, s'')

theorem encryptStream_cons {plain : Bytes} {plains : List Bytes} {stream : Bytes}
    (h : encryptStream M s (plain :: plains) = some (stream, s')) :
    ∃ out s1 tail, s.encryptTcpChunk M plain = (.ok out, s1) ∧
      encryptStream M s1 plains = some (tail, s') ∧ stream = out ++ tail := by
  rw [encryptStream] at h
  split at h
  · cases h
  · rename_i out s1 h1
    split at h
    · cases h
    · rename_i tail s2 h2
      obtain ⟨e1, e2⟩ := Prod.mk.inj (Option.some.inj h)
      subst e2
      exact ⟨out, s1, tail, h1, h2, e1.symm⟩

/-- With a working AEAD every list of chunks of legal size can be sealed. -/
theorem encryptStream_total (hS : M.Seals) (hs : s.sentSalt = true) (plains : List Bytes)
    (hlen : ∀ plain ∈ plains, plain.length ≤ 0x3fff) :
    ∃ stream s', encryptStream M s plains = some (stream, s') := by
  induction plains generalizing s with
  | nil => exact ⟨[], s, rfl⟩
  | cons plain plains ih =>
    obtain ⟨lc, lt, h1⟩ := hS s.sendKey s.sendNonce (be16 plain.length)
    obtain ⟨pc, pt, h2⟩ := hS s.sendKey (incrementNonce s.sendNonce) plain
    have hp := hlen plain List.mem_cons_self
    obtain ⟨tail, s2, ht⟩ := ih (s := (s.sealOp (be16 plain.length) lc lt).sealOp plain pc pt) hs
      (fun q hq => hlen q (List.mem_cons_of_mem _ hq))
    refine ⟨lc ++ lt ++ pc ++ pt ++ tail, s2, ?_⟩
    rw [encryptStream, encryptTcpChunk_of_seal hs hp h1 h2]
    dsimp only
    rw [ht]

/-! ## Sender and receiver in step -/

/-- The receiver opens under the sender's key and next nonce. -/
structure InStep (snd rcv : ShadowsocksAeadSession) : Prop where
  ready : rcv.haveRecvKey = true
  key : rcv.recvKey = snd.sendKey
  nonce : rcv.recvNonce = snd.sendNonce

/-- After `client_salt` on one side and `set_client_salt` with that salt on the other, under
    one master key, the two are in step. -/
theorem inStep_of_salt {s r : ShadowsocksAeadSession} (hkey : r.masterKey = s.masterKey)
    {rng : Option Salt} {salt : Bytes} (hsalt : s.clientSalt M rng = (.ok salt, snd)) :
    ∃ rcv, r.setClientSalt M salt = (.ok (), rcv) ∧ InStep snd rcv := by
  obtain ⟨key, hk, hlen, rfl⟩ := clientSalt_ok hsalt
  refine ⟨{ r with recvKey := key, recvNonce := zeroNonce, haveRecvKey := true, recvOps := [] },
    ?_, rfl, rfl, rfl⟩
  unfold setClientSalt
  rw [if_neg (by omega), hkey, hk]

/-- One chunk: what the sender seals the receiver opens, and they stay in step. -/
theorem decrypt_encrypt (hI : M.Inverts) (h : InStep snd rcv) {plain out : Bytes} (rest : Bytes)
    (henc : snd.encryptTcpChunk M plain = (.ok out, snd')) :
    ∃ rcv', rcv.decryptTcpChunk M (out ++ rest) = (.ok (some plain), rcv', rest) ∧
      InStep snd' rcv' := by
  obtain ⟨-, hlen, lc, lt, pc, pt, h1, h2, rfl, rfl⟩ := encryptTcpChunk_ok henc
  obtain ⟨hlc, hlt⟩ := M.encrypt_size h1
  obtain ⟨hpc, hpt⟩ := M.encrypt_size h2
  have hpl : pc.length = readBe16 (be16 plain.length) &&& 0x3fff := by
    rw [readBe16_be16 (by omega), and_3fff, hpc]
    omega
  have o1 : M.authDecrypt rcv.recvKey rcv.recvNonce lc lt = some (be16 plain.length) := by
    rw [h.key, h.nonce]
    exact hI _ _ _ _ _ h1
  have o2 : M.authDecrypt rcv.recvKey (incrementNonce rcv.recvNonce) pc pt = some plain := by
    rw [h.key, h.nonce]
    exact hI _ _ _ _ _ h2
  refine ⟨_, decryptTcpChunk_of_open h.ready hlc hlt hpt o1 hpl o2, h.ready, h.key, ?_⟩
  show incrementNonce (incrementNonce rcv.recvNonce) = incrementNonce (incrementNonce snd.sendNonce)
  rw [h.nonce]

/-- A receiver that holds no bytes waits. -/
theorem decryptTcpChunk_nil (s : ShadowsocksAeadSession) :
    s.decryptTcpChunk M [] = (.ok none, s, []) := by
  unfold decryptTcpChunk
  rw [if_pos (by simp [TagSize])]

/-- The loop over a sealed stream hands out the chunks, uses the stream up and ends in step. -/
theorem drain_encryptStream (hI : M.Inverts) (plains : List Bytes) {stream : Bytes}
    (h : InStep snd rcv) (henc : encryptStream M snd plains = some (stream, snd')) :
    (drainAll (decryptTcpChunk M) rcv stream).items = plains ∧
    (drainAll (decryptTcpChunk M) rcv stream).rest = [] ∧
    (drainAll (decryptTcpChunk M) rcv stream).error = none ∧
    InStep snd' (drainAll (decryptTcpChunk M) rcv stream).state := by
  induction plains generalizing snd rcv stream with
  | nil =>
    obtain ⟨rfl, rfl⟩ := Prod.mk.inj (Option.some.inj henc)
    rw [drainAll_stop (decryptTcpChunk_nil rcv)]
    exact ⟨rfl, rfl, rfl, h⟩
  | cons plain plains ih =>
    obtain ⟨out, s1, tail, h1, h2, rfl⟩ := encryptStream_cons henc
    obtain ⟨rcv', hd, h'⟩ := decrypt_encrypt hI h tail h1
    obtain ⟨i1, i2, i3, i4⟩ := ih h' h2
    rw [drainAll_item decryptTcpChunk_consumes hd]
    exact ⟨by rw [i1], i2, i3, i4⟩

/-! ## The round trip -/

/-- Two sessions of one factory, any salt, any list of chunks of legal size: the sender seals
    them all, and the receiver's loop over the concatenation returns exactly that list, uses
    the stream up without an error, and its nonce ends equal to the sender's. -/
theorem stream_roundtrip (M : Mbedtls) (hS : M.Seals) (hI : M.Inverts)
    (f : ShadowsocksAeadFactory) (s r snd : ShadowsocksAeadSession)
    (hs : s.masterKey = f.masterKey) (hr : r.masterKey = f.masterKey)
    (rng : Option Salt) (salt : Bytes) (hsalt : s.clientSalt M rng = (.ok salt, snd))
    (plains : List Bytes) (hlen : ∀ plain ∈ plains, plain.length ≤ 0x3fff) :
    ∃ stream snd' rcv, encryptStream M snd plains = some (stream, snd') ∧
      r.setClientSalt M salt = (.ok (), rcv) ∧
      (drainAll (decryptTcpChunk M) rcv stream).items = plains ∧
      (drainAll (decryptTcpChunk M) rcv stream).rest = [] ∧
      (drainAll (decryptTcpChunk M) rcv stream).error = none ∧
      (drainAll (decryptTcpChunk M) rcv stream).state.recvNonce = snd'.sendNonce := by
  obtain ⟨rcv, hset, hstep⟩ := inStep_of_salt (hr.trans hs.symm) hsalt
  have hsent : snd.sentSalt = true := by
    obtain ⟨key, -, -, rfl⟩ := clientSalt_ok hsalt
    rfl
  obtain ⟨stream, snd', henc⟩ := encryptStream_total hS hsent plains hlen
  obtain ⟨i1, i2, i3, i4⟩ := drain_encryptStream hI plains hstep henc
  exact ⟨stream, snd', rcv, henc, hset, i1, i2, i3, i4.nonce⟩

/-- The round trip of `standIn` on an empty chunk, a short one and one of the largest size. -/
theorem stream_roundtrip_demo :
    ∃ stream snd' rcv,
      encryptStream standIn demoSender [[], [7], List.replicate 0x3fff 1] = some (stream, snd') ∧
      (ShadowsocksAeadSession.new zeroKey).setClientSalt standIn (zeroBlock SaltSize).val =
        (.ok (), rcv) ∧
      (drainAll (decryptTcpChunk standIn) rcv stream).items = [[], [7], List.replicate 0x3fff 1] ∧
      (drainAll (decryptTcpChunk standIn) rcv stream).rest = [] ∧
      (drainAll (decryptTcpChunk standIn) rcv stream).error = none ∧
      (drainAll (decryptTcpChunk standIn) rcv stream).state.recvNonce = snd'.sendNonce :=
  stream_roundtrip standIn standIn_seals standIn_inverts ⟨zeroKey⟩
    (ShadowsocksAeadSession.new zeroKey) (ShadowsocksAeadSession.new zeroKey) demoSender rfl rfl
    (some (zeroBlock SaltSize)) _ rfl [[], [7], List.replicate 0x3fff 1]
    (List.forall_mem_cons.mpr ⟨by decide, List.forall_mem_cons.mpr ⟨by decide,
      List.forall_mem_singleton.mpr List.length_replicate.le⟩⟩)

end Ovpn2ss.Aead.ShadowsocksAeadSession
