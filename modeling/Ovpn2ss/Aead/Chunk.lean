/-
  One TCP chunk at a time: what `encrypt_tcp_chunk` and `decrypt_tcp_chunk` do, said once.

  A chunk on the wire is four fields: the sealed length, its tag, the sealed payload, its
  tag. `encryptTcpChunk_ok` and `encryptTcpChunk_of_seal` give the encrypting side,
  `decryptTcpChunk_item_iff` the accepting path of the decrypting side and
  `decryptTcpChunk_keeps` all its other paths, on which neither the session nor the view
  changes. Nothing after this module unfolds either function.
-/
import Ovpn2ss.Aead.Basic
import Ovpn2ss.Lib.Drain

namespace Ovpn2ss.Aead

open Ovpn2ss.Lib

variable (M : Mbedtls)

/-- mbedTLS seals every input it is given. -/
def Mbedtls.Seals (M : Mbedtls) : Prop := ∀ k n p, ∃ c t, M.encryptAndTag k n p = some (c, t)

/-- `auth_decrypt` inverts `encrypt_and_tag` under equal key and nonce. -/
def Mbedtls.Inverts (M : Mbedtls) : Prop :=
  ∀ k n p c t, M.encryptAndTag k n p = some (c, t) → M.authDecrypt k n c t = some p

/-- The tag of `standIn`: the nonce and four bytes of the key. -/
def standInTag (k : Key) (n : Nonce) : Bytes := n.val ++ k.val.take 4

theorem standInTag_length (k : Key) (n : Nonce) : (standInTag k n).length = TagSize := by
  have hk : k.val.length = KeySize := k.property
  have hn : n.val.length = NonceSize := n.property
  rw [standInTag, List.length_append, List.length_take, hk, hn]
  rfl

/-- A stand-in for mbedTLS, to run the model on concrete input: the salt is the subkey, the
    ciphertext is the plaintext, and the tag names the key and the nonce. -/
def standIn : Mbedtls where
  hkdf salt _ _ := some (if h : salt.length = KeySize then ⟨salt, h⟩ else zeroKey)
  encryptAndTag k n p := some (p, standInTag k n)
  authDecrypt k n c t := if t = standInTag k n then some c else none
  md5 _ := zeroBlock 16
  encrypt_size := by
    intro k n p c t h
    obtain ⟨rfl, rfl⟩ := Prod.mk.inj (Option.some.inj h)
    exact ⟨rfl, standInTag_length k n⟩
  decrypt_size := by
    intro k n c t p h
    split at h
    · rw [← Option.some.inj h]
    · cases h

theorem standIn_seals : standIn.Seals := fun k n p => ⟨p, standInTag k n, rfl⟩

theorem standIn_inverts : standIn.Inverts := by
  intro k n p c t h
  obtain ⟨rfl, rfl⟩ := Prod.mk.inj (Option.some.inj h)
  exact if_pos rfl

namespace ShadowsocksAeadSession

variable {M} {s s' : ShadowsocksAeadSession} {plain out stream rest : Bytes}

/-- The session after one more operation under the send key. -/
def sealOp (s : ShadowsocksAeadSession) (input cipher tag : Bytes) : ShadowsocksAeadSession :=
  { s with sendNonce := incrementNonce s.sendNonce,
           sendOps := s.sendOps ++ [⟨s.sendNonce, input, cipher, tag⟩] }

/-- The session after the two operations of an accepted chunk. -/
def openOps (s : ShadowsocksAeadSession) (lenPlain lenCipher lenTag plain cipher tag : Bytes) :
    ShadowsocksAeadSession :=
  { s with recvNonce := incrementNonce (incrementNonce s.recvNonce),
           recvOps := s.recvOps ++ [⟨s.recvNonce, lenPlain, lenCipher, lenTag⟩,
             ⟨incrementNonce s.recvNonce, plain, cipher, tag⟩] }

/-- `c'` differs from `c` by what receiving changes. -/
def OnlyReceived (c c' : ShadowsocksAeadSession) : Prop :=
  c' = { c with recvNonce := c'.recvNonce, recvOps := c'.recvOps }

theorem OnlyReceived.trans {c c' c'' : ShadowsocksAeadSession} (h : OnlyReceived c c')
    (h' : OnlyReceived c' c'') : OnlyReceived c c'' := by
  rw [OnlyReceived] at h h' ⊢
  rw [h'.trans (by rw [h])]

/-- `c` and `c'` agree in what receiving reads. -/
structure SameRecv (c c' : ShadowsocksAeadSession) : Prop where
  masterKey : c'.masterKey = c.masterKey
  haveRecvKey : c'.haveRecvKey = c.haveRecvKey
  recvKey : c'.recvKey = c.recvKey
  recvNonce : c'.recvNonce = c.recvNonce

theorem SameRecv.trans {c c' c'' : ShadowsocksAeadSession} (h : SameRecv c c')
    (h' : SameRecv c' c'') : SameRecv c c'' :=
  ⟨h'.masterKey.trans h.masterKey, h'.haveRecvKey.trans h.haveRecvKey, h'.recvKey.trans h.recvKey,
    h'.recvNonce.trans h.recvNonce⟩

/-- `c` and `c'` agree in what sending reads. -/
structure SameSend (c c' : ShadowsocksAeadSession) : Prop where
  masterKey : c'.masterKey = c.masterKey
  sendKey : c'.sendKey = c.sendKey
  sendNonce : c'.sendNonce = c.sendNonce
  sentSalt : c'.sentSalt = c.sentSalt

theorem SameSend.trans {c c' c'' : ShadowsocksAeadSession} (h : SameSend c c')
    (h' : SameSend c' c'') : SameSend c c'' :=
  ⟨h'.masterKey.trans h.masterKey, h'.sendKey.trans h.sendKey, h'.sendNonce.trans h.sendNonce,
    h'.sentSalt.trans h.sentSalt⟩

theorem cryptSend_eq (s : ShadowsocksAeadSession) (input : Bytes) :
    s.cryptSend M input =
      match M.encryptAndTag s.sendKey s.sendNonce input with
      | none => (none, s)
      | some (c, t) => (some (c, t), s.sealOp input c t) := by
  unfold cryptSend crypt
  cases M.encryptAndTag s.sendKey s.sendNonce input with
  | none => rfl
  | some ct => rfl

theorem cryptSend_of_seal {input c t : Bytes}
    (h : M.encryptAndTag s.sendKey s.sendNonce input = some (c, t)) :
    s.cryptSend M input = (some (c, t), s.sealOp input c t) := by
  rw [cryptSend_eq, h]

/-! ## Encrypting -/

/-- The encrypting side, forwards: both operations succeed and the chunk goes out. -/
theorem encryptTcpChunk_of_seal {lc lt pc pt : Bytes} (hs : s.sentSalt = true)
    (hlen : plain.length ≤ 0x3fff)
    (h1 : M.encryptAndTag s.sendKey s.sendNonce (be16 plain.length) = some (lc, lt))
    (h2 : M.encryptAndTag s.sendKey (incrementNonce s.sendNonce) plain = some (pc, pt)) :
    s.encryptTcpChunk M plain =
      (.ok (lc ++ lt ++ pc ++ pt), (s.sealOp (be16 plain.length) lc lt).sealOp plain pc pt) := by
  unfold encryptTcpChunk
  rw [hs, if_neg (by decide), if_neg (by omega), cryptSend_of_seal h1]
  dsimp only
  rw [cryptSend_of_seal (s := s.sealOp (be16 plain.length) lc lt) (by exact h2)]

/-- The encrypting side, backwards: a chunk that went out was sealed in two operations. -/
theorem encryptTcpChunk_ok (h : s.encryptTcpChunk M plain = (.ok out, s')) :
    s.sentSalt = true ∧ plain.length ≤ 0x3fff ∧ ∃ lc lt pc pt,
      M.encryptAndTag s.sendKey s.sendNonce (be16 plain.length) = some (lc, lt) ∧
      M.encryptAndTag s.sendKey (incrementNonce s.sendNonce) plain = some (pc, pt) ∧
      out = lc ++ lt ++ pc ++ pt ∧
      s' = (s.sealOp (be16 plain.length) lc lt).sealOp plain pc pt := by
  cases hs : s.sentSalt with
  | false => simp [encryptTcpChunk, hs] at h
  | true =>
    by_cases hlen : plain.length ≤ 0x3fff
    · refine ⟨rfl, hlen, ?_⟩
      have hgt : ¬ 0x3fff < plain.length := by omega
      rcases h1 : M.encryptAndTag s.sendKey s.sendNonce (be16 plain.length) with _ | ⟨lc, lt⟩
      · simp [encryptTcpChunk, hs, hgt, cryptSend_eq, h1] at h
      · rcases h2 : M.encryptAndTag s.sendKey (incrementNonce s.sendNonce) plain with _ | ⟨pc, pt⟩
        · simp [encryptTcpChunk, hs, hgt, cryptSend_eq, h1, sealOp, h2] at h
        · rw [encryptTcpChunk_of_seal hs hlen h1 h2] at h
          simp only [Prod.mk.injEq, Except.ok.injEq] at h
          exact ⟨lc, lt, pc, pt, rfl, rfl, h.1.symm, h.2.symm⟩
    · simp [encryptTcpChunk, hs, Nat.lt_of_not_le hlen] at h

/-- A length record and a payload record, each with its tag. -/
theorem encryptTcpChunk_length (h : s.encryptTcpChunk M plain = (.ok out, s')) :
    out.length = plain.length + 34 := by
  obtain ⟨-, -, lc, lt, pc, pt, h1, h2, rfl, -⟩ := encryptTcpChunk_ok h
  obtain ⟨e1, e2⟩ := M.encrypt_size h1
  obtain ⟨e3, e4⟩ := M.encrypt_size h2
  simp only [List.length_append, e1, e2, e3, e4, be16_length, TagSize]
  omega

/-- What any call of `encrypt_tcp_chunk` can leave behind: nothing, one operation (the second
    one failed) or two. -/
theorem encryptTcpChunk_state (s : ShadowsocksAeadSession) (plain : Bytes) :
    (s.encryptTcpChunk M plain).2 = s ∨
    (∃ lc lt, (s.encryptTcpChunk M plain).2 = s.sealOp (be16 plain.length) lc lt) ∨
    ∃ lc lt pc pt, (s.encryptTcpChunk M plain).2 =
      (s.sealOp (be16 plain.length) lc lt).sealOp plain pc pt := by
  unfold encryptTcpChunk
  by_cases hs : s.sentSalt = true
  · by_cases hlen : plain.length ≤ 0x3fff
    · rw [hs, if_neg (by decide), if_neg (by omega), cryptSend_eq]
      rcases M.encryptAndTag s.sendKey s.sendNonce (be16 plain.length) with _ | ⟨lc, lt⟩
      · exact .inl rfl
      · dsimp only
        rw [cryptSend_eq]
        rcases M.encryptAndTag _ _ plain with _ | ⟨pc, pt⟩
        · exact .inr (.inl ⟨lc, lt, rfl⟩)
        · exact .inr (.inr ⟨lc, lt, pc, pt, rfl⟩)
    · rw [hs, if_neg (by decide), if_pos (by omega)]
      exact .inl rfl
  · rw [Bool.not_eq_true] at hs
    rw [hs, if_pos (by decide)]
    exact .inl rfl

/-- What is encrypted depends on the sending half of the session alone. -/
theorem encryptTcpChunk_sameSend {c c' : ShadowsocksAeadSession} (h : SameSend c c')
    (plain : Bytes) :
    (c'.encryptTcpChunk M plain).1 = (c.encryptTcpChunk M plain).1 ∧
    SameSend (c.encryptTcpChunk M plain).2 (c'.encryptTcpChunk M plain).2 := by
  unfold encryptTcpChunk
  rw [cryptSend_eq, cryptSend_eq, h.sentSalt, h.sendKey, h.sendNonce]
  split
  · exact ⟨rfl, h⟩
  · split
    · exact ⟨rfl, h⟩
    · rcases M.encryptAndTag c.sendKey c.sendNonce (be16 plain.length) with _ | ⟨lc, lt⟩
      · exact ⟨rfl, h⟩
      · have hseal (input a b : Bytes) : SameSend (c.sealOp input a b) (c'.sealOp input a b) :=
          ⟨h.masterKey, h.sendKey, congrArg incrementNonce h.sendNonce, h.sentSalt⟩
        dsimp only
        rw [cryptSend_eq, cryptSend_eq, (hseal _ lc lt).sendKey, (hseal _ lc lt).sendNonce]
        rcases M.encryptAndTag _ _ plain with _ | ⟨pc, pt⟩
        · exact ⟨rfl, hseal _ lc lt⟩
        · have h2 := hseal (be16 plain.length) lc lt
          exact ⟨rfl, ⟨h2.masterKey, h2.sendKey, congrArg incrementNonce h2.sendNonce, h2.sentSalt⟩⟩

theorem clientSalt_sameSend {c c' : ShadowsocksAeadSession} (h : SameSend c c') (rng : Option Salt) :
    (c'.clientSalt M rng).1 = (c.clientSalt M rng).1 ∧
    SameSend (c.clientSalt M rng).2 (c'.clientSalt M rng).2 := by
  unfold clientSalt
  rw [h.masterKey]
  split
  · exact ⟨rfl, h⟩
  · split
    · exact ⟨rfl, h⟩
    · exact ⟨rfl, ⟨rfl, rfl, rfl, rfl⟩⟩

/-- A salt is drawn and the session keyed by it, or `client_salt` fails and changes nothing. -/
theorem clientSalt_cases (s : ShadowsocksAeadSession) (rng : Option Salt) :
    (∃ e, s.clientSalt M rng = (.error e, s)) ∨
    ∃ salt : Salt, ∃ key, rng = some salt ∧ deriveSubkey M s.masterKey salt.val = some key ∧
      s.clientSalt M rng = (.ok salt.val, { s with sendKey := key, sendNonce := zeroNonce,
                                                   sentSalt := true, sendOps := [] }) := by
  unfold clientSalt
  cases rng with
  | none => exact .inl ⟨_, rfl⟩
  | some salt =>
    dsimp only
    cases h : deriveSubkey M s.masterKey salt.val with
    | none => exact .inl ⟨_, rfl⟩
    | some key => exact .inr ⟨salt, key, rfl, h, rfl⟩

/-! ## Decrypting -/

/-- The decrypting side, forwards: four fields that open give their payload. -/
theorem decryptTcpChunk_of_open {lc lt lenPlain pc pt : Bytes} (hr : s.haveRecvKey = true)
    (hlc : lc.length = 2) (hlt : lt.length = TagSize) (hpt : pt.length = TagSize)
    (h1 : M.authDecrypt s.recvKey s.recvNonce lc lt = some lenPlain)
    (hpc : pc.length = readBe16 lenPlain &&& 0x3fff)
    (h2 : M.authDecrypt s.recvKey (incrementNonce s.recvNonce) pc pt = some plain) :
    s.decryptTcpChunk M (lc ++ lt ++ pc ++ pt ++ rest) =
      (.ok (some plain), s.openOps lenPlain lc lt plain pc pt, rest) := by
  have e1 : (lc ++ lt ++ pc ++ pt ++ rest).take 2 = lc := by
    simp [List.append_assoc, ← hlc]
  have e2 : ((lc ++ lt ++ pc ++ pt ++ rest).drop 2).take TagSize = lt := by
    simp [List.append_assoc, ← hlc, ← hlt]
  have e3 : ((lc ++ lt ++ pc ++ pt ++ rest).drop (2 + TagSize)).take pc.length = pc := by
    rw [List.append_assoc (lc ++ lt ++ pc), List.append_assoc (lc ++ lt),
      List.drop_left' (by rw [List.length_append, hlc, hlt]), List.take_left]
  have e4 : ((lc ++ lt ++ pc ++ pt ++ rest).drop (2 + TagSize + pc.length)).take TagSize = pt := by
    rw [List.append_assoc (lc ++ lt ++ pc),
      List.drop_left' (by simp only [List.length_append, hlc, hlt]), ← hpt, List.take_left]
  have e5 : (lc ++ lt ++ pc ++ pt ++ rest).drop (2 + TagSize + pc.length + TagSize) = rest :=
    List.drop_left' (by simp only [List.length_append, hlc, hlt, hpt])
  have hsize : (lc ++ lt ++ pc ++ pt ++ rest).length =
      2 + TagSize + pc.length + TagSize + rest.length := by
    simp only [List.length_append, hlc, hlt, hpt]
  unfold decryptTcpChunk decrypt
  rw [if_neg (by rw [hr, hsize]; simp only [Bool.not_true, Bool.false_or, decide_eq_true_eq]; omega),
    e1, e2, h1]
  dsimp only
  rw [← hpc, if_neg (by omega), e3, e4, e5, h2]
  rfl

/-- The accepting path of `decrypt_tcp_chunk`, exactly. -/
theorem decryptTcpChunk_item_iff :
    s.decryptTcpChunk M stream = (.ok (some plain), s', rest) ↔
      s.haveRecvKey = true ∧ ∃ lc lt lenPlain pc pt,
        stream = lc ++ lt ++ pc ++ pt ++ rest ∧
        lc.length = 2 ∧ lt.length = TagSize ∧ pt.length = TagSize ∧
        M.authDecrypt s.recvKey s.recvNonce lc lt = some lenPlain ∧
        pc.length = readBe16 lenPlain &&& 0x3fff ∧
        M.authDecrypt s.recvKey (incrementNonce s.recvNonce) pc pt = some plain ∧
        s' = s.openOps lenPlain lc lt plain pc pt := by
  constructor
  · intro h
    unfold decryptTcpChunk decrypt at h
    split at h
    · simp at h
    · rename_i hguard
      simp only [Bool.or_eq_true, Bool.not_eq_eq_eq_not, Bool.not_true, decide_eq_true_eq, not_or,
        Bool.not_eq_false, Nat.not_lt] at hguard
      rcases h1 : M.authDecrypt s.recvKey s.recvNonce (stream.take 2)
          ((stream.drop 2).take TagSize) with _ | lenPlain
      · simp [h1] at h
      · rw [h1] at h
        dsimp only at h
        split at h
        · simp at h
        · rename_i hneed
          rcases h2 : M.authDecrypt s.recvKey (incrementNonce s.recvNonce)
              ((stream.drop (2 + TagSize)).take (readBe16 lenPlain &&& 0x3fff))
              ((stream.drop (2 + TagSize + (readBe16 lenPlain &&& 0x3fff))).take TagSize)
              with _ | p
          · simp [h2] at h
          · rw [h2] at h
            simp only [Prod.mk.injEq, Except.ok.injEq, Option.some.injEq] at h
            obtain ⟨rfl, rfl, rfl⟩ := h
            refine ⟨hguard.1, _, _, lenPlain, _, _, ?_, ?_, ?_, ?_, h1, ?_, h2, rfl⟩
            · rw [← List.take_add, ← List.take_add, ← List.take_add, List.take_append_drop]
            · rw [List.length_take]; omega
            · rw [List.length_take, List.length_drop]; omega
            · rw [List.length_take, List.length_drop]; omega
            · rw [List.length_take, List.length_drop]; omega
  · rintro ⟨hr, lc, lt, lenPlain, pc, pt, rfl, hlc, hlt, hpt, h1, hpc, h2, rfl⟩
    exact decryptTcpChunk_of_open hr hlc hlt hpt h1 hpc h2

/-- Every call that does not hand out a chunk leaves the session and the view as they were:
    the trial nonce is dropped. -/
theorem decryptTcpChunk_keeps (s : ShadowsocksAeadSession) (stream : Bytes)
    (h : ∀ plain, (s.decryptTcpChunk M stream).1 ≠ .ok (some plain)) :
    (s.decryptTcpChunk M stream).2 = (s, stream) := by
  unfold decryptTcpChunk decrypt at h ⊢
  split
  · rfl
  · rename_i hguard
    rw [if_neg hguard] at h
    cases h1 : M.authDecrypt s.recvKey s.recvNonce (stream.take 2)
        ((stream.drop 2).take TagSize) with
    | none => rfl
    | some lenPlain =>
      rw [h1] at h
      dsimp only at h ⊢
      split
      · rfl
      · rename_i hneed
        rw [if_neg hneed] at h
        cases h2 : M.authDecrypt s.recvKey (incrementNonce s.recvNonce)
            ((stream.drop (2 + TagSize)).take (readBe16 lenPlain &&& 0x3fff))
            ((stream.drop (2 + TagSize + (readBe16 lenPlain &&& 0x3fff))).take TagSize) with
        | none => rfl
        | some p => rw [h2] at h; exact absurd rfl (h p)

/-- A tag that does not verify does not verify in a longer stream either: both records are cut
    out of the bytes that are there. -/
theorem decryptTcpChunk_append_fail {e : String}
    (h : s.decryptTcpChunk M stream = (.error e, s', rest)) (x : Bytes) :
    s.decryptTcpChunk M (stream ++ x) = (.error e, s', rest ++ x) := by
  -- a record within the stream is the same record of the longer stream
  have hcut (a n : Nat) (hle : a + n ≤ stream.length) :
      ((stream ++ x).drop a).take n = (stream.drop a).take n := by
    rw [List.drop_append_of_le_length (by omega),
      List.take_append_of_le_length (by rw [List.length_drop]; omega)]
  unfold decryptTcpChunk at h ⊢
  split at h
  · cases h
  · rename_i hguard
    have hguard' := hguard
    simp only [Bool.or_eq_true, Bool.not_eq_eq_eq_not, Bool.not_true, decide_eq_true_eq, not_or,
      Bool.not_eq_false, Nat.not_lt] at hguard'
    obtain ⟨hr, hlen⟩ := hguard'
    rw [if_neg (by rw [List.length_append, hr]; simp only [Bool.not_true, Bool.false_or,
      decide_eq_true_eq]; omega), List.take_append_of_le_length (by omega), hcut 2 TagSize hlen]
    split at h
    · cases h
      rfl
    · dsimp only at h ⊢
      split at h
      · cases h
      · rename_i hneed
        rw [if_neg (by rw [List.length_append]; omega), hcut _ _ (by omega), hcut _ _ (by omega)]
        split at h
        · cases h
          rfl
        · cases h

/-- `decrypt_tcp_chunk` changes the receive nonce of a session and nothing else. -/
theorem decryptTcpChunk_onlyReceived (s : ShadowsocksAeadSession) (stream : Bytes) :
    OnlyReceived s (s.decryptTcpChunk M stream).2.1 := by
  rcases h : s.decryptTcpChunk M stream with ⟨_ | _ | plain, s', rest⟩
  · have hk := decryptTcpChunk_keeps (M := M) s stream (by simp [h])
    rw [h] at hk
    obtain ⟨rfl, -⟩ := Prod.mk.inj hk
    rfl
  · have hk := decryptTcpChunk_keeps (M := M) s stream (by simp [h])
    rw [h] at hk
    obtain ⟨rfl, -⟩ := Prod.mk.inj hk
    rfl
  · obtain ⟨-, lc, lt, lenPlain, pc, pt, -, -, -, -, -, -, -, rfl⟩ := decryptTcpChunk_item_iff.mp h
    rfl

/-- What is decrypted depends on the receiving half of the session alone. -/
theorem decryptTcpChunk_sameRecv {c c' : ShadowsocksAeadSession} (h : SameRecv c c')
    (stream : Bytes) :
    (c'.decryptTcpChunk M stream).1 = (c.decryptTcpChunk M stream).1 ∧
    SameRecv (c.decryptTcpChunk M stream).2.1 (c'.decryptTcpChunk M stream).2.1 ∧
    (c'.decryptTcpChunk M stream).2.2 = (c.decryptTcpChunk M stream).2.2 := by
  unfold decryptTcpChunk
  rw [h.haveRecvKey, h.recvKey, h.recvNonce]
  split
  · exact ⟨rfl, h, rfl⟩
  · split
    · exact ⟨rfl, h, rfl⟩
    · dsimp only
      split
      · exact ⟨rfl, h, rfl⟩
      · split
        · exact ⟨rfl, h, rfl⟩
        · exact ⟨rfl, ⟨h.masterKey, rfl, rfl, rfl⟩, rfl⟩

/-- A chunk takes at least its 34 bytes of framing from the view. -/
theorem decryptTcpChunk_length (h : s.decryptTcpChunk M stream = (.ok (some plain), s', rest)) :
    stream.length = 34 + plain.length + rest.length := by
  obtain ⟨-, lc, lt, lenPlain, pc, pt, rfl, hlc, hlt, hpt, -, -, h2, -⟩ :=
    decryptTcpChunk_item_iff.mp h
  have hp := M.decrypt_size h2
  simp only [List.length_append, hlc, hlt, hpt, TagSize]
  omega

/-- A view in which no chunk is complete is shorter than the longest chunk. -/
theorem decryptTcpChunk_stop_length (hr : s.haveRecvKey = true)
    (h : s.decryptTcpChunk M stream = (.ok none, s', rest)) : stream.length ≤ 34 + 0x3ffe := by
  unfold decryptTcpChunk at h
  split at h
  · rename_i hguard
    rw [hr] at hguard
    have := of_decide_eq_true hguard
    rw [TagSize] at this
    omega
  · split at h
    · cases h
    · rename_i lenPlain _ _
      dsimp only at h
      split at h
      · rename_i hneed
        rw [and_3fff, TagSize] at hneed
        omega
      · split at h <;> cases h

theorem decryptTcpChunk_consumes : Consumes (decryptTcpChunk M) := by
  intro s v plain s' v' h
  have := decryptTcpChunk_length h
  omega

/-- Bytes that have not arrived yet change nothing about those that have. -/
theorem decryptTcpChunk_stable : Stable (decryptTcpChunk M) where
  fail _ _ _ _ _ x h := decryptTcpChunk_append_fail h x
  stop s v s' v' h := by
    have hk := decryptTcpChunk_keeps (M := M) s v (by simp [h])
    rw [h] at hk
    exact Prod.mk.inj hk
  item s v plain s' v' x h := by
    obtain ⟨hr, lc, lt, lenPlain, pc, pt, rfl, hrest⟩ := decryptTcpChunk_item_iff.mp h
    exact decryptTcpChunk_item_iff.mpr
      ⟨hr, lc, lt, lenPlain, pc, pt, List.append_assoc _ v' x, hrest⟩

/-- A payload handed out has at most `0x3fff` bytes, whatever the peer sealed. -/
theorem decryptTcpChunk_plain_le (h : s.decryptTcpChunk M stream = (.ok (some plain), s', rest)) :
    plain.length ≤ 0x3fff := by
  obtain ⟨-, lc, lt, lenPlain, pc, pt, -, -, -, -, -, hpc, h2, -⟩ :=
    decryptTcpChunk_item_iff.mp h
  have hp := M.decrypt_size h2
  rw [and_3fff] at hpc
  omega

end ShadowsocksAeadSession

end Ovpn2ss.Aead
