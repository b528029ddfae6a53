/-
  The nonces of a session.

  `increment_nonce` computes `static_cast<unsigned char>(b) + 1` as an `int`, so the value it
  compares with zero is never zero: the loop always stops at the first byte. The nonce after
  `k` operations is therefore `k mod 256` in the first byte and zero in the other eleven
  (`nonceAfter_val`), and it agrees with the 96-bit little-endian encoding of `k` exactly
  below 256 (`nonceAfter_eq_nonceLE_iff`).

  Along any run the `k`-th operation under a send key uses `nonceAfter k`
  (`encryptRun_nonces`), and so does the `k`-th under a receive key (`decryptRun_nonces`).
  Two operations a chunk make 128 chunks the last run on which the sequence is the intended
  one, and the last on which no nonce repeats (`nonces_iff`).
-/
import Ovpn2ss.Aead.Chunk
import Ovpn2ss.Lib.LittleEndian

namespace Ovpn2ss.Aead

open Ovpn2ss.Lib

/-! ## The counter that is meant, and the counter that is there -/

/-- The nonce that is the 96-bit little-endian encoding of `k`. -/
def nonceLE (k : Nat) : Nonce := ⟨toLE NonceSize k, toLE_length NonceSize k⟩

/-- The nonce after `k` increments from zero. -/
def nonceAfter (k : Nat) : Nonce := incrementNonce^[k] zeroNonce

theorem nonceAfter_succ (k : Nat) : nonceAfter (k + 1) = incrementNonce (nonceAfter k) :=
  Function.iterate_succ_apply' incrementNonce k zeroNonce

/-- The loop never reaches the second byte: `next` is at least one. -/
theorem incrementBytes_cons (b : UInt8) (rest : Bytes) :
    incrementBytes (b :: rest) = UInt8.ofNat (b.toNat + 1) :: rest := by
  rw [incrementBytes]
  exact if_pos (Nat.succ_ne_zero _)

theorem nonceAfter_val (k : Nat) :
    (nonceAfter k).val = UInt8.ofNat k :: List.replicate 11 0 := by
  induction k with
  | zero => rfl
  | succ k ih =>
    rw [nonceAfter_succ]
    show incrementBytes (nonceAfter k).val = _
    rw [ih, incrementBytes_cons, List.cons.injEq, ofNat_byte_eq_iff, UInt8.toNat_ofNat']
    exact ⟨by omega, rfl⟩

theorem nonceAfter_eq_iff (a b : Nat) : nonceAfter a = nonceAfter b ↔ a % 256 = b % 256 := by
  rw [← ofNat_byte_eq_iff]
  constructor
  · intro h
    have hv := congrArg Subtype.val h
    rw [nonceAfter_val, nonceAfter_val, List.cons.injEq] at hv
    exact hv.1
  · intro h
    apply Subtype.ext
    rw [nonceAfter_val, nonceAfter_val, h]

/-- Within the 96 bits, the counter is the intended one exactly while it fits one byte. -/
theorem nonceAfter_eq_nonceLE_iff {k : Nat} (hk : k < 256 ^ 12) :
    nonceAfter k = nonceLE k ↔ k < 256 := by
  constructor
  · intro h
    have hv : toLE 12 k = UInt8.ofNat k :: List.replicate 11 0 := by
      rw [← nonceAfter_val, h]
      rfl
    exact lt_of_toLE_eq 11 hk hv
  · intro h
    apply Subtype.ext
    rw [nonceAfter_val]
    exact (toLE_of_lt 11 h).symm

/-! ## What a run of operations is supposed to look like -/

/-- The `k`-th operation uses the little-endian encoding of `k`. -/
def NonceSequence (ops : List AeadOp) : Prop :=
  ops.map AeadOp.nonce = (List.range ops.length).map nonceLE

/-- No two operations use the same nonce. -/
def NoReuse (ops : List AeadOp) : Prop := (ops.map AeadOp.nonce).Nodup

/-- What the code does instead: the `k`-th operation uses `nonceAfter k`. -/
def Counted (ops : List AeadOp) : Prop :=
  ops.map AeadOp.nonce = (List.range ops.length).map nonceAfter

theorem counted_snoc {ops : List AeadOp} (h : Counted ops) (p c t : Bytes) :
    Counted (ops ++ [⟨nonceAfter ops.length, p, c, t⟩]) := by
  unfold Counted at h ⊢
  rw [List.map_append, h, List.length_append, List.length_singleton, List.range_succ,
    List.map_append]
  rfl

theorem counted_get {ops : List AeadOp} (h : Counted ops) (k : Nat) (hk : k < ops.length) :
    ops[k].nonce = nonceAfter k := by
  have := congrArg (fun l => l[k]?) h
  simpa [hk] using this

theorem nonceSequence_iff {ops : List AeadOp} (h : Counted ops) :
    NonceSequence ops ↔ ops.length ≤ 256 := by
  unfold NonceSequence Counted at *
  rw [h]
  constructor
  · intro heq
    by_contra hlen
    have hget := congrArg (fun l => l[256]?) heq
    have hlt : 256 < ops.length := by omega
    simp only [List.getElem?_map, List.getElem?_range hlt, Option.map_some, Option.some.injEq] at hget
    exact absurd ((nonceAfter_eq_nonceLE_iff (by decide)).mp hget) (by decide)
  · intro hlen
    refine List.map_congr_left fun k hk => ?_
    have hk' := List.mem_range.mp hk
    exact (nonceAfter_eq_nonceLE_iff (Nat.lt_of_lt_of_le hk' (hlen.trans (by decide)))).mpr (by omega)

theorem noReuse_iff {ops : List AeadOp} (h : Counted ops) : NoReuse ops ↔ ops.length ≤ 256 := by
  unfold NoReuse Counted at *
  rw [h]
  constructor
  · intro hnd
    by_contra hlen
    -- operations 0 and 256 share a nonce
    have hinj := List.inj_on_of_nodup_map hnd (List.mem_range.mpr (show 0 < ops.length by omega))
      (List.mem_range.mpr (show 256 < ops.length by omega)) ((nonceAfter_eq_iff 0 256).mpr rfl)
    omega
  · intro hlen
    refine List.Nodup.map_on ?_ List.nodup_range
    intro a ha b hb hab
    have ha' := List.mem_range.mp ha
    have hb' := List.mem_range.mp hb
    have := (nonceAfter_eq_iff a b).mp hab
    omega

/-! ## Runs of the sender -/

namespace ShadowsocksAeadSession

variable {M : Mbedtls} {s s' : ShadowsocksAeadSession}

/-- The send counter and the history under the present send key agree. -/
def SendCounted (s : ShadowsocksAeadSession) : Prop :=
  s.sendNonce = nonceAfter s.sendOps.length ∧ Counted s.sendOps

theorem sealOp_counted (h : s.SendCounted) (p c t : Bytes) : (s.sealOp p c t).SendCounted := by
  refine ⟨?_, ?_⟩
  · show incrementNonce s.sendNonce = _
    rw [h.1, ← nonceAfter_succ, sealOp, List.length_append, List.length_singleton]
  · show Counted (s.sendOps ++ [⟨s.sendNonce, p, c, t⟩])
    rw [h.1]
    exact counted_snoc h.2 p c t

theorem encryptTcpChunk_counted (h : s.SendCounted) (plain : Bytes) :
    (s.encryptTcpChunk M plain).2.SendCounted := by
  rcases encryptTcpChunk_state (M := M) s plain with e | ⟨lc, lt, e⟩ | ⟨lc, lt, pc, pt, e⟩
  · rw [e]; exact h
  · rw [e]; exact sealOp_counted h _ _ _
  · rw [e]; exact sealOp_counted (sealOp_counted h _ _ _) _ _ _

/-- The session after `encrypt_tcp_chunk` on each of `plains`, whether it throws or not. -/
def encryptRun (M : Mbedtls) (s : ShadowsocksAeadSession) (plains : List Bytes) :
    ShadowsocksAeadSession :=
  plains.foldl (fun s plain => (s.encryptTcpChunk M plain).2) s

theorem encryptRun_counted (h : s.SendCounted) (plains : List Bytes) :
    (s.encryptRun M plains).SendCounted := by
  induction plains generalizing s with
  | nil => exact h
  | cons plain plains ih => exact ih (encryptTcpChunk_counted h plain)

theorem clientSalt_ok {rng : Option Salt} {salt : Bytes} (h : s.clientSalt M rng = (.ok salt, s')) :
    ∃ key, deriveSubkey M s.masterKey salt = some key ∧ salt.length = SaltSize ∧
      s' = { s with sendKey := key, sendNonce := zeroNonce, sentSalt := true, sendOps := [] } := by
  unfold clientSalt at h
  cases rng with
  | none => cases h
  | some salt' =>
    dsimp only at h
    cases hk : deriveSubkey M s.masterKey salt'.val with
    | none => rw [hk] at h; cases h
    | some key =>
      rw [hk] at h
      obtain ⟨h1, h2⟩ := Prod.mk.inj h
      rw [Except.ok.injEq] at h1
      subst h1
      exact ⟨key, hk, salt'.property, h2.symm⟩

theorem clientSalt_counted {rng : Option Salt} {salt : Bytes}
    (h : s.clientSalt M rng = (.ok salt, s')) : s'.SendCounted := by
  obtain ⟨key, -, -, rfl⟩ := clientSalt_ok h
  exact ⟨rfl, rfl⟩

/-- Along any run after `client_salt` the `k`-th operation uses `nonceAfter k`. -/
theorem encryptRun_nonces {rng : Option Salt} {salt : Bytes}
    (h : s.clientSalt M rng = (.ok salt, s')) (plains : List Bytes) :
    Counted (s'.encryptRun M plains).sendOps :=
  (encryptRun_counted (clientSalt_counted h) plains).2

/-- The chunks `encrypt_tcp_chunk` takes; it throws on the others before any operation. -/
def accepted (plains : List Bytes) : Nat := plains.countP fun plain => plain.length ≤ 0x3fff

theorem encryptTcpChunk_ops (hM : M.Seals) (hs : s.sentSalt = true) (plain : Bytes) :
    (s.encryptTcpChunk M plain).2.sentSalt = true ∧
      (s.encryptTcpChunk M plain).2.sendOps.length =
        s.sendOps.length + if plain.length ≤ 0x3fff then 2 else 0 := by
  by_cases hlen : plain.length ≤ 0x3fff
  · obtain ⟨lc, lt, h1⟩ := hM s.sendKey s.sendNonce (be16 plain.length)
    obtain ⟨pc, pt, h2⟩ := hM s.sendKey (incrementNonce s.sendNonce) plain
    rw [encryptTcpChunk_of_seal hs hlen h1 h2, if_pos hlen]
    simp [sealOp, hs]
  · have e : (s.encryptTcpChunk M plain).2 = s := by
      simp [encryptTcpChunk, hs, Nat.lt_of_not_le hlen]
    rw [e, if_neg hlen]
    exact ⟨hs, rfl⟩

/-- Two operations for every chunk that is not too large. -/
theorem encryptRun_ops_length (hM : M.Seals) (hs : s.sentSalt = true) (plains : List Bytes) :
    (s.encryptRun M plains).sendOps.length = s.sendOps.length + 2 * accepted plains := by
  induction plains generalizing s with
  | nil => rfl
  | cons plain plains ih =>
    obtain ⟨hs', hops⟩ := encryptTcpChunk_ops hM hs plain
    show ((s.encryptTcpChunk M plain).2.encryptRun M plains).sendOps.length = _
    rw [ih hs', hops, accepted, accepted, List.countP_cons]
    by_cases hlen : plain.length ≤ 0x3fff
    · simp only [hlen, if_true, decide_true]
      omega
    · simp [hlen]

/-! ## Runs of the receiver -/

/-- The receive counter and the history under the present receive key agree. -/
def RecvCounted (s : ShadowsocksAeadSession) : Prop :=
  s.recvNonce = nonceAfter s.recvOps.length ∧ Counted s.recvOps

theorem openOps_counted (h : s.RecvCounted) (lp lc lt p c t : Bytes) :
    (s.openOps lp lc lt p c t).RecvCounted := by
  have hlen : (s.openOps lp lc lt p c t).recvOps.length = s.recvOps.length + 2 := by
    simp [openOps]
  refine ⟨?_, ?_⟩
  · rw [hlen, nonceAfter_succ, nonceAfter_succ, ← h.1]
    rfl
  · have h1 := counted_snoc h.2 lp lc lt
    have h2 := counted_snoc h1 p c t
    rw [List.length_append, List.length_singleton, nonceAfter_succ, ← h.1, List.append_assoc] at h2
    exact h2

/-- The session after `decrypt_tcp_chunk` on each of `views`, where every call hands out a
    chunk. The views are free: what the calls are given need not be one stream. -/
def decryptRun (M : Mbedtls) : ShadowsocksAeadSession → List Bytes → Option ShadowsocksAeadSession
  | s, [] => some s
  | s, view :: views =>
    match s.decryptTcpChunk M view with
    | (.ok (some _), s', _) => decryptRun M s' views
    | _ => none

theorem decryptRun_counted (views : List Bytes) (h : s.RecvCounted)
    (hrun : decryptRun M s views = some s') :
    s'.RecvCounted ∧ s'.recvOps.length = s.recvOps.length + 2 * views.length := by
  induction views generalizing s with
  | nil =>
    obtain rfl := Option.some.inj hrun
    exact ⟨h, rfl⟩
  | cons view views ih =>
    rw [decryptRun] at hrun
    split at hrun
    · rename_i plain s1 rest hd
      obtain ⟨-, lc, lt, lp, pc, pt, -, -, -, -, -, -, -, rfl⟩ := decryptTcpChunk_item_iff.mp hd
      obtain ⟨hc, hl⟩ := ih (openOps_counted h lp lc lt plain pc pt) hrun
      refine ⟨hc, ?_⟩
      rw [hl, openOps, List.length_append, List.length_cons]
      simp only [List.length_cons, List.length_nil]
      omega
    · cases hrun

theorem setClientSalt_ok {salt : Bytes} (h : s.setClientSalt M salt = (.ok (), s')) :
    ∃ key, deriveSubkey M s.masterKey salt = some key ∧ salt.length = SaltSize ∧
      s' = { s with recvKey := key, recvNonce := zeroNonce, haveRecvKey := true, recvOps := [] } := by
  unfold setClientSalt at h
  split at h
  · cases h
  · rename_i hlen
    cases hk : deriveSubkey M s.masterKey salt with
    | none => rw [hk] at h; cases h
    | some key =>
      rw [hk] at h
      exact ⟨key, rfl, by omega, (Prod.mk.inj h).2.symm⟩

/-- Along any run of accepted chunks after `set_client_salt` the `k`-th operation uses
    `nonceAfter k`, and there are two for each chunk. -/
theorem decryptRun_nonces {s1 : ShadowsocksAeadSession} {salt : Bytes} {views : List Bytes}
    (h : s.setClientSalt M salt = (.ok (), s1)) (hrun : decryptRun M s1 views = some s') :
    Counted s'.recvOps ∧ s'.recvOps.length = 2 * views.length := by
  obtain ⟨key, -, -, rfl⟩ := setClientSalt_ok h
  have h0 : RecvCounted { s with recvKey := key, recvNonce := zeroNonce, haveRecvKey := true,
                                 recvOps := [] } := ⟨rfl, rfl⟩
  obtain ⟨hc, hl⟩ := decryptRun_counted views h0 hrun
  exact ⟨hc.2, by simpa using hl⟩

/-! ## The nonce sequence of a session -/

/-- The sequence of nonces is the intended one, and free of repetition, exactly on runs of at
    most 128 chunks: on the sending side the chunks that are not too large, on the receiving
    side those handed out. -/
theorem nonces_iff (M : Mbedtls) (hM : M.Seals) (s : ShadowsocksAeadSession) :
    (∀ (rng : Option Salt) (salt : Bytes) (s' : ShadowsocksAeadSession),
      s.clientSalt M rng = (.ok salt, s') → ∀ plains : List Bytes,
        (NonceSequence (s'.encryptRun M plains).sendOps ↔ accepted plains ≤ 128) ∧
        (NoReuse (s'.encryptRun M plains).sendOps ↔ accepted plains ≤ 128)) ∧
    (∀ (salt : Bytes) (s1 s' : ShadowsocksAeadSession), s.setClientSalt M salt = (.ok (), s1) →
      ∀ views : List Bytes, decryptRun M s1 views = some s' →
        (NonceSequence s'.recvOps ↔ views.length ≤ 128)) := by
  refine ⟨?_, ?_⟩
  · intro rng salt s' hsalt plains
    have hc := encryptRun_nonces hsalt plains
    obtain ⟨key, -, -, rfl⟩ := clientSalt_ok hsalt
    have hl := encryptRun_ops_length hM
      (s := { s with sendKey := key, sendNonce := zeroNonce, sentSalt := true, sendOps := [] })
      rfl plains
    simp only [List.length_nil, Nat.zero_add] at hl
    rw [nonceSequence_iff hc, noReuse_iff hc, hl]
    constructor <;> constructor <;> intro h <;> omega
  · intro salt s1 s' hset views hrun
    obtain ⟨hc, hl⟩ := decryptRun_nonces hset hrun
    rw [nonceSequence_iff hc, hl]
    constructor <;> intro h <;> omega

/-- A session of `standIn` after `client_salt` with an all-zero salt. -/
def demoSender : ShadowsocksAeadSession :=
  ((ShadowsocksAeadSession.new zeroKey).clientSalt standIn (some (zeroBlock SaltSize))).2

/-- A session of `standIn` after `set_client_salt` with that salt. -/
def demoReceiver : ShadowsocksAeadSession :=
  ((ShadowsocksAeadSession.new zeroKey).setClientSalt standIn (zeroBlock SaltSize).val).2

/-- One chunk of `demoSender`, the payload `[7]`. -/
def demoView : Bytes := [0, 1] ++ standInTag zeroKey (nonceAfter 0) ++ [7] ++
  standInTag zeroKey (nonceAfter 1)

theorem nonces_iff_demo :
    (NonceSequence (demoSender.encryptRun standIn [[7], [8, 9]]).sendOps ∧
      NoReuse (demoSender.encryptRun standIn [[7], [8, 9]]).sendOps) ∧
    ∃ s', decryptRun standIn demoReceiver [demoView] = some s' ∧ NonceSequence s'.recvOps := by
  have h := nonces_iff standIn standIn_seals (ShadowsocksAeadSession.new zeroKey)
  have hs := h.1 (some (zeroBlock SaltSize)) _ demoSender rfl [[7], [8, 9]]
  refine ⟨⟨hs.1.mpr (by decide), hs.2.mpr (by decide)⟩, _, rfl, ?_⟩
  exact (h.2 (zeroBlock SaltSize).val demoReceiver _ rfl [demoView] rfl).mpr (by decide)

/-- 129 empty chunks: operations 0 and 256 share their nonce, and operation 256 does not use
    the encoding of 256. -/
theorem nonces_wrap_at_129 :
    ¬ NonceSequence (demoSender.encryptRun standIn (List.replicate 129 [])).sendOps ∧
    ¬ NoReuse (demoSender.encryptRun standIn (List.replicate 129 [])).sendOps := by
  have hsalt : (ShadowsocksAeadSession.new zeroKey).clientSalt standIn (some (zeroBlock SaltSize)) =
    (.ok (zeroBlock SaltSize).val, demoSender) := rfl
  have hc := encryptRun_nonces hsalt (List.replicate 129 [])
  have hl := encryptRun_ops_length standIn_seals (s := demoSender) rfl (List.replicate 129 [])
  have hacc : accepted (List.replicate 129 []) = 129 := by
    rw [accepted, List.countP_replicate]
    rfl
  have hnil : demoSender.sendOps.length = 0 := rfl
  rw [hacc, hnil] at hl
  rw [nonceSequence_iff hc, noReuse_iff hc, hl]
  omega

end ShadowsocksAeadSession

end Ovpn2ss.Aead
