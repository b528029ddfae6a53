/-
  Stream integrity against an active network.

  The AEAD is ideal for a sender's log (`IdealFor`): under the sender's key `auth_decrypt`
  succeeds exactly on the records the sender produced under the same nonce, and returns their
  plaintext. The adversary may feed the receiver any byte stream.

  Below 128 chunks every log entry has a nonce of its own and even nonces belong to length
  records, so the `j`-th chunk a receiver releases can only be the sender's `j`-th
  (`released_prefix`). From 128 chunks on the receive counter is back at zero while the
  records of the first chunk still open: replaying chunk `k mod 128` as the `k`-th makes the
  receiver release chunks without end (`replay_releases`). `released_prefix_iff` is both.
-/
import Ovpn2ss.Aead.Stream

namespace Ovpn2ss.Aead

open Ovpn2ss.Lib

/-- `auth_decrypt` under `key` succeeds exactly on the operations of `log`, with their
    plaintext. -/
def IdealFor (M : Mbedtls) (key : Key) (log : List AeadOp) : Prop :=
  ∀ n c t p, M.authDecrypt key n c t = some p ↔ ⟨n, p, c, t⟩ ∈ log

/-- The two plaintexts sealed for a chunk. -/
def records (plain : Bytes) : List Bytes := [be16 plain.length, plain]

theorem records_get (plains : List Bytes) (j : Nat) :
    (plains.flatMap records)[2 * j]? = plains[j]?.map (fun p => be16 p.length) ∧
    (plains.flatMap records)[2 * j + 1]? = plains[j]? := by
  induction plains generalizing j with
  | nil => exact ⟨rfl, rfl⟩
  | cons p ps ih =>
    cases j with
    | zero => exact ⟨rfl, rfl⟩
    | succ j =>
      have h := ih j
      rw [List.flatMap_cons]
      exact h

/-- A log of complete chunks: two records for each, counted from zero, with the sizes of the
    AEAD. -/
structure LogOf (plains : List Bytes) (log : List AeadOp) : Prop where
  plain : log.map AeadOp.plain = plains.flatMap records
  counted : Counted log
  sized : ∀ op ∈ log, op.cipher.length = op.plain.length ∧ op.tag.length = TagSize
  legal : ∀ p ∈ plains, p.length ≤ 0x3fff

namespace LogOf

variable {plains : List Bytes} {log : List AeadOp}

theorem length (h : LogOf plains log) : log.length = 2 * plains.length := by
  have hl := congrArg List.length h.plain
  rw [List.length_map, List.length_flatMap] at hl
  simp only [records, List.length_cons, List.length_nil, List.map_const', List.sum_replicate] at hl
  rw [hl]
  simp [Nat.mul_comm]

/-- Record `2·j` is the length of chunk `j`. -/
theorem plain_even (h : LogOf plains log) {j : Nat} (hj : j < plains.length)
    (hk : 2 * j < log.length) : log[2 * j].plain = be16 plains[j].length := by
  have hg := (records_get plains j).1
  rw [← h.plain, List.getElem?_map, List.getElem?_eq_getElem hk, List.getElem?_eq_getElem hj] at hg
  exact Option.some.inj hg

/-- Record `2·j + 1` is the payload of chunk `j`. -/
theorem plain_odd (h : LogOf plains log) {j : Nat} (hj : j < plains.length)
    (hk : 2 * j + 1 < log.length) : log[2 * j + 1].plain = plains[j] := by
  have hg := (records_get plains j).2
  rw [← h.plain, List.getElem?_map, List.getElem?_eq_getElem hk, List.getElem?_eq_getElem hj] at hg
  exact Option.some.inj hg

/-- In a log of at most 256 records a nonce names its record. -/
theorem get_of_nonce (h : LogOf plains log) (hsmall : plains.length ≤ 128) {op : AeadOp}
    (hop : op ∈ log) {k : Nat} (hk : k < 256) (hn : op.nonce = nonceAfter k) :
    ∃ hlt : k < log.length, log[k] = op := by
  obtain ⟨i, hi, rfl⟩ := List.mem_iff_getElem.mp hop
  have hlen := h.length
  rw [counted_get h.counted i hi, nonceAfter_eq_iff] at hn
  have : i = k := by omega
  subst this
  exact ⟨hi, rfl⟩

end LogOf

namespace ShadowsocksAeadSession

variable {M : Mbedtls} {s s' : ShadowsocksAeadSession} {plains : List Bytes} {log : List AeadOp}

/-! ## The log a sender leaves -/

theorem encryptStream_ops {stream : Bytes} (henc : encryptStream M s plains = some (stream, s')) :
    s'.sendKey = s.sendKey ∧ (∀ p ∈ plains, p.length ≤ 0x3fff) ∧
    ∃ ops, s'.sendOps = s.sendOps ++ ops ∧ ops.map AeadOp.plain = plains.flatMap records ∧
      ∀ op ∈ ops, M.encryptAndTag s.sendKey op.nonce op.plain = some (op.cipher, op.tag) := by
  induction plains generalizing s stream with
  | nil =>
    obtain ⟨rfl, rfl⟩ := Prod.mk.inj (Option.some.inj henc)
    exact ⟨rfl, by simp, [], by simp, rfl, by simp⟩
  | cons p ps ih =>
    obtain ⟨out, s1, tail, h1, h2, -⟩ := encryptStream_cons henc
    obtain ⟨-, hlen, lc, lt, pc, pt, e1, e2, -, rfl⟩ := encryptTcpChunk_ok h1
    obtain ⟨hkey, hlegal, ops, hops, hplain, hsealed⟩ := ih h2
    refine ⟨hkey, ?_, ⟨s.sendNonce, be16 p.length, lc, lt⟩ ::
      ⟨incrementNonce s.sendNonce, p, pc, pt⟩ :: ops, ?_, ?_, ?_⟩
    · exact List.forall_mem_cons.mpr ⟨hlen, hlegal⟩
    · rw [hops]
      simp [sealOp]
    · rw [List.map_cons, List.map_cons, hplain]
      rfl
    · exact List.forall_mem_cons.mpr ⟨e1, List.forall_mem_cons.mpr ⟨e2, hsealed⟩⟩

theorem encryptStream_counted {stream : Bytes} (h : s.SendCounted)
    (henc : encryptStream M s plains = some (stream, s')) : s'.SendCounted := by
  induction plains generalizing s stream with
  | nil =>
    obtain ⟨rfl, rfl⟩ := Prod.mk.inj (Option.some.inj henc)
    exact h
  | cons p ps ih =>
    obtain ⟨out, s1, tail, h1, h2, -⟩ := encryptStream_cons henc
    have hc := encryptTcpChunk_counted (M := M) h p
    rw [h1] at hc
    exact ih hc h2

/-- What a sender that drew a salt and sealed `plains` has put on the network. -/
theorem logOf_encryptStream {snd : ShadowsocksAeadSession} {rng : Option Salt}
    {salt stream : Bytes} (hsalt : s.clientSalt M rng = (.ok salt, snd))
    (henc : encryptStream M snd plains = some (stream, s')) : LogOf plains s'.sendOps := by
  have hcount := (encryptStream_counted (clientSalt_counted hsalt) henc).2
  obtain ⟨-, hlegal, ops, hops, hplain, hsealed⟩ := encryptStream_ops henc
  obtain ⟨key, -, -, rfl⟩ := clientSalt_ok hsalt
  rw [List.nil_append] at hops
  rw [hops] at hcount ⊢
  exact ⟨hplain, hcount, fun op hop => M.encrypt_size (hsealed op hop), hlegal⟩

/-! ## Fewer than 128 chunks: only the sender's own order -/

/-- The receiver has released the first `j` chunks and no more. -/
def Released (plains : List Bytes) (key : Key) (items : List Bytes)
    (r : ShadowsocksAeadSession) : Prop :=
  ∃ j ≤ plains.length, items = plains.take j ∧ r.recvKey = key ∧ r.recvNonce = nonceAfter (2 * j)

/-- The next chunk the receiver hands out is the sender's next. -/
theorem released_item {key : Key} (hideal : IdealFor M key log) (hlog : LogOf plains log)
    (hsmall : plains.length < 128) {items : List Bytes} {r r' : ShadowsocksAeadSession}
    {view rest plain : Bytes} (h : Released plains key items r)
    (hd : r.decryptTcpChunk M view = (.ok (some plain), r', rest)) :
    Released plains key (items ++ [plain]) r' := by
  obtain ⟨j, hj, rfl, hkey, hnonce⟩ := h
  obtain ⟨-, lc, lt, lp, pc, pt, -, -, -, -, o1, -, o2, rfl⟩ := decryptTcpChunk_item_iff.mp hd
  rw [hkey, hnonce] at o1 o2
  rw [← nonceAfter_succ] at o2
  -- the length record opened, so the sender has a record number `2·j`
  obtain ⟨hk, -⟩ := hlog.get_of_nonce (by omega) ((hideal _ _ _ _).mp o1) (k := 2 * j) (by omega) rfl
  have hlen := hlog.length
  have hjlt : j < plains.length := by omega
  obtain ⟨hk2, hget⟩ :=
    hlog.get_of_nonce (by omega) ((hideal _ _ _ _).mp o2) (k := 2 * j + 1) (by omega) rfl
  have hplain : plain = plains[j] := by
    rw [← hlog.plain_odd hjlt hk2, hget]
  refine ⟨j + 1, hjlt, ?_, hkey, ?_⟩
  · rw [hplain, List.take_succ_eq_append_getElem hjlt]
  · show incrementNonce (incrementNonce r.recvNonce) = _
    rw [hnonce, ← nonceAfter_succ, ← nonceAfter_succ]
    rfl

theorem released_prefix {key : Key} (hideal : IdealFor M key log) (hlog : LogOf plains log)
    (hsmall : plains.length < 128) {r : ShadowsocksAeadSession} (hkey : r.recvKey = key)
    (hnonce : r.recvNonce = zeroNonce) (stream : Bytes) :
    (drainAll (decryptTcpChunk M) r stream).items <+: plains := by
  have hstay : ∀ s v x, (∀ p, x ≠ Except.ok (some p)) → ∀ s' v',
      decryptTcpChunk M s v = (x, s', v') → s' = s := by
    intro s v x hx s' v' h
    have hk := decryptTcpChunk_keeps (M := M) s v (by intro p; rw [h]; exact hx p)
    rw [h] at hk
    exact (Prod.mk.inj hk).1
  have hfin := @drain_inv _ _ _ _ (decryptTcpChunk M) (Released plains key)
    (fun items s v p s' v' h hd => released_item hideal hlog hsmall h hd)
    (fun items s v s' v' h hd => by rw [hstay s v _ (by simp) s' v' hd]; exact h)
    (fun items s v e s' v' h hd => by rw [hstay s v _ (by simp) s' v' hd]; exact h)
    (stream.length + 1) [] r stream ⟨0, Nat.zero_le _, rfl, hkey, hnonce⟩
  obtain ⟨j, -, hitems, -, -⟩ := hfin
  rw [List.nil_append] at hitems
  unfold drainAll
  rw [hitems]
  exact List.take_prefix j plains

/-! ## From 128 chunks on: a replay that never ends -/

/-- The records of one of the first 128 chunks, fed to a receiver whose counter is congruent,
    are accepted. -/
theorem replay_item {key : Key} (hideal : IdealFor M key log) (hlog : LogOf plains log)
    (hbig : 128 ≤ plains.length) {r : ShadowsocksAeadSession} (hready : r.haveRecvKey = true)
    (hkey : r.recvKey = key) (k : Nat) (hnonce : r.recvNonce = nonceAfter (2 * k)) :
    ∃ wire, ∀ rest, ∃ plain r', r.decryptTcpChunk M (wire ++ rest) = (.ok (some plain), r', rest) ∧
      r'.haveRecvKey = true ∧ r'.recvKey = key ∧ r'.recvNonce = nonceAfter (2 * (k + 1)) := by
  have hlen := hlog.length
  have hj : k % 128 < plains.length := by omega
  have h0 : 2 * (k % 128) < log.length := by omega
  have h1 : 2 * (k % 128) + 1 < log.length := by omega
  have n0 : log[2 * (k % 128)].nonce = r.recvNonce := by
    rw [counted_get hlog.counted _ h0, hnonce, nonceAfter_eq_iff]
    omega
  have n1 : log[2 * (k % 128) + 1].nonce = incrementNonce r.recvNonce := by
    rw [counted_get hlog.counted _ h1, hnonce, ← nonceAfter_succ, nonceAfter_eq_iff]
    omega
  have o1 : M.authDecrypt r.recvKey r.recvNonce log[2 * (k % 128)].cipher log[2 * (k % 128)].tag =
      some log[2 * (k % 128)].plain := by
    rw [hkey, ← n0, hideal]
    exact List.getElem_mem h0
  have o2 : M.authDecrypt r.recvKey (incrementNonce r.recvNonce) log[2 * (k % 128) + 1].cipher
      log[2 * (k % 128) + 1].tag = some log[2 * (k % 128) + 1].plain := by
    rw [hkey, ← n1, hideal]
    exact List.getElem_mem h1
  obtain ⟨c0, t0⟩ := hlog.sized _ (List.getElem_mem h0)
  obtain ⟨c1, t1⟩ := hlog.sized _ (List.getElem_mem h1)
  have hlegal := hlog.legal _ (List.getElem_mem hj)
  have e0 := hlog.plain_even hj h0
  have e1 := hlog.plain_odd hj h1
  have hpc : log[2 * (k % 128) + 1].cipher.length =
      readBe16 log[2 * (k % 128)].plain &&& 0x3fff := by
    rw [e0, readBe16_be16 (by omega), and_3fff, c1, e1]
    omega
  refine ⟨log[2 * (k % 128)].cipher ++ log[2 * (k % 128)].tag ++ log[2 * (k % 128) + 1].cipher ++
    log[2 * (k % 128) + 1].tag, fun rest => ⟨_, _, decryptTcpChunk_of_open hready ?_ t0 t1 o1 hpc o2,
      hready, hkey, ?_⟩⟩
  · rw [c0, e0, be16_length]
  · show incrementNonce (incrementNonce r.recvNonce) = _
    rw [hnonce, ← nonceAfter_succ, ← nonceAfter_succ]
    rfl

theorem replay_releases {key : Key} (hideal : IdealFor M key log) (hlog : LogOf plains log)
    (hbig : 128 ≤ plains.length) (m : Nat) {r : ShadowsocksAeadSession}
    (hready : r.haveRecvKey = true) (hkey : r.recvKey = key) (k : Nat)
    (hnonce : r.recvNonce = nonceAfter (2 * k)) :
    ∃ stream, (drainAll (decryptTcpChunk M) r stream).items.length = m := by
  induction m generalizing r k with
  | zero => exact ⟨[], by rw [drainAll_stop (decryptTcpChunk_nil r)]; rfl⟩
  | succ m ih =>
    obtain ⟨wire, hwire⟩ := replay_item hideal hlog hbig hready hkey k hnonce
    -- the session after the first chunk does not depend on what follows it
    obtain ⟨p0, r0, hd0, h1, h2, h3⟩ := hwire []
    obtain ⟨stream, hs⟩ := ih h1 h2 (k + 1) h3
    obtain ⟨p, r', hd, -, -, -⟩ := hwire stream
    have hr : r' = r0 := by
      obtain ⟨-, lc, lt, lp, pc, pt, w, a1, a2, a3, a4, a5, a6, rfl⟩ := decryptTcpChunk_item_iff.mp hd0
      rw [List.append_nil, List.append_nil] at w
      have hnext : r.decryptTcpChunk M (lc ++ lt ++ pc ++ pt ++ stream) = _ :=
        decryptTcpChunk_of_open hready a1 a2 a3 a4 a5 a6
      rw [← w, hd] at hnext
      exact (Prod.mk.inj (Prod.mk.inj hnext).2).1
    subst hr
    refine ⟨wire ++ stream, ?_⟩
    rw [drainAll_item decryptTcpChunk_consumes hd, List.length_cons, hs]

/-! ## Integrity of the stream -/

/-- With an AEAD that is ideal for the sender's log, the receiver releases a prefix of the
    sender's chunks on every byte stream, exactly when the sender sealed fewer than 128. -/
theorem released_prefix_iff (M : Mbedtls) (s r snd rcv snd' : ShadowsocksAeadSession)
    (hmaster : r.masterKey = s.masterKey) (rng : Option Salt) (salt : Bytes)
    (hsalt : s.clientSalt M rng = (.ok salt, snd)) (hset : r.setClientSalt M salt = (.ok (), rcv))
    (chunks : List Bytes) (sealed : Bytes)
    (henc : encryptStream M snd chunks = some (sealed, snd'))
    (hideal : IdealFor M snd.sendKey snd'.sendOps) :
    (∀ stream, (drainAll (decryptTcpChunk M) rcv stream).items <+: chunks) ↔
      chunks.length < 128 := by
  have hlog := logOf_encryptStream hsalt henc
  obtain ⟨rcv', hset', hstep⟩ := inStep_of_salt hmaster hsalt
  obtain rfl : rcv = rcv' := by
    rw [hset] at hset'
    exact (Prod.mk.inj hset').2
  have hzero : rcv.recvNonce = zeroNonce := by
    obtain ⟨key, -, -, rfl⟩ := setClientSalt_ok hset
    rfl
  refine ⟨?_, fun hsmall stream => released_prefix hideal hlog hsmall hstep.key hzero stream⟩
  intro hall
  by_contra hbig
  obtain ⟨stream, hs⟩ := replay_releases hideal hlog (by omega) (chunks.length + 1) hstep.ready
    hstep.key 0 hzero
  have := (hall stream).length_le
  omega

/-! ## The stand-in, made ideal for one sender -/

/-- `standIn` with an `auth_decrypt` that accepts the records of `log` and nothing else. -/
def idealStandIn (key : Key) (log : List AeadOp) : Mbedtls :=
  { standIn with
    authDecrypt := fun k n c t => if k = key ∧ ⟨n, c, c, t⟩ ∈ log then some c else none
    decrypt_size := by
      intro k n c t p h
      split at h
      · rw [← Option.some.inj h]
      · cases h }

/-- What `demoSender` sends for `plains`. -/
def demoLog (plains : List Bytes) : List AeadOp := (demoSender.encryptRun standIn plains).sendOps

theorem encryptStream_eq_run {stream : Bytes}
    (henc : encryptStream M s plains = some (stream, s')) : s' = s.encryptRun M plains := by
  induction plains generalizing s stream with
  | nil => exact (Prod.mk.inj (Option.some.inj henc)).2.symm
  | cons p ps ih =>
    obtain ⟨out, s1, tail, h1, h2, -⟩ := encryptStream_cons henc
    rw [ih h2, encryptRun, encryptRun, List.foldl_cons, h1]

/-- Sealing does not look at `auth_decrypt`. -/
theorem encryptStream_idealStandIn (key : Key) (plains : List Bytes) :
    encryptStream (idealStandIn key log) s plains = encryptStream standIn s plains := by
  induction plains generalizing s with
  | nil => rfl
  | cons p ps ih =>
    have h1 : s.encryptTcpChunk (idealStandIn key log) p = s.encryptTcpChunk standIn p := rfl
    rw [encryptStream, encryptStream, h1]
    split
    · rfl
    · rw [ih]

theorem idealFor_idealStandIn (key : Key) (h : ∀ op ∈ log, op.cipher = op.plain) :
    IdealFor (idealStandIn key log) key log := by
  intro n c t p
  show (if key = key ∧ ⟨n, c, c, t⟩ ∈ log then some c else none) = some p ↔ _
  constructor
  · intro hp
    split at hp
    · rename_i hmem
      rw [← Option.some.inj hp]
      exact hmem.2
    · cases hp
  · intro hmem
    obtain rfl : c = p := h _ hmem
    exact if_pos ⟨rfl, hmem⟩

/-- `demoSender` seals `plains`, and the stand-in is ideal for what it sent. -/
theorem demo_ideal (plains : List Bytes) (hlen : ∀ p ∈ plains, p.length ≤ 0x3fff) :
    ∃ sealed snd', encryptStream (idealStandIn demoSender.sendKey (demoLog plains)) demoSender
        plains = some (sealed, snd') ∧
      IdealFor (idealStandIn demoSender.sendKey (demoLog plains)) demoSender.sendKey
        snd'.sendOps := by
  obtain ⟨sealed, snd', henc⟩ := encryptStream_total standIn_seals (s := demoSender) rfl plains hlen
  refine ⟨sealed, snd', by rw [encryptStream_idealStandIn, henc], ?_⟩
  obtain ⟨-, -, ops, hops, -, hsealed⟩ := encryptStream_ops henc
  have hlog : snd'.sendOps = demoLog plains := by
    rw [encryptStream_eq_run henc]
    rfl
  rw [hlog]
  refine idealFor_idealStandIn demoSender.sendKey fun op hop => ?_
  rw [← hlog, hops] at hop
  exact (Prod.mk.inj (Option.some.inj (hsealed op hop))).1.symm

/-- Three chunks: whatever the network feeds the receiver, it releases a prefix of them. -/
theorem released_prefix_demo :
    IdealFor (idealStandIn demoSender.sendKey (demoLog [[7], [], [8, 9]])) demoSender.sendKey
      (demoLog [[7], [], [8, 9]]) ∧
    ∀ stream, (drainAll (decryptTcpChunk
      (idealStandIn demoSender.sendKey (demoLog [[7], [], [8, 9]])))
        demoReceiver stream).items <+: [[7], [], [8, 9]] := by
  obtain ⟨sealed, snd', henc, hideal⟩ := demo_ideal [[7], [], [8, 9]] (by decide)
  refine ⟨idealFor_idealStandIn _ (by decide), ?_⟩
  exact (released_prefix_iff (idealStandIn demoSender.sendKey (demoLog [[7], [], [8, 9]]))
    (ShadowsocksAeadSession.new zeroKey) (ShadowsocksAeadSession.new zeroKey) demoSender
    demoReceiver snd' rfl (some (zeroBlock SaltSize)) (zeroBlock SaltSize).val rfl rfl
    [[7], [], [8, 9]] sealed henc hideal).mpr (by decide)

/-- 128 empty chunks: some byte stream makes the receiver release more than the sender sent. -/
theorem replay_after_128 :
    ¬ ∀ stream, (drainAll (decryptTcpChunk
      (idealStandIn demoSender.sendKey (demoLog (List.replicate 128 []))))
        demoReceiver stream).items <+: List.replicate 128 [] := by
  have hlen : ∀ p ∈ List.replicate 128 ([] : Bytes), p.length ≤ 0x3fff := by
    intro p hp
    rw [List.eq_of_mem_replicate hp]
    decide
  obtain ⟨sealed, snd', henc, hideal⟩ := demo_ideal (List.replicate 128 []) hlen
  have hsalt : (ShadowsocksAeadSession.new zeroKey).clientSalt
      (idealStandIn demoSender.sendKey (demoLog (List.replicate 128 [])))
      (some (zeroBlock SaltSize)) = (.ok (zeroBlock SaltSize).val, demoSender) := rfl
  obtain ⟨stream, hs⟩ := replay_releases hideal (logOf_encryptStream hsalt henc)
    List.length_replicate.ge 129 (r := demoReceiver) rfl rfl 0 rfl
  intro hall
  have := (hall stream).length_le
  rw [hs, List.length_replicate] at this
  omega

end ShadowsocksAeadSession

end Ovpn2ss.Aead
