/-
  What the client can read of a pbuf that lwIP delivers.

  `on_recv` takes the whole chain of a pbuf, of up to 65535 bytes, and has it encrypted as one
  chunk, but a chunk holds at most 0x3fff bytes: `encrypt_tcp_chunk` throws for more, and the
  handler closes the session. So a pbuf reaches the client exactly if it fits one chunk and the
  salt that goes ahead of the first one can be drawn (`recv_delivers_iff`).

  `Delivers` says what the client is owed: chunks behind what was queued before, of legal size,
  that a reader of the stream decrypts to the bytes of the pbuf. It leaves open how many they are.
-/
import Ovpn2ss.Tcp.ClientQueue
import Ovpn2ss.Aead.Packet

namespace Ovpn2ss.Tcp

open Ovpn2ss.Aead Ovpn2ss.Aead.ShadowsocksAeadSession Ovpn2ss.Lib Ovpn2ss.Lwip

/-! ## A salt that was sent -/

theorem encryptTcpChunk_sentSalt {M : Mbedtls} (c : ShadowsocksAeadSession) (plain : Bytes) :
    (c.encryptTcpChunk M plain).2.sentSalt = c.sentSalt := by
  rcases encryptTcpChunk_state (M := M) c plain with h | ⟨lc, lt, h⟩ | ⟨lc, lt, pc, pt, h⟩ <;> rw [h] <;> rfl

namespace Responder

variable {M : Mbedtls} {r : Responder}

/-- A responder that has sent its salt can encrypt. -/
def Keyed (r : Responder) : Prop := r.salt.isSome → r.cipher.sentSalt = true

theorem Keyed.drawSalt (h : r.Keyed) (rng : Option Salt) : (r.drawSalt M rng).Keyed := by
  unfold Responder.drawSalt
  split
  · exact h
  · next hnone =>
    rcases hc : r.cipher.clientSalt M rng with ⟨e | salt, c⟩
    · exact fun hsome => absurd hsome hnone
    · obtain ⟨key, -, -, rfl⟩ := clientSalt_ok hc
      exact fun _ => rfl

theorem Keyed.encrypt (h : r.Keyed) (payload : Bytes) : (r.encrypt M payload).Keyed := by
  have hsent := encryptTcpChunk_sentSalt (M := M) r.cipher payload
  unfold Responder.encrypt
  rcases hc : r.cipher.encryptTcpChunk M payload with ⟨e | chunk, c⟩ <;> rw [hc] at hsent
  · exact fun hsome => hsent.trans (h hsome)
  · exact fun hsome => hsent.trans (h hsome)

theorem Keyed.answer (h : r.Keyed) (d : Bytes × Option Salt) : (r.answer M d).Keyed := by
  unfold Responder.answer
  dsimp only
  split
  · exact (h.drawSalt d.2).encrypt d.1
  · exact h.drawSalt d.2

theorem keyed_respond (crypto : ShadowsocksAeadSession) (ds : List (Bytes × Option Salt)) :
    (respond M crypto ds).Keyed := by
  have hrun : ∀ r : Responder, r.Keyed → (ds.foldl (Responder.answer M) r).Keyed := by
    induction ds with
    | nil => exact fun r h => h
    | cons d ds ih => exact fun r h => ih _ (h.answer d)
  exact hrun _ fun hsome => (by cases hsome)

end Responder

namespace TcpRelaySession

variable {P : Platform} {crypto : ShadowsocksAeadSession} {lw : Answers} {s s' t : TcpRelaySession}
  {bytes : Bytes} {rng : Option Salt}

theorem sentSalt_of_sentResponseSalt {is : List Input} (h : Reaches P crypto is s)
    (hs : s.sentResponseSalt = true) : s.crypto.sentSalt = true := by
  have hr := (clientQueue_run h).responded
  rw [hr.cipher.sentSalt]
  exact Responder.keyed_respond crypto _ (hr.salted.symm.trans hs)

/-! ## One payload -/

/-- The cipher that encrypts the next chunk, and what goes ahead of it: the salt, if it is the
    first. -/
inductive Opens (M : Mbedtls) (s : TcpRelaySession) (rng : Option Salt) :
    List Bytes → ShadowsocksAeadSession → Prop
  | salted (h : s.sentResponseSalt = true) : Opens M s rng [] s.crypto
  | first {salt : Bytes} {c : ShadowsocksAeadSession} (h : s.sentResponseSalt = false)
      (hsalt : s.crypto.clientSalt M rng = (.ok salt, c)) : Opens M s rng [salt] c

/-- A reader of the stream to the client that has come to its end, or that starts with the salt
    `head` under the same master key. -/
inductive Reader (M : Mbedtls) (s : TcpRelaySession) : List Bytes → ShadowsocksAeadSession → Prop
  | salted {rcv : ShadowsocksAeadSession} (h : s.sentResponseSalt = true)
      (hstep : InStep s.crypto rcv) : Reader M s [] rcv
  | first {r rcv : ShadowsocksAeadSession} {salt : Bytes} (h : s.sentResponseSalt = false)
      (hkey : r.masterKey = s.crypto.masterKey) (hsalt : r.setClientSalt M salt = (.ok (), rcv)) :
      Reader M s [salt] rcv

theorem Reader.inStep {M : Mbedtls} {head : List Bytes} {c rcv : ShadowsocksAeadSession}
    (h : Reader M s head rcv) (hc : Opens M s rng head c) : InStep c rcv := by
  cases h with
  | salted h hstep =>
    cases hc with
    | salted h' => exact hstep
  | first h hkey hsalt =>
    cases hc with
    | first h' hsalt' =>
      obtain ⟨rcv', hset, hstep⟩ := inStep_of_salt hkey hsalt'
      rw [hsalt] at hset
      cases hset
      exact hstep

theorem Opens.unique {M : Mbedtls} {head head' : List Bytes} {c c' : ShadowsocksAeadSession}
    (h : Opens M s rng head c) (h' : Opens M s rng head' c') : c = c' := by
  cases h with
  | salted h =>
    cases h' with
    | salted _ => rfl
    | first h' _ => exact absurd (h.symm.trans h') (by decide)
  | first h hsalt =>
    cases h' with
    | salted h' => exact absurd (h.symm.trans h') (by decide)
    | first _ hsalt' => exact (Prod.mk.inj (hsalt.symm.trans hsalt')).2

theorem Opens.log {M : Mbedtls} {head : List Bytes} {c : ShadowsocksAeadSession} {act : Action}
    (h : Opens M s rng head c) : Opens M (s.log act) rng head c := by
  cases h with
  | salted h => exact .salted h
  | first h hsalt => exact .first h hsalt

theorem Opens.of_log {M : Mbedtls} {head : List Bytes} {c : ShadowsocksAeadSession} {act : Action}
    (h : Opens M (s.log act) rng head c) : Opens M s rng head c := by
  cases h with
  | salted h => exact .salted h
  | first h hsalt => exact .first h hsalt

/-- There is always such a reader. -/
theorem Opens.exists_reader {M : Mbedtls} {head : List Bytes} {c : ShadowsocksAeadSession}
    (hc : Opens M s rng head c) : ∃ rcv, Reader M s head rcv := by
  cases hc with
  | salted h =>
    exact ⟨{ s.crypto with recvKey := s.crypto.sendKey, recvNonce := s.crypto.sendNonce,
                           haveRecvKey := true }, .salted h ⟨rfl, rfl, rfl⟩⟩
  | first h hsalt =>
    obtain ⟨rcv, hset, -⟩ := inStep_of_salt (r := s.crypto) rfl hsalt
    exact ⟨rcv, .first h rfl hset⟩

/-- The salt is queued if it has to be, or there is none to be had. -/
theorem queueSalt_opens (P : Platform) (s : TcpRelaySession) (rng : Option Salt) :
    (∃ head c t, Opens P.mbedtls s rng head c ∧ s.queueSalt P rng = (.ok (), t) ∧ t.crypto = c ∧
      t.pendingClient = s.pendingClient ++ head ∧ t.closing = s.closing) ∨
    (∀ head c, ¬ Opens P.mbedtls s rng head c) ∧ ∃ e, s.queueSalt P rng = (.error e, s) := by
  rcases queueSalt_cases P s rng with ⟨hs, he⟩ | ⟨hs, ⟨e, hc⟩, he⟩ | ⟨salt, c, hs, hc, -, he⟩
  · exact Or.inl ⟨[], s.crypto, s, .salted hs, he, rfl, (List.append_nil _).symm, rfl⟩
  · refine Or.inr ⟨fun head c hopens => ?_, he⟩
    cases hopens with
    | salted h => exact Bool.false_ne_true (hs.symm.trans h)
    | first h hsalt =>
      rw [hc] at hsalt
      cases hsalt
  · exact Or.inl ⟨[salt.val], c, _, .first hs hc, he, rfl, rfl, rfl⟩

/-- The payload goes behind what is queued as one chunk, or it cannot be encrypted. -/
theorem enqueueClientPayload_opens (P : Platform) (s : TcpRelaySession) (rng : Option Salt)
    (hne : bytes ≠ []) :
    (∃ head c chunk c' t, Opens P.mbedtls s rng head c ∧
      c.encryptTcpChunk P.mbedtls bytes = (.ok chunk, c') ∧
      s.enqueueClientPayload P rng bytes = (.ok (), t) ∧
      t.pendingClient = s.pendingClient ++ head ++ [chunk] ∧ t.closing = s.closing) ∨
    (∃ e t, s.enqueueClientPayload P rng bytes = (.error e, t)) ∧
      ∀ head c chunk c', Opens P.mbedtls s rng head c →
        c.encryptTcpChunk P.mbedtls bytes ≠ (.ok chunk, c') := by
  have hemp : ¬ bytes.isEmpty = true := by simpa using hne
  unfold enqueueClientPayload
  rw [if_neg hemp]
  rcases queueSalt_opens P s rng with ⟨head, c, t, hopens, hq, rfl, hp, hclosing⟩ | ⟨hnone, e, hq⟩ <;>
    rw [hq] <;> dsimp only
  · rcases henc : t.crypto.encryptTcpChunk P.mbedtls bytes with ⟨e | chunk, c'⟩
    · refine Or.inr ⟨⟨e, _, rfl⟩, fun head' c chunk c'' hopens' henc' => ?_⟩
      rw [hopens'.unique hopens, henc] at henc'
      cases henc'
    · refine Or.inl ⟨head, t.crypto, chunk, c', _, hopens, henc, rfl, ?_, ?_⟩
      · rw [flushToClient_pendingClient, pushClient, ← hp]
      · exact ((flushToClient_frame _).conn (by decide)).1.trans hclosing
  · exact Or.inr ⟨⟨e, _, rfl⟩, fun head c chunk c' hopens => absurd hopens (hnone head c)⟩

/-- What `on_recv` does behind a payload that was enqueued concerns the window alone. -/
theorem onRecv_of_ok (lw : Answers)
    (h : (s.log (.received bytes)).enqueueClientPayload P rng bytes = (.ok (), t)) :
    (s.onRecv P lw (some bytes) .ERR_OK rng).pendingClient = t.pendingClient ∧
      (s.onRecv P lw (some bytes) .ERR_OK rng).closing = t.closing := by
  rcases onRecv_cases P lw s bytes rng with ⟨e, t', h', -⟩ | ⟨t', h', hcredit⟩ <;> rw [h] at h'
  · cases h'
  · cases h'
    rcases hcredit with ⟨-, he⟩ | ⟨-, he⟩ <;> rw [he] <;> exact ⟨rfl, rfl⟩

theorem onRecv_of_error {e : String}
    (h : (s.log (.received bytes)).enqueueClientPayload P rng bytes = (.error e, t)) :
    (s.onRecv P lw (some bytes) .ERR_OK rng).closing = true := by
  rcases onRecv_cases P lw s bytes rng with ⟨e', t', -, he⟩ | ⟨t', h', -⟩
  · rw [he, close_closing]
  · rw [h] at h'
    cases h'

/-- More than a chunk holds makes the call throw. -/
theorem onRecv_closes_large (s : TcpRelaySession) (lw : Answers) (rng : Option Salt)
    (hlarge : 0x3fff < bytes.length) :
    (s.onRecv P lw (some bytes) .ERR_OK rng).closing = true := by
  have hne : bytes ≠ [] := List.ne_nil_of_length_pos (by omega)
  rcases enqueueClientPayload_opens P (s.log (.received bytes)) rng hne with
    ⟨head, c, chunk, c', t, -, henc, -⟩ | ⟨⟨e, t, herr⟩, -⟩
  · have hlen := (encryptTcpChunk_ok henc).2.1
    omega
  · exact onRecv_of_error herr

/-- lwIP can deliver any pbuf of 1 to 65535 bytes. -/
theorem step_recvData {pcb : TcpPcb} (hpcb : s.pcb = some pcb) (hst : synchronised pcb.state = true)
    (h0 : 0 < bytes.length) (hn : bytes.length ≤ 0xffff) :
    s.step P ⟨.recv (some bytes) .ERR_OK rng, lw⟩ =
      some (s.onRecv P lw (some bytes) .ERR_OK rng) := by
  have hpossible : pbufPossible (some bytes) = true := decide_eq_true ⟨h0, hn⟩
  unfold step
  simp only [hpcb]
  rw [if_pos ⟨hst, hpossible⟩]

/-! ## A pbuf -/

/-- The session is still open and has queued chunks of legal size whose decryption, by whoever reads
    the stream, concatenates to `bytes`. -/
def Delivers (M : Mbedtls) (s s' : TcpRelaySession) (bytes : Bytes) : Prop :=
  s'.closing = false ∧ ∃ head chunks plains, s'.pendingClient = s.pendingClient ++ head ++ chunks ∧
    (∀ plain ∈ plains, plain.length ≤ 0x3fff) ∧ plains.flatten = bytes ∧
    (∃ rcv, Reader M s head rcv) ∧ ∀ rcv, Reader M s head rcv →
      (drainAll (decryptTcpChunk M) rcv chunks.flatten).items = plains ∧
      (drainAll (decryptTcpChunk M) rcv chunks.flatten).rest = [] ∧
      (drainAll (decryptTcpChunk M) rcv chunks.flatten).error = none

/-- One chunk of the whole payload is a delivery. -/
theorem delivers_of_encrypted (hI : P.mbedtls.Inverts) {head : List Bytes}
    {c c' : ShadowsocksAeadSession} {chunk : Bytes} (hopens : Opens P.mbedtls s rng head c)
    (henc : c.encryptTcpChunk P.mbedtls bytes = (.ok chunk, c')) (hopen : s'.closing = false)
    (hp : s'.pendingClient = s.pendingClient ++ head ++ [chunk]) :
    Delivers P.mbedtls s s' bytes := by
  obtain ⟨-, hlen, -⟩ := encryptTcpChunk_ok henc
  refine ⟨hopen, head, [chunk], [bytes], hp, ?_, by simp, hopens.exists_reader, fun rcv hrcv => ?_⟩
  · intro plain hplain
    rw [List.mem_singleton.mp hplain]
    exact hlen
  · have hstream : encryptStream P.mbedtls c [bytes] = some ([chunk].flatten, c') := by
      simp [encryptStream, henc]
    obtain ⟨hitems, hrest, herror, -⟩ := drain_encryptStream hI [bytes] (hrcv.inStep hopens) hstream
    exact ⟨hitems, hrest, herror⟩

/-- With a working cipher the payload can be encrypted exactly if it fits a chunk and there is a
    salt. -/
theorem opens_encrypts_iff (hS : P.mbedtls.Seals) (hK : P.mbedtls.Derives)
    (hsent : s.sentResponseSalt = true → s.crypto.sentSalt = true) :
    (∃ head c chunk c', Opens P.mbedtls s rng head c ∧
        c.encryptTcpChunk P.mbedtls bytes = (.ok chunk, c')) ↔
      bytes.length ≤ 0x3fff ∧ (s.sentResponseSalt = true ∨ rng.isSome) := by
  have hencrypt : ∀ c : ShadowsocksAeadSession, c.sentSalt = true → bytes.length ≤ 0x3fff →
      ∃ chunk c', c.encryptTcpChunk P.mbedtls bytes = (.ok chunk, c') := by
    intro c hsalt hlen
    obtain ⟨lc, lt, h1⟩ := hS c.sendKey c.sendNonce (be16 bytes.length)
    obtain ⟨pc, pt, h2⟩ := hS c.sendKey (incrementNonce c.sendNonce) bytes
    exact ⟨_, _, encryptTcpChunk_of_seal hsalt hlen h1 h2⟩
  constructor
  · rintro ⟨head, c, chunk, c', hopens, henc⟩
    refine ⟨(encryptTcpChunk_ok henc).2.1, ?_⟩
    cases hopens with
    | salted h => exact Or.inl h
    | first h hsalt =>
      cases rng with
      | none => cases hsalt
      | some salt => exact Or.inr rfl
  · rintro ⟨hlen, hready⟩
    cases hs : s.sentResponseSalt with
    | true =>
      obtain ⟨chunk, c', henc⟩ := hencrypt s.crypto (hsent hs) hlen
      exact ⟨[], s.crypto, chunk, c', .salted hs, henc⟩
    | false =>
      obtain ⟨salt, rfl⟩ := Option.isSome_iff_exists.mp
        (hready.resolve_left (Bool.eq_false_iff.mp hs))
      obtain ⟨key, hkey⟩ := hK salt.val s.crypto.masterKey.val subkeyInfo
      obtain ⟨chunk, c', henc⟩ := hencrypt
        { s.crypto with sendKey := key, sendNonce := zeroNonce, sentSalt := true, sendOps := [] } rfl hlen
      refine ⟨[salt.val], _, chunk, c', .first hs ?_, henc⟩
      simp [clientSalt, deriveSubkey, hkey]

/-- What lwIP delivers to an open session is delivered to its client exactly if it fits a chunk and
    the salt, if it has yet to be sent, can be drawn. -/
theorem recv_delivers_iff {is : List Input} (hS : P.mbedtls.Seals) (hI : P.mbedtls.Inverts)
    (hK : P.mbedtls.Derives) (h : Reaches P crypto is s) (hopen : s.closing = false)
    (hs : s.step P ⟨.recv (some bytes) .ERR_OK rng, lw⟩ = some s') :
    Delivers P.mbedtls s s' bytes ↔
      bytes.length ≤ 0x3fff ∧ (s.sentResponseSalt = true ∨ rng.isSome) := by
  rw [← opens_encrypts_iff hS hK (sentSalt_of_sentResponseSalt h)]
  obtain ⟨hne, rfl⟩ : bytes ≠ [] ∧ s' = s.onRecv P lw (some bytes) .ERR_OK rng := by
    cases fires_of_step hs with
    | recvError _ herr => exact absurd rfl herr
    | recvData _ _ h0 => exact ⟨List.ne_nil_of_length_pos h0, rfl⟩
  rcases enqueueClientPayload_opens P (s.log (.received bytes)) rng hne with
    ⟨head, c, chunk, c', t, hopens, henc, hok, hp, hclosing⟩ | ⟨⟨e, t, herr⟩, hnone⟩
  · obtain ⟨hqueue, hclosed⟩ := onRecv_of_ok lw hok
    have hdelivers := delivers_of_encrypted hI hopens.of_log henc
      (hclosed.trans (hclosing.trans hopen)) (hqueue.trans hp)
    exact iff_of_true hdelivers ⟨head, c, chunk, c', hopens.of_log, henc⟩
  · -- the exception closes the session
    refine iff_of_false (fun hdelivers => ?_) (fun hencrypts => ?_)
    · rw [Delivers, onRecv_of_error herr] at hdelivers
      cases hdelivers.1
    · obtain ⟨head, c, chunk, c', hopens, henc⟩ := hencrypts
      exact hnone head c chunk c' hopens.log henc

/-- A first byte is delivered, behind the salt. -/
theorem recv_delivers_demo :
    ∃ s s', Reaches demoPlatform demoCrypto demoConnected s ∧ s.closing = false ∧
      s.step demoPlatform ⟨.recv (some [7]) .ERR_OK (some (zeroBlock SaltSize)), willing⟩ = some s' ∧
      Delivers demoPlatform.mbedtls s s' [7] := by
  obtain ⟨s, s', h, hopen, hs⟩ : ∃ s s', Reaches demoPlatform demoCrypto demoConnected s ∧
      s.closing = false ∧ s.step demoPlatform
        ⟨.recv (some [7]) .ERR_OK (some (zeroBlock SaltSize)), willing⟩ = some s' :=
    ⟨_, _, rfl, rfl, rfl⟩
  refine ⟨s, s', h, hopen, hs, (recv_delivers_iff standIn_seals standIn_inverts ?_ h hopen hs).mpr ?_⟩
  · exact fun salt key info => ⟨_, rfl⟩
  · exact ⟨by decide, Or.inr rfl⟩

/-- A pbuf of 0x4000 bytes, from segments that were out of order: the session is closed. -/
theorem large_pbuf_closes :
    ∃ s s', Reaches demoPlatform demoCrypto demoConnected s ∧ s.closing = false ∧
      s.step demoPlatform ⟨.recv (some (List.replicate 0x4000 7)) .ERR_OK
        (some (zeroBlock SaltSize)), willing⟩ = some s' ∧
      s'.closing = true ∧ ¬ Delivers demoPlatform.mbedtls s s' (List.replicate 0x4000 7) := by
  obtain ⟨s, pcb, h, hopen, hpcb, hst⟩ : ∃ s pcb, Reaches demoPlatform demoCrypto demoConnected s ∧
      s.closing = false ∧ s.pcb = some pcb ∧ synchronised pcb.state = true :=
    ⟨_, _, rfl, rfl, rfl, rfl⟩
  have hlarge : 0x3fff < (List.replicate 0x4000 (7 : UInt8)).length := by
    rw [List.length_replicate]
    decide
  have hclosed := onRecv_closes_large (P := demoPlatform) s willing (some (zeroBlock SaltSize)) hlarge
  refine ⟨s, _, h, hopen, ?_, hclosed, fun hdelivers => ?_⟩
  · refine step_recvData hpcb hst (Nat.zero_lt_of_lt hlarge) ?_
    rw [List.length_replicate]
    decide
  · rw [Delivers, hclosed] at hdelivers
    cases hdelivers.1

end TcpRelaySession

end Ovpn2ss.Tcp
