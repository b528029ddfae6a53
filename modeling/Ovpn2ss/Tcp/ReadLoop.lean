/-
  Read boundaries: the loop of the read handler over a stream that arrives in several reads.

  `readOver` is the loop run on one read after the other. `decrypt_tcp_chunk` decides on the bytes
  at hand as it would on more of them, or changes nothing, so the reads give what one read of
  the whole stream gives (`reads_independent`). `read_run` says the same of a session: whatever
  happens between its reads, an open session has decrypted and processed the bytes of its client
  as if they had come in one piece.
-/
import Ovpn2ss.Tcp.Upstream

namespace Ovpn2ss.Tcp.TcpRelaySession

open Ovpn2ss.Aead Ovpn2ss.Lib Ovpn2ss.Lwip
open Ovpn2ss.Aead.ShadowsocksAeadSession (decryptTcpChunk decryptTcpChunk_consumes
  decryptTcpChunk_stable decryptTcpChunk_keeps decryptTcpChunk_sameRecv SameRecv)

variable (P : Platform) {lw : Answers} {W : List Piece} {s s' : TcpRelaySession}

/-! ## The loop -/

/-- The loop of the read handler on one read after the other: append the read to `encrypted_in_`,
    decrypt until there is no complete chunk, keep the rest. A failure ends it; what is unread
    then are the bytes from the failing chunk on and the reads that never took place. -/
def readOver : TcpRelaySession → List Bytes → Drained ShadowsocksAeadSession UInt8 Bytes String
  | s, [] => ⟨[], s.crypto, s.encryptedIn, none⟩
  | s, bytes :: reads =>
    let d := s.decrypted P bytes
    match d.error with
    | some _ => { d with rest := d.rest ++ reads.flatten }
    | none =>
      let d' := readOver (s.withInput d.state d.rest) reads
      { d' with items := d.items ++ d'.items }

theorem readOver_eq (s : TcpRelaySession) (reads : List Bytes) :
    s.readOver P reads = drainReads (decryptTcpChunk P.mbedtls) s.crypto s.encryptedIn reads := by
  induction reads generalizing s with
  | nil => rfl
  | cons bytes reads ih =>
    rw [readOver, drainReads, ← decrypted]
    dsimp only
    cases (s.decrypted P bytes).error with
    | some e => rfl
    | none =>
      rw [ih]
      rfl

/-- Nothing is decrypted from nothing. -/
theorem decryptTcpChunk_noInput (c : ShadowsocksAeadSession) :
    c.decryptTcpChunk P.mbedtls [] = (.ok none, c, []) := by
  cases h : c.haveRecvKey <;> simp [decryptTcpChunk, h, TagSize]

/-- Every iteration of the loop takes a chunk from the view. -/
theorem readChunk_consumes (lw : Answers) : Consumes (readChunk P lw) := by
  intro s v b s' v' h
  unfold readChunk at h
  split at h
  · cases h
  · cases h
  · rename_i chunk c view hd
    have hlt := decryptTcpChunk_consumes _ _ _ _ _ hd
    split at h
    · cases h
    · cases h
      exact hlt

/-- The cuts between the reads make no difference: the chunks, the cipher state with its nonce,
    the unread rest and the failure are those of the whole stream read at once. A call that hands
    out nothing or throws changes neither the cipher state nor the view, and the loop of a handler,
    with the processing of its chunks, ends. -/
theorem reads_independent (s : TcpRelaySession) (c : ShadowsocksAeadSession) (reads : List Bytes) :
    (s.withInput c []).readOver P reads = (s.withInput c []).decrypted P reads.flatten ∧
    (∀ c stream, (∀ plain, (decryptTcpChunk P.mbedtls c stream).1 ≠ .ok (some plain)) →
      (decryptTcpChunk P.mbedtls c stream).2 = (c, stream)) ∧
    ∀ lw s view, Drains (readChunk P lw) s view (drainAll (readChunk P lw) s view) := by
  refine ⟨?_, decryptTcpChunk_keeps, fun lw => drains_drainAll (readChunk_consumes P lw)⟩
  rw [readOver_eq]
  exact drainReads_eq decryptTcpChunk_consumes decryptTcpChunk_stable
    (decryptTcpChunk_noInput P c) reads

/-! ## Between the reads -/

variable {P}

/-- Nothing of the client's stream was read or processed between `s` and `s'`, and a closed
    session started no read. -/
structure Unread (s s' : TcpRelaySession) : Prop where
  recv : SameRecv s.crypto s'.crypto
  input : s'.encryptedIn = s.encryptedIn
  target : s'.gotTarget = s.gotTarget
  salt : s'.saltPending = s.saltPending
  fin : s.remoteEof = true → s'.remoteEof = true
  taken : accepted s'.trace = accepted s.trace
  closing : s.closing = true → s'.closing = true ∧ s'.reads ≤ s.reads

theorem Keeps.unread (h : Keeps W s s')
    (hW : ∀ p ∈ [Piece.input, .cipher, .masterKey, .target, .salt, .accept], p ∉ W) : Unread s s' := by
  have hcipher : (s'.crypto.haveRecvKey, s'.crypto.recvKey, s'.crypto.recvNonce) =
      (s.crypto.haveRecvKey, s.crypto.recvKey, s.crypto.recvNonce) := h.pieces .cipher (hW _ (by decide))
  rw [Prod.mk.injEq, Prod.mk.injEq] at hcipher
  obtain ⟨hhave, hkey, hnonce⟩ := hcipher
  exact ⟨⟨h.pieces .masterKey (hW _ (by decide)), hhave, hkey, hnonce⟩,
    h.pieces .input (hW _ (by decide)), h.target (hW _ (by decide)),
    h.pieces .salt (hW _ (by decide)), h.fin, h.accepted (hW _ (by decide)), h.closed⟩

/-- A step takes a read of the client, or it takes the salt, or it reads nothing. -/
theorem step_reads {i : Input} (hs : s.step P i = some s') :
    (∃ bytes, i.event = .clientRead (.data bytes) ∧ 0 < s.reads ∧
      s' = { s with reads := s.reads - 1 }.onClientData P i.lw bytes) ∨
    (∃ salt, i.event = .saltRead salt ∧ s.saltPending = true ∧
      s' = { s with saltPending := false }.onSaltRead P i.lw salt) ∨
    ((∀ bytes, i.event ≠ .clientRead (.data bytes)) ∧ Unread s s') := by
  have hf := fires_of_step hs
  have hkeeps := (fires_keeps hf).1
  cases hf with
  | saltRead h => exact Or.inr (Or.inl ⟨_, rfl, h, rfl⟩)
  | clientData h => exact Or.inl ⟨_, rfl, h, rfl⟩
  | clientEof _ hr =>
    rcases hr with rfl | rfl <;>
      exact Or.inr (Or.inr ⟨fun _ he => (by cases he), hkeeps.unread (by simp [footprint])⟩)
  | recvError =>
    exact Or.inr (Or.inr ⟨fun _ he => (by cases he), (close_frame _ s).unread (by decide)⟩)
  | _ => exact Or.inr (Or.inr ⟨fun _ he => (by cases he), hkeeps.unread (by simp [footprint])⟩)

/-- No step writes the master key. -/
theorem step_masterKey {i : Input} (hs : s.step P i = some s') :
    s'.crypto.masterKey = s.crypto.masterKey :=
  (fires_keeps (fires_of_step hs)).1.pieces .masterKey (masterKey_notMem_footprint _)

/-! ## The reads of a run -/

/-- The chunks of a list for which `process_decrypted_chunk` returns, up to the first that throws. -/
def returned (P : Platform) (lw : Answers) : TcpRelaySession → List Bytes → List Bytes
  | _, [] => []
  | s, chunk :: chunks =>
    match s.processDecryptedChunk P lw chunk with
    | (.error _, _) => []
    | (.ok (), s) => chunk :: returned P lw s chunks

theorem returned_of_ok {t : TcpRelaySession} {chunks : List Bytes}
    (h : processAll P lw s chunks = (.ok (), t)) : returned P lw s chunks = chunks := by
  induction chunks generalizing s with
  | nil => rfl
  | cons chunk chunks ih =>
    rw [processAll] at h
    rw [returned]
    rcases hp : s.processDecryptedChunk P lw chunk with ⟨e | _, u⟩ <;> rw [hp] at h
    · cases h
    · exact congrArg (chunk :: ·) (ih h)

/-- What an event reads from the client, and the chunks of it that are processed. -/
def readLog (P : Platform) (s : TcpRelaySession) (i : Input) : List (Bytes × List Bytes) :=
  match i.event with
  | .clientRead (.data bytes) =>
    let s := { s with reads := s.reads - 1 }
    [(bytes, returned P i.lw s (s.chunksOf P bytes))]
  | _ => []

/-- The bytes read from the client in a run. -/
def bytesRead (log : List (Bytes × List Bytes)) : Bytes := log.flatMap Prod.fst

/-- The chunks processed in a run. -/
def processed (log : List (Bytes × List Bytes)) : List Bytes := log.flatMap Prod.snd

theorem bytesRead_append (log : List (Bytes × List Bytes)) (bytes : Bytes) (chunks : List Bytes) :
    bytesRead (log ++ [(bytes, chunks)]) = bytesRead log ++ bytes := by
  simp [bytesRead]

theorem processed_append (log : List (Bytes × List Bytes)) (bytes : Bytes) (chunks : List Bytes) :
    processed (log ++ [(bytes, chunks)]) = processed log ++ chunks := by
  simp [processed]

theorem readLog_of_not_data {i : Input} (h : ∀ bytes, i.event ≠ .clientRead (.data bytes)) :
    readLog P s i = [] := by
  unfold readLog
  split
  · rename_i bytes he
    exact absurd he (h bytes)
  · rfl

/-- The session has read and processed the bytes of the log as one stream. -/
def InOrder (P : Platform) (log : List (Bytes × List Bytes)) (s : TcpRelaySession) : Prop :=
  if s.saltPending then log = [] ∧ s.encryptedIn = []
  else ∃ c d, c.recvNonce = zeroNonce ∧ Drains (decryptTcpChunk P.mbedtls) c (bytesRead log) d ∧
    d.error = none ∧ d.items = processed log ∧ d.rest = s.encryptedIn ∧ SameRecv d.state s.crypto

theorem InOrder.unread {log : List (Bytes × List Bytes)} (h : InOrder P log s) (hu : Unread s s') :
    InOrder P log s' := by
  unfold InOrder at h ⊢
  rw [hu.salt, hu.input]
  split
  · rwa [if_pos ‹_›] at h
  · rw [if_neg ‹_›] at h
    obtain ⟨c, d, hc, hd, he, hi, hr, hs⟩ := h
    exact ⟨c, d, hc, hd, he, hi, hr, hs.trans hu.recv⟩

/-- With the key of the salt the stream begins. -/
theorem inOrder_keyed (hsalt : s.saltPending = false) (hin : s.encryptedIn = []) (key : Key) :
    InOrder P [] (s.keyed key) := by
  have hs : ¬ (s.keyed key).saltPending = true := Bool.eq_false_iff.mp hsalt
  rw [InOrder, if_neg hs]
  exact ⟨_, _, rfl, .stop (decryptTcpChunk_noInput P (s.keyed key).crypto), rfl, rfl, hin.symm,
    ⟨rfl, rfl, rfl, rfl⟩⟩

/-- The decrypting half of a read depends on the cipher state only through its receiving half. -/
theorem decrypted_sameRecv {c : ShadowsocksAeadSession} (h : SameRecv c s.crypto) (bytes : Bytes) :
    (s.decrypted P bytes).items =
      (drainAll (decryptTcpChunk P.mbedtls) c (s.encryptedIn ++ bytes)).items ∧
    SameRecv (drainAll (decryptTcpChunk P.mbedtls) c (s.encryptedIn ++ bytes)).state
      (s.decrypted P bytes).state ∧
    (s.decrypted P bytes).rest =
      (drainAll (decryptTcpChunk P.mbedtls) c (s.encryptedIn ++ bytes)).rest ∧
    (s.decrypted P bytes).error =
      (drainAll (decryptTcpChunk P.mbedtls) c (s.encryptedIn ++ bytes)).error :=
  drain_sim SameRecv (fun _ _ v h => decryptTcpChunk_sameRecv h v) _ h _

/-- A read that leaves the session open goes on where the last one stopped. -/
theorem InOrder.onClientData {log : List (Bytes × List Bytes)} (h : InOrder P log s)
    (hsalt : s.saltPending = false) {bytes : Bytes}
    (hopen : (s.onClientData P lw bytes).closing = false) :
    InOrder P (log ++ [(bytes, returned P lw s (s.chunksOf P bytes))]) (s.onClientData P lw bytes) := by
  rw [InOrder, if_neg (Bool.eq_false_iff.mp hsalt)] at h
  obtain ⟨c, d, hc, hd, he, hi, hr, hs⟩ := h
  obtain ⟨hitems, hstate, hrest, herr⟩ := decrypted_sameRecv (P := P) hs bytes
  rw [← hr] at hitems hstate hrest herr
  rcases onClientData_cases P lw s bytes with ⟨t, hp, hnone, heq⟩ | ⟨r, t, c', -, -, -, heq⟩
  · have hafter : Unread (t.withInput (s.decrypted P bytes).state (s.decrypted P bytes).rest)
        (s.onClientData P lw bytes) := by
      rw [heq]
      exact (flushRead_frame lw _).unread (by decide)
    have ht : ¬ (t.withInput (s.decrypted P bytes).state
        (s.decrypted P bytes).rest).saltPending = true := by
      have hkept : (processAll P lw s (s.chunksOf P bytes)).2.saltPending = s.saltPending :=
        (processAll_frame P lw s (s.chunksOf P bytes)).pieces .salt (by decide)
      rw [hp, hsalt] at hkept
      exact Bool.eq_false_iff.mp hkept
    have hnext := hd.append (x := bytes) decryptTcpChunk_stable he
      (drains_drainAll decryptTcpChunk_consumes d.state (d.rest ++ bytes))
    refine InOrder.unread ?_ hafter
    rw [InOrder, if_neg ht, bytesRead_append, processed_append, returned_of_ok hp]
    exact ⟨c, _, hc, hnext, herr.symm.trans hnone, congrArg₂ (· ++ ·) hi hitems.symm, hrest.symm,
      hstate⟩
  · rw [heq, close_closing] at hopen
    cases hopen

/-- Every step of an open session that leaves it open keeps the stream in order. -/
theorem inOrder_step {log : List (Bytes × List Bytes)} {i : Input} (hR : Reading 0 s)
    (h : s.closing = false → InOrder P log s) (hs : s.step P i = some s') :
    s'.closing = false → InOrder P (log ++ readLog P s i) s' := by
  intro hopen
  have hc := open_of_step hs hopen
  rcases step_reads hs with ⟨bytes, he, hpos, rfl⟩ | ⟨salt, he, hsalt, rfl⟩ | ⟨he, hu⟩
  · have hsalt : s.saltPending = false := by
      cases hsalt : s.saltPending with
      | false => rfl
      | true =>
        have := (hR.salt hsalt).1
        omega
    have hread : InOrder P log { s with reads := s.reads - 1 } := h hc
    rw [readLog, he]
    exact hread.onClientData hsalt hopen
  · have hnil := h hc
    rw [InOrder, if_pos hsalt] at hnil
    obtain ⟨rfl, hin⟩ := hnil
    rw [readLog, he]
    rcases onSaltRead_cases P i.lw { s with saltPending := false } salt with heq | ⟨key, heq⟩
    · rw [heq, close_closing] at hopen
      cases hopen
    · have hkey : InOrder P [] ({ s with saltPending := false }.keyed key) :=
        inOrder_keyed (s := { s with saltPending := false }) rfl hin key
      rw [heq]
      exact hkey.unread ((readEncryptedStream_frame _).unread (by decide))
  · rw [readLog_of_not_data he, List.append_nil]
    exact (h hc).unread hu

end Ovpn2ss.Tcp.TcpRelaySession
