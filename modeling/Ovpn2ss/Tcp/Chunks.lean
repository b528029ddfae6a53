/-
  The read handler taken apart: its loop decrypts and processes in turn, but processing a
  chunk does not look at the cipher state or the input buffer. So a read decrypts a list of
  chunks that depends on the stream alone (`chunksOf`) and processes that list in order
  (`processAll`), up to the first exception. `onClientData_cases` puts the handler in that form,
  `processAll_of_target`, `processAll_bad` and `processAll_address` say what processing a list does.
-/
import Ovpn2ss.Tcp.Frame
import Ovpn2ss.Aead.Chunk

namespace Ovpn2ss.Tcp

open Ovpn2ss.Aead Ovpn2ss.Lib Ovpn2ss.Lwip
open Ovpn2ss.Aead.ShadowsocksAeadSession (decryptTcpChunk OnlyReceived)

namespace TcpRelaySession

variable (P : Platform) {lw : Answers} {s s' : TcpRelaySession}

/-- `process_decrypted_chunk` on each chunk in turn, until one throws. -/
def processAll (lw : Answers) : TcpRelaySession → List Bytes → Except String Unit × TcpRelaySession
  | s, [] => (.ok (), s)
  | s, chunk :: chunks =>
    match s.processDecryptedChunk P lw chunk with
    | (.error e, s) => (.error e, s)
    | (.ok (), s) => processAll lw s chunks

/-- The decrypting half of the loop on the buffered bytes and the new ones. -/
def decrypted (s : TcpRelaySession) (bytes : Bytes) :
    Drained ShadowsocksAeadSession UInt8 Bytes String :=
  drainAll (decryptTcpChunk P.mbedtls) s.crypto (s.encryptedIn ++ bytes)

/-- The chunks a read of `bytes` decrypts. -/
def chunksOf (s : TcpRelaySession) (bytes : Bytes) : List Bytes := (s.decrypted P bytes).items

/-! ## Processing does not depend on the input side -/

/-- The session with another cipher state and another input buffer. -/
def withInput (s : TcpRelaySession) (crypto : ShadowsocksAeadSession) (input : Bytes) :
    TcpRelaySession :=
  { s with crypto := crypto, encryptedIn := input }

variable (c : ShadowsocksAeadSession) (input : Bytes)

theorem close_withInput : (s.withInput c input).close lw = (s.close lw).withInput c input := by
  cases h : s.closing with
  | true =>
    have h' : (s.withInput c input).closing = true := h
    rw [close_of_closing h, close_of_closing h']
  | false =>
    have h' : (s.withInput c input).closing = false := h
    rw [close_of_open h, close_of_open h']
    rfl

theorem connectIp_withInput (ip : IpAddr) (port : Nat) :
    (s.withInput c input).connectIp lw ip port = (s.connectIp lw ip port).withInput c input := by
  unfold connectIp
  split
  · dsimp only
    split
    · exact close_withInput (s := { s with pcb := some tcpNew, activeSelf := true }.log
        (.tcpConnect ip port)) c input
    · rfl
  · exact close_withInput (s := { s with pcb := none }) c input

theorem connectTarget_withInput (lw : Answers) (target : TargetAddress) :
    (s.withInput c input).connectTarget P lw target =
      ((s.connectTarget P lw target).1, (s.connectTarget P lw target).2.withInput c input) := by
  unfold connectTarget resolveDomainThenConnect
  split
  · cases lw.resolveThrows <;> rfl
  · split
    · rfl
    · rw [connectIp_withInput]

theorem queueLwip_withInput (bytes : Bytes) :
    (s.withInput c input).queueLwip bytes = (s.queueLwip bytes).withInput c input := by
  unfold queueLwip
  split <;> rfl

theorem processDecryptedChunk_withInput (chunk : Bytes) :
    (s.withInput c input).processDecryptedChunk P lw chunk =
      ((s.processDecryptedChunk P lw chunk).1,
        (s.processDecryptedChunk P lw chunk).2.withInput c input) := by
  unfold processDecryptedChunk
  split
  · rename_i h
    have h' : s.gotTarget = true := h
    rw [if_pos h', queueLwip_withInput]
  · rename_i h
    have h' : ¬ s.gotTarget = true := h
    rw [if_neg h']
    split
    · rw [close_withInput]
    · rename_i target bytes _
      have hc := connectTarget_withInput P (s := { s with gotTarget := true }) c input lw target
      have hw : { s.withInput c input with gotTarget := true } =
          { s with gotTarget := true }.withInput c input := rfl
      rw [hw, hc]
      generalize { s with gotTarget := true }.connectTarget P lw target = r
      rcases r with ⟨_ | _, t⟩
      · rfl
      · exact congrArg _ (queueLwip_withInput c input bytes)

theorem processAll_withInput (lw : Answers) (chunks : List Bytes) :
    processAll P lw (s.withInput c input) chunks =
      ((processAll P lw s chunks).1, (processAll P lw s chunks).2.withInput c input) := by
  induction chunks generalizing s with
  | nil => rfl
  | cons chunk chunks ih =>
    rw [processAll, processAll, processDecryptedChunk_withInput]
    rcases s.processDecryptedChunk P lw chunk with ⟨_ | _, t⟩
    · rfl
    · exact ih

/-! ## The loop -/

/-- The loop of the read handler is decryption followed by processing. -/
theorem drain_readChunk (lw : Answers) (n : Nat) (s : TcpRelaySession) (view : Bytes) :
    ∃ c, OnlyReceived s.crypto c ∧
      (drain (readChunk P lw) n s view).state =
        (processAll P lw s (drain (decryptTcpChunk P.mbedtls) n s.crypto view).items).2.withInput c
          s.encryptedIn ∧
      ((∃ e, (processAll P lw s (drain (decryptTcpChunk P.mbedtls) n s.crypto view).items).1 =
            .error e ∧ (drain (readChunk P lw) n s view).error = some e) ∨
        ((processAll P lw s (drain (decryptTcpChunk P.mbedtls) n s.crypto view).items).1 = .ok () ∧
          c = (drain (decryptTcpChunk P.mbedtls) n s.crypto view).state ∧
          (drain (readChunk P lw) n s view).rest =
            (drain (decryptTcpChunk P.mbedtls) n s.crypto view).rest ∧
          (drain (readChunk P lw) n s view).error =
            (drain (decryptTcpChunk P.mbedtls) n s.crypto view).error)) := by
  induction n generalizing s view with
  | zero => exact ⟨s.crypto, rfl, rfl, Or.inr ⟨rfl, rfl, rfl, rfl⟩⟩
  | succ n ih =>
    have hrecv := ShadowsocksAeadSession.decryptTcpChunk_onlyReceived (M := P.mbedtls) s.crypto view
    rw [drain, drain, readChunk]
    rcases hd : decryptTcpChunk P.mbedtls s.crypto view with ⟨_ | _ | chunk, c, view'⟩
    · rw [hd] at hrecv
      exact ⟨c, hrecv, rfl, Or.inr ⟨rfl, rfl, rfl, rfl⟩⟩
    · rw [hd] at hrecv
      exact ⟨c, hrecv, rfl, Or.inr ⟨rfl, rfl, rfl, rfl⟩⟩
    · rw [hd] at hrecv
      have hp : { s with crypto := c }.processDecryptedChunk P lw chunk = _ :=
        processDecryptedChunk_withInput P c s.encryptedIn chunk
      dsimp only
      rw [hp, processAll]
      rcases s.processDecryptedChunk P lw chunk with ⟨e | _, t⟩
      · exact ⟨c, hrecv, rfl, Or.inl ⟨e, rfl, rfl⟩⟩
      · -- the induction hypothesis is about the processed state, with the new cipher state
        obtain ⟨c', hc', hstate, hres⟩ := ih (t.withInput c s.encryptedIn) view'
        have ht : (t.withInput c s.encryptedIn).crypto = c := rfl
        rw [ht, processAll_withInput] at hstate hres
        exact ⟨c', hrecv.trans hc', hstate, hres⟩

/-- The chunks of a read, their framing and the bytes left over are the whole view. -/
theorem drain_decrypt_lengths (n : Nat) (c : ShadowsocksAeadSession) (view : Bytes) :
    ∃ consumed, view = consumed ++ (drain (decryptTcpChunk P.mbedtls) n c view).rest ∧
      ((drain (decryptTcpChunk P.mbedtls) n c view).items.map (34 + List.length ·)).sum =
        consumed.length := by
  induction n generalizing c view with
  | zero => exact ⟨[], rfl, rfl⟩
  | succ n ih =>
    rw [drain]
    rcases hd : decryptTcpChunk P.mbedtls c view with ⟨_ | _ | chunk, c', view'⟩
    · have hk := ShadowsocksAeadSession.decryptTcpChunk_keeps (M := P.mbedtls) c view (by simp [hd])
      rw [hd] at hk
      obtain ⟨-, rfl⟩ := Prod.mk.inj hk
      exact ⟨[], rfl, rfl⟩
    · have hk := ShadowsocksAeadSession.decryptTcpChunk_keeps (M := P.mbedtls) c view (by simp [hd])
      rw [hd] at hk
      obtain ⟨-, rfl⟩ := Prod.mk.inj hk
      exact ⟨[], rfl, rfl⟩
    · obtain ⟨-, lc, lt, lenPlain, pc, pt, hview, -⟩ :=
        ShadowsocksAeadSession.decryptTcpChunk_item_iff.mp hd
      have hlen := ShadowsocksAeadSession.decryptTcpChunk_length hd
      obtain ⟨consumed, hcut, hsum⟩ := ih c' view'
      refine ⟨lc ++ lt ++ pc ++ pt ++ consumed, ?_, ?_⟩
      · dsimp only
        rw [List.append_assoc, ← hcut, hview]
      · have : view.length = (lc ++ lt ++ pc ++ pt).length + view'.length := by
          rw [hview, List.length_append]
        rw [List.map_cons, List.sum_cons, hsum, List.length_append]
        omega

/-- The read handler: the chunks of the read are processed and what is left of the stream is
    kept, then the queue is flushed and the next read started; after an exception of either
    half the session is closed, with the whole stream still in the buffer. -/
theorem onClientData_cases (lw : Answers) (s : TcpRelaySession) (bytes : Bytes) :
    (∃ t, processAll P lw s (s.chunksOf P bytes) = (.ok (), t) ∧ (s.decrypted P bytes).error = none ∧
      s.onClientData P lw bytes =
        ((t.withInput (s.decrypted P bytes).state (s.decrypted P bytes).rest).flushToLwip
          lw).readEncryptedStream) ∨
    ∃ r t c, processAll P lw s (s.chunksOf P bytes) = (r, t) ∧
      (r ≠ .ok () ∨ (s.decrypted P bytes).error ≠ none) ∧ OnlyReceived s.crypto c ∧
      s.onClientData P lw bytes = (t.withInput c (s.encryptedIn ++ bytes)).close lw := by
  obtain ⟨c, hc, hstate, hres⟩ := drain_readChunk P lw ((s.encryptedIn ++ bytes).length + 1)
    (s.withInput s.crypto (s.encryptedIn ++ bytes)) (s.encryptedIn ++ bytes)
  obtain ⟨consumed, hcut, -⟩ := drain_decrypt_lengths P ((s.encryptedIn ++ bytes).length + 1) s.crypto
    (s.encryptedIn ++ bytes)
  rw [processAll_withInput] at hstate hres
  unfold onClientData endRead chunksOf decrypted drainAll
  dsimp only [withInput] at hstate hres ⊢
  rcases hp : processAll P lw s (drain (decryptTcpChunk P.mbedtls)
    ((s.encryptedIn ++ bytes).length + 1) s.crypto (s.encryptedIn ++ bytes)).items with ⟨r, t⟩
  rw [hp] at hstate hres
  rcases hres with ⟨e, hr, he⟩ | ⟨hr, hcrypto, hrest, herr⟩
  · right
    refine ⟨r, t, c, rfl, Or.inl (by rw [show r = .error e from hr]; simp), hc, ?_⟩
    rw [he, hstate]
  · cases hd : (drain (decryptTcpChunk P.mbedtls) ((s.encryptedIn ++ bytes).length + 1) s.crypto
      (s.encryptedIn ++ bytes)).error with
    | some e =>
      right
      refine ⟨r, t, c, rfl, Or.inr (by simp), hc, ?_⟩
      rw [herr, hd, hstate]
    | none =>
      left
      refine ⟨t, by rw [show r = .ok () from hr], rfl, ?_⟩
      rw [herr, hd, hstate, hrest, ← hcrypto]
      dsimp only
      split
      · rfl
      · -- nothing was consumed, so what is left is the whole buffer
        rename_i hzero
        have hnil : consumed = [] := by
          rw [← List.length_eq_zero_iff]
          have hsum := congrArg List.length hcut
          simp only [List.length_append] at hsum hzero
          omega
        rw [hnil, List.nil_append] at hcut
        rw [← hcut]

/-- What a read leaves in the buffer is less than a chunk. -/
theorem drain_decrypt_rest {n : Nat} {c : ShadowsocksAeadSession} {view : Bytes}
    (hr : c.haveRecvKey = true) (hn : view.length < n)
    (h : (drain (decryptTcpChunk P.mbedtls) n c view).error = none) :
    (drain (decryptTcpChunk P.mbedtls) n c view).rest.length ≤ 34 + 0x3ffe := by
  induction n generalizing c view with
  | zero => omega
  | succ n ih =>
    have hrecv := ShadowsocksAeadSession.decryptTcpChunk_onlyReceived (M := P.mbedtls) c view
    rw [drain] at h ⊢
    rcases hd : decryptTcpChunk P.mbedtls c view with ⟨_ | _ | chunk, c', view'⟩
    · rw [hd] at h
      cases h
    · have hk := ShadowsocksAeadSession.decryptTcpChunk_keeps (M := P.mbedtls) c view (by simp [hd])
      rw [hd] at hk
      obtain ⟨-, rfl⟩ := Prod.mk.inj hk
      exact ShadowsocksAeadSession.decryptTcpChunk_stop_length hr hd
    · rw [hd] at h hrecv
      have hlen := ShadowsocksAeadSession.decryptTcpChunk_length hd
      have hkey : c'.haveRecvKey = true := by
        rw [show c' = _ from hrecv, ← hr]
      exact ih hkey (by omega) h

theorem decrypted_rest {s : TcpRelaySession} {bytes : Bytes} (hr : s.crypto.haveRecvKey = true)
    (h : (s.decrypted P bytes).error = none) : (s.decrypted P bytes).rest.length ≤ 34 + 0x3ffe :=
  drain_decrypt_rest P hr (Nat.lt_succ_self _) h

/-! ## Processing a list of chunks -/

/-- The chunks that are queued: empty ones are not. -/
def payloads (chunks : List Bytes) : List Bytes := chunks.filter fun chunk => !chunk.isEmpty

/-- The session with `ps` behind its upstream queue. -/
def queued (s : TcpRelaySession) (ps : List Bytes) : TcpRelaySession :=
  { s with pendingLwip := s.pendingLwip ++ ps, trace := s.trace ++ ps.map .accept }

theorem queueLwip_eq (s : TcpRelaySession) (chunk : Bytes) :
    s.queueLwip chunk = s.queued (payloads [chunk]) := by
  cases chunk <;> simp [queueLwip, queued, payloads, log]

theorem queued_frame (s : TcpRelaySession) (ps : List Bytes) :
    Frame [.queue, .accept] s (s.queued ps) := by
  refine Keeps.calm ⟨fun p hp => by cases p <;> first | rfl | exact absurd (by decide) hp,
    ⟨_, rfl, ?_⟩, id, fun hc => ⟨hc, le_rfl⟩⟩ (by decide) (by decide)
  intro a ha
  obtain ⟨buf, -, rfl⟩ := List.mem_map.mp ha
  simp [Action.piece]

theorem queued_queued (s : TcpRelaySession) (ps qs : List Bytes) :
    (s.queued ps).queued qs = s.queued (ps ++ qs) := by
  simp [queued]

theorem payloads_cons (chunk : Bytes) (chunks : List Bytes) :
    payloads (chunk :: chunks) = payloads [chunk] ++ payloads chunks :=
  List.filter_append (p := fun c : Bytes => !c.isEmpty) [chunk] chunks

theorem flatten_payloads (chunks : List Bytes) : (payloads chunks).flatten = chunks.flatten := by
  induction chunks with
  | nil => rfl
  | cons chunk chunks ih =>
    rw [payloads_cons, List.flatten_append, ih, List.flatten_cons]
    cases chunk <;> simp [payloads]

/-- Once the target is known, every chunk is payload. -/
theorem processAll_of_target (h : s.gotTarget = true) (chunks : List Bytes) :
    processAll P lw s chunks = (.ok (), s.queued (payloads chunks)) := by
  induction chunks generalizing s with
  | nil => simp [processAll, queued, payloads]
  | cons chunk chunks ih =>
    have hp : s.processDecryptedChunk P lw chunk = (.ok (), s.queued (payloads [chunk])) := by
      rw [processDecryptedChunk, if_pos h, queueLwip_eq]
    rw [processAll, hp]
    dsimp only
    rw [ih (s := s.queued (payloads [chunk])) h, queued_queued, ← payloads_cons]

/-- A chunk without an address closes the session, and the loop goes on. -/
theorem processAll_bad (h : s.gotTarget = false) {bad : List Bytes}
    (hbad : ∀ b ∈ bad, parseSsAddress b = none) (chunks : List Bytes) :
    processAll P lw s (bad ++ chunks) =
      processAll P lw (if bad = [] then s else s.close lw) chunks := by
  induction bad generalizing s with
  | nil => rfl
  | cons b bad ih =>
    have hp : s.processDecryptedChunk P lw b = (.ok (), s.close lw) := by
      rw [processDecryptedChunk, if_neg (by rw [h]; decide), hbad b List.mem_cons_self]
    have hgot : (s.close lw).gotTarget = false :=
      ((close_frame lw s).target (by decide)).trans h
    rw [List.cons_append, processAll, hp]
    dsimp only
    rw [ih hgot fun b hb => hbad b (List.mem_cons_of_mem _ hb), close_close, ite_self,
      if_neg (List.cons_ne_nil b bad)]

/-- A chunk with an address: it is connected to (or that throws), and what follows the address
    is payload, as are the chunks after it. -/
theorem processAll_address (h : s.gotTarget = false) {post : List Bytes} {chunk rest : Bytes}
    {target : TargetAddress} (haddr : parseSsAddress chunk = some (target, rest)) :
    processAll P lw s (chunk :: post) =
      match { s with gotTarget := true }.connectTarget P lw target with
      | (.error e, t) => (.error e, t)
      | (.ok (), t) => processAll P lw (t.queued (payloads [rest])) post := by
  rw [processAll, processDecryptedChunk, if_neg (by rw [h]; decide), haddr]
  dsimp only
  generalize { s with gotTarget := true }.connectTarget P lw target = r
  rcases r with ⟨e | _, t⟩
  · rfl
  · dsimp only
    rw [queueLwip_eq]

/-- What processing one chunk of a list keeps, processing the list keeps. -/
theorem processAll_inv (I : TcpRelaySession → Prop) (chunks : List Bytes)
    (hstep : ∀ s, ∀ chunk ∈ chunks, I s → I (s.processDecryptedChunk P lw chunk).2) (h : I s) :
    I (processAll P lw s chunks).2 := by
  induction chunks generalizing s with
  | nil => exact h
  | cons chunk chunks ih =>
    have hs := hstep s chunk List.mem_cons_self h
    rw [processAll]
    rcases hp : s.processDecryptedChunk P lw chunk with ⟨e | _, t⟩ <;> rw [hp] at hs
    · exact hs
    · exact ih (fun s chunk hc => hstep s chunk (List.mem_cons_of_mem _ hc)) hs

theorem processAll_frame (lw : Answers) (s : TcpRelaySession) (chunks : List Bytes) :
    Frame [.target, .aim, .queue, .accept, .conn] s (processAll P lw s chunks).2 :=
  processAll_inv P (Frame _ s) chunks
    (fun t chunk _ h => h.trans (processDecryptedChunk_frame P lw t chunk)) (.refl _ s)

/-- What a read gives: `J` holds if processing its chunks gives `I` and the end of the handler, a flush
    and the next read or a close, leads from `I` to `J`. -/
theorem onClientData_inv (I J : TcpRelaySession → Prop) {bytes : Bytes}
    (hread : ∀ t c rest, I t → J (((t.withInput c rest).flushToLwip lw).readEncryptedStream))
    (hclose : ∀ t c rest, I t → J ((t.withInput c rest).close lw))
    (hall : I (processAll P lw s (s.chunksOf P bytes)).2) : J (s.onClientData P lw bytes) := by
  rcases onClientData_cases P lw s bytes with ⟨t, hp, -, he⟩ | ⟨r, t, c, hp, -, -, he⟩ <;>
    rw [hp] at hall <;> rw [he]
  · exact hread t _ _ hall
  · exact hclose t c _ hall

/-- A chunk has at most 0x3fff bytes. -/
theorem chunksOf_le {bytes chunk : Bytes} (h : chunk ∈ s.chunksOf P bytes) :
    chunk.length ≤ 0x3fff := by
  have hall : ∀ chunk ∈ [] ++ s.chunksOf P bytes, chunk.length ≤ 0x3fff :=
    drain_inv (fun chunks _ => ∀ chunk ∈ chunks, chunk.length ≤ 0x3fff)
      (fun _ _ _ _ _ _ hI hd chunk hc => (List.mem_append.mp hc).elim (hI chunk) fun hc =>
        List.mem_singleton.mp hc ▸ ShadowsocksAeadSession.decryptTcpChunk_plain_le hd)
      (fun _ _ _ _ _ hI _ => hI) (fun _ _ _ _ _ _ hI _ => hI) _ [] s.crypto (s.encryptedIn ++ bytes)
      (fun _ hc => by cases hc)
  exact hall chunk h

/-- The cipher state after the decrypting half of a read. -/
theorem decrypted_onlyReceived (s : TcpRelaySession) (bytes : Bytes) :
    OnlyReceived s.crypto (s.decrypted P bytes).state :=
  drain_trans OnlyReceived (fun _ => rfl) (fun _ _ _ => .trans)
    (ShadowsocksAeadSession.decryptTcpChunk_onlyReceived (M := P.mbedtls)) _ _ _

/-- Processing leaves the input side alone. -/
theorem processAll_input (lw : Answers) (s : TcpRelaySession) (chunks : List Bytes) :
    (processAll P lw s chunks).2.crypto = s.crypto ∧
    (processAll P lw s chunks).2.encryptedIn = s.encryptedIn := by
  have h := processAll_withInput P (s := s) s.crypto s.encryptedIn lw chunks
  have hs : s.withInput s.crypto s.encryptedIn = s := rfl
  rw [hs] at h
  exact ⟨congrArg (·.2.crypto) h, congrArg (·.2.encryptedIn) h⟩

end TcpRelaySession

end Ovpn2ss.Tcp
