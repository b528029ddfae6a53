/-
  What the members of the session can do to its state, said once for each of them.

  `close` and `flush_to_lwip` are inverted into record updates (`close_of_open`,
  `flushToLwip_cases`), the other members into cases over those or into a rule for what they
  keep (`connectTarget_inv`, `processDecryptedChunk_inv`). What they leave alone is said in
  `Tcp/Frame`, in terms of the pieces a session is made of.
-/
import Ovpn2ss.Tcp.Step
import Ovpn2ss.Aead.Chunk

namespace Ovpn2ss.Tcp

open Ovpn2ss.Aead Ovpn2ss.Lib Ovpn2ss.Lwip

/-! ## Reading a trace -/

/-- The pieces of a session: fields that are worked on together, and what is done to them. -/
inductive Piece where
  | input
  | cipher
  | masterKey
  | salt
  | target
  | queue
  | accept
  | write
  | pause
  | reads
  | aim
  | clientEof
  | remoteEof
  /-- The connection, with its end: everything that tears it down. -/
  | conn
  /-- All of the way from lwIP to the client. -/
  | client
  deriving DecidableEq

/-- The piece an action belongs to. -/
def Action.piece : Action → Piece
  | .asyncReadSome => .reads
  | .accept _ => .accept
  | .asyncResolve _ _ | .tcpConnect _ _ => .aim
  | .tcpWrite _ => .write
  | .received _ | .tcpRecved _ | .asyncWrite _ | .wrote _ => .client
  | .tcpShutdown | .tcpClose | .tcpAbort | .shutdownSend | .socketClose => .conn

/-- The payload queued for lwIP. -/
def accepted (trace : List Action) : Bytes :=
  trace.flatMap fun | .accept payload => payload | _ => []

/-- The data `tcp_write` took. -/
def written (trace : List Action) : Bytes :=
  trace.flatMap fun | .tcpWrite data => data | _ => []

@[simp] theorem accepted_append (t u : List Action) : accepted (t ++ u) = accepted t ++ accepted u :=
  List.flatMap_append

@[simp] theorem written_append (t u : List Action) : written (t ++ u) = written t ++ written u :=
  List.flatMap_append

theorem accepted_of_piece {acts : List Action} (h : ∀ a ∈ acts, a.piece ≠ .accept) :
    accepted acts = [] := by
  rw [accepted, List.flatMap_eq_nil_iff]
  intro a ha
  have := h a ha
  cases a <;> first | rfl | exact absurd rfl this

theorem written_of_piece {acts : List Action} (h : ∀ a ∈ acts, a.piece ≠ .write) :
    written acts = [] := by
  rw [written, List.flatMap_eq_nil_iff]
  intro a ha
  have := h a ha
  cases a <;> first | rfl | exact absurd rfl this

/-- An `on_recv` with data. -/
def Input.isData (i : Input) : Bool :=
  match i.event with
  | .recv (some _) .ERR_OK _ => true
  | _ => false

/-- The successful completion of a client write. -/
def Input.isWriteDone (i : Input) : Bool :=
  match i.event with
  | .clientWrote ok => ok
  | _ => false

namespace TcpRelaySession

/-! ## Closing -/

/-- The calls that `tcp_close(pcb_)`, or else `tcp_abort(pcb_)`, makes. -/
def closeActs (lw : Answers) : Option TcpPcb → List Action
  | none => []
  | some _ => .tcpClose :: if lw.close ≠ .ERR_OK then [.tcpAbort] else []

variable {lw : Answers} {s s' : TcpRelaySession}

theorem closePcb_eq (lw : Answers) (s : TcpRelaySession) :
    s.closePcb lw = { s with pcb := none, trace := s.trace ++ closeActs lw s.pcb } := by
  unfold closePcb closeActs log
  cases hp : s.pcb with
  | none => simp [← hp]
  | some pcb =>
    dsimp only
    split <;> simp

theorem close_of_closing (h : s.closing = true) : s.close lw = s := by
  rw [close, if_pos h]

theorem close_of_open (h : s.closing = false) :
    s.close lw = { s with closing := true, pcb := none, activeSelf := false,
                          trace := s.trace ++ .socketClose :: closeActs lw s.pcb } := by
  simp [close, h, closePcb_eq, log]

@[simp] theorem close_closing (lw : Answers) (s : TcpRelaySession) : (s.close lw).closing = true := by
  cases h : s.closing with
  | true => rw [close_of_closing h, h]
  | false => rw [close_of_open h]

theorem close_close (lw : Answers) (s : TcpRelaySession) : (s.close lw).close lw = s.close lw :=
  close_of_closing (close_closing lw s)

theorem closeActs_piece {pcb : Option TcpPcb} {a : Action} (h : a ∈ closeActs lw pcb) :
    a.piece = .conn := by
  unfold closeActs at h
  split at h
  · cases h
  · split at h <;> simp at h
    · rcases h with rfl | rfl <;> rfl
    · subst h
      rfl

theorem close_crypto (lw : Answers) (s : TcpRelaySession) : (s.close lw).crypto = s.crypto := by
  cases h : s.closing with
  | true => rw [close_of_closing h]
  | false => rw [close_of_open h]

/-! ## Flushing -/

/-- The session after `tcp_write` took the chunks `sent` and left `rest`. -/
def flushed (s : TcpRelaySession) (pcb : TcpPcb) (sent rest : List Bytes) : TcpRelaySession :=
  { s with pcb := some pcb, pendingLwip := rest,
           trace := s.trace ++ (sent.map u16Sized).map .tcpWrite }

/-- The loop takes a prefix of the queue, and all of it exactly if it ends by itself. -/
theorem flushLoop_spec (lw : Answers) (ps : List Bytes) (pcb : TcpPcb) :
    (flushLoop lw ps pcb).pcb.state = pcb.state ∧
    (∃ sent, ps = sent ++ (flushLoop lw ps pcb).rest ∧
      (flushLoop lw ps pcb).written = sent.map u16Sized) ∧
    ((flushLoop lw ps pcb).stop = .drained ↔ (flushLoop lw ps pcb).rest = []) := by
  induction ps generalizing pcb with
  | nil => exact ⟨rfl, ⟨[], rfl, rfl⟩, by simp [flushLoop]⟩
  | cons pkt rest ih =>
    have hst := tcpWrite_state lw pcb (u16Sized pkt)
    rw [flushLoop]
    split
    · exact ⟨rfl, ⟨[], rfl, rfl⟩, by simp⟩
    · split
      · rename_i pcb' hw
        rw [hw] at hst
        obtain ⟨h1, ⟨sent, h2, h3⟩, h4⟩ := ih pcb'
        exact ⟨h1.trans hst, ⟨pkt :: sent, congrArg _ h2, congrArg _ h3⟩, h4⟩
      · rename_i pcb' hw
        rw [hw] at hst
        exact ⟨hst, ⟨[], rfl, rfl⟩, by simp⟩
      · rename_i pcb' _ _ hw
        rw [hw] at hst
        exact ⟨hst, ⟨[], rfl, rfl⟩, by simp⟩

/-- `flush_to_lwip` does nothing without a pcb; with one it empties the queue, or leaves a rest
    and pauses the client, or leaves a rest and closes the session. -/
theorem flushToLwip_cases (lw : Answers) (s : TcpRelaySession) :
    (s.pcb = none ∧ s.flushToLwip lw = s) ∨
    ∃ pcb pcb' sent rest, s.pcb = some pcb ∧ pcb'.state = pcb.state ∧
      s.pendingLwip = sent ++ rest ∧
      ((rest = [] ∧ s.flushToLwip lw = s.flushed pcb' sent []) ∨
       (rest ≠ [] ∧ s.flushToLwip lw = { s.flushed pcb' sent rest with clientReadPaused := true }) ∨
       (rest ≠ [] ∧ s.flushToLwip lw = (s.flushed pcb' sent rest).close lw)) := by
  unfold flushToLwip
  cases hp : s.pcb with
  | none => exact Or.inl ⟨rfl, rfl⟩
  | some pcb =>
    right
    obtain ⟨hst, ⟨sent, hsplit, hw⟩, hstop⟩ := flushLoop_spec lw s.pendingLwip pcb
    refine ⟨pcb, _, sent, _, rfl, hst, hsplit, ?_⟩
    dsimp only
    rw [hw]
    cases hs : (flushLoop lw s.pendingLwip pcb).stop with
    | drained =>
      have hnil := hstop.mp hs
      exact Or.inl ⟨hnil, by rw [hnil]; rfl⟩
    | paused => exact Or.inr (Or.inl ⟨fun h => by simp [hstop.mpr h] at hs, rfl⟩)
    | failed => exact Or.inr (Or.inr ⟨fun h => by simp [hstop.mpr h] at hs, rfl⟩)

theorem flushToLwip_of_noPcb (h : s.pcb = none) : s.flushToLwip lw = s := by
  rw [flushToLwip, h]

/-- The next read is started unless the session is closed or paused. -/
theorem readEncryptedStream_of_open (hc : s.closing = false) (hp : s.clientReadPaused = false) :
    s.readEncryptedStream = { s with reads := s.reads + 1, trace := s.trace ++ [.asyncReadSome] } := by
  rw [readEncryptedStream, if_neg (by rw [hc, hp]; decide)]
  rfl

theorem readEncryptedStream_of_held (h : s.closing = true ∨ s.clientReadPaused = true) :
    s.readEncryptedStream = s := by
  rw [readEncryptedStream, if_pos (by simpa using h)]

/-! ## Reading and connecting -/

/-- `connect_ip` has a pcb in `SYN_SENT`, or `tcp_connect` failed, or there was no pcb. -/
theorem connectIp_cases (lw : Answers) (s : TcpRelaySession) (ip : IpAddr) (port : Nat) :
    s.connectIp lw ip port = { s with pcb := some synSent, activeSelf := true,
                                      trace := s.trace ++ [.tcpConnect ip port] } ∨
    s.connectIp lw ip port = { s with pcb := some tcpNew, activeSelf := true,
                                      trace := s.trace ++ [Action.tcpConnect ip port] }.close lw ∨
    s.connectIp lw ip port = { s with pcb := none }.close lw := by
  unfold connectIp
  split
  · dsimp only
    split
    · exact Or.inr (Or.inl rfl)
    · exact Or.inl rfl
  · exact Or.inr (Or.inr rfl)

/-- A domain is resolved; the text of an IP address is connected to, or is refused. -/
theorem connectTarget_cases (P : Platform) (lw : Answers) (s : TcpRelaySession)
    (target : TargetAddress) :
    (target.type = .Domain ∧ ∃ r, s.connectTarget P lw target =
      (r, { s with resolving := some target.port,
                   trace := s.trace ++ [.asyncResolve target.host target.port] })) ∨
    (target.type ≠ .Domain ∧ P.ipaddrAton target.host = none ∧
      ∃ e, s.connectTarget P lw target = (.error e, s)) ∨
    (target.type ≠ .Domain ∧ ∃ ip, P.ipaddrAton target.host = some ip ∧
      s.connectTarget P lw target = (.ok (), s.connectIp lw ip target.port)) := by
  unfold connectTarget resolveDomainThenConnect
  split
  · rename_i h
    refine Or.inl ⟨h, ?_⟩
    cases lw.resolveThrows <;> exact ⟨_, rfl⟩
  · rename_i h
    cases hip : P.ipaddrAton target.host with
    | none => exact Or.inr (Or.inl ⟨h, rfl, _, rfl⟩)
    | some ip => exact Or.inr (Or.inr ⟨h, ip, rfl, rfl⟩)

/-- What starting a resolution and connecting keep, `connect_target` keeps. -/
theorem connectTarget_inv (I : TcpRelaySession → Prop)
    (hresolve : ∀ host port, I { s with resolving := some port,
                                        trace := s.trace ++ [.asyncResolve host port] })
    (hconnect : ∀ ip port, I (s.connectIp lw ip port)) (h : I s) (target : TargetAddress) :
    I (s.connectTarget P lw target).2 := by
  rcases connectTarget_cases P lw s target with ⟨-, r, he⟩ | ⟨-, -, e, he⟩ | ⟨-, ip, -, he⟩ <;> rw [he]
  · exact hresolve target.host target.port
  · exact h
  · exact hconnect ip target.port

/-- What a close, a connect and queueing no more than the chunk keep, processing the chunk keeps. -/
theorem processDecryptedChunk_inv (I : TcpRelaySession → Prop) {chunk : Bytes}
    (hqueue : ∀ t bytes, bytes.length ≤ chunk.length → I t → I (t.queueLwip bytes))
    (hclose : I (s.close lw))
    (hconnect : s.gotTarget = false → ∀ target,
      I ({ s with gotTarget := true }.connectTarget P lw target).2) (h : I s) :
    I (s.processDecryptedChunk P lw chunk).2 := by
  unfold processDecryptedChunk
  split
  · exact hqueue s chunk le_rfl h
  · next hg =>
    split
    · exact hclose
    · next target bytes haddr =>
      have hc := hconnect (Bool.eq_false_iff.mpr hg) target
      split
      · next he => rwa [he] at hc
      · next he =>
        rw [he] at hc
        exact hqueue _ bytes (parseSsAddress_length haddr).le hc

/-- The client is resumed if it was paused and lwIP has room again; otherwise nothing happens. -/
theorem maybeResumeClientRead_cases (lw : Answers) (s : TcpRelaySession) :
    s.maybeResumeClientRead lw = s ∨
    ∃ pcb, s.pcb = some pcb ∧ s.clientReadPaused = true ∧ LwipSndLowWater ≤ tcpSndbuf pcb ∧
      s.maybeResumeClientRead lw =
        ({ s with clientReadPaused := false }.flushToLwip lw).readEncryptedStream := by
  unfold maybeResumeClientRead
  split
  · exact Or.inl rfl
  · rename_i pcb hp
    split
    · exact Or.inl rfl
    · rename_i h
      simp only [Bool.or_eq_true, Bool.not_eq_eq_eq_not, Bool.not_true, decide_eq_true_eq, not_or,
        Bool.not_eq_false, Nat.not_lt] at h
      exact Or.inr ⟨pcb, hp, h.1, h.2, rfl⟩

/-- The session that has derived its receive key from the client's salt. -/
def keyed (s : TcpRelaySession) (key : Key) : TcpRelaySession :=
  { s with crypto := { s.crypto with recvKey := key, recvNonce := zeroNonce, haveRecvKey := true,
                                     recvOps := [] } }

/-- The salt gives the receive key and the first read is started, or the session is closed. -/
theorem onSaltRead_cases (P : Platform) (lw : Answers) (s : TcpRelaySession) (salt : Option Salt) :
    s.onSaltRead P lw salt = s.close lw ∨
    ∃ key, s.onSaltRead P lw salt = (s.keyed key).readEncryptedStream := by
  cases salt with
  | none => exact Or.inl rfl
  | some salt =>
    have hlen : ¬ salt.val.length ≠ SaltSize := not_not.mpr salt.property
    unfold onSaltRead ShadowsocksAeadSession.setClientSalt
    dsimp only
    rw [if_neg hlen]
    cases deriveSubkey P.mbedtls s.crypto.masterKey salt.val with
    | none => exact Or.inl rfl
    | some key => exact Or.inr ⟨key, rfl⟩

/-- What a close and a connect of an open session keep, the resolve handler keeps. -/
theorem onResolved_inv (I : TcpRelaySession → Prop) {err : ErrT} {ip : Option IpAddr} {port : Nat}
    (hclose : I (s.close lw))
    (hconnect : s.closing = false → ∀ ip, I (s.connectIp lw ip port)) :
    I (s.onResolved lw err ip port) := by
  unfold onResolved
  split
  · exact hclose
  · split
    · exact hclose
    · next hgo =>
      simp only [Bool.or_eq_true, decide_eq_true_eq, not_or, Bool.not_eq_true] at hgo
      exact hconnect hgo.2 _

theorem onConnected_inv (I : TcpRelaySession → Prop) {err : ErrT} (hclose : I (s.close lw))
    (hflush : I (s.flushToLwip lw)) : I (s.onConnected lw err) := by
  unfold onConnected
  split
  · exact hclose
  · exact hflush

/-! ## Ending -/

/-- The session once a FIN was passed on and the pcb is gone. -/
def severed (lw : Answers) (s : TcpRelaySession) : TcpRelaySession :=
  { s with remoteEof := true, pcb := none, activeSelf := false,
           trace := s.trace ++ ((if s.closing then [] else [.shutdownSend]) ++ closeActs lw s.pcb) }

theorem handleRemoteFin_eq {pcb : TcpPcb} (h : s.pcb = some pcb) :
    s.handleRemoteFin lw = if s.clientEof then (s.severed lw).close lw else s.severed lw := by
  cases hc : s.closing <;> simp [handleRemoteFin, severed, closePcb_eq, log, hc, h]

/-- The pcb after `tcp_shutdown` of the send side succeeded. -/
def halfClosed (lw : Answers) (pcb : TcpPcb) : TcpPcb :=
  if lw.shutdown.2 then { pcb with state := pcb.state.afterFin } else pcb

/-- The locked block of `handle_client_eof`: nothing without a pcb, else a `tcp_shutdown`, an abort or
    both. -/
theorem shutdownPcb_cases (lw : Answers) (s : TcpRelaySession) :
    (s.pcb = none ∧ s.shutdownPcb lw = s) ∨
    ∃ pcb, s.pcb = some pcb ∧
      ((∃ pcb', s.shutdownPcb lw = { s.log .tcpShutdown with pcb := some pcb' }) ∨
        s.shutdownPcb lw = (s.log .tcpShutdown).abortPcb ∨ s.shutdownPcb lw = s.abortPcb) := by
  unfold shutdownPcb
  cases hp : s.pcb with
  | none => exact Or.inl ⟨rfl, rfl⟩
  | some pcb =>
    refine Or.inr ⟨pcb, rfl, ?_⟩
    dsimp only
    split
    · split
      · exact Or.inl ⟨_, rfl⟩
      · exact Or.inr (Or.inl rfl)
    · exact Or.inr (Or.inr rfl)

/-- `handle_client_eof` half-closes the remote connection, or aborts it and closes the session;
    without a pcb it closes the session. -/
theorem handleClientEof_cases (lw : Answers) (s : TcpRelaySession) :
    (s.pcb = none ∧ s.handleClientEof lw = { s with clientEof := true }.close lw) ∨
    ∃ pcb, s.pcb = some pcb ∧
      ((pcb.state.canShutdown = true ∧ lw.shutdown.1 = .ERR_OK ∧
        s.handleClientEof lw =
          (let t := { s with clientEof := true, pcb := some (halfClosed lw pcb),
                             trace := s.trace ++ [.tcpShutdown] }
           if s.remoteEof then t.close lw else t)) ∨
       ((pcb.state.canShutdown = false ∨ lw.shutdown.1 ≠ .ERR_OK) ∧ ∃ acts,
        (∀ a ∈ acts, a.piece = .conn) ∧ .tcpAbort ∈ acts ∧
        s.handleClientEof lw =
          { s with clientEof := true, pcb := none, activeSelf := false,
                   trace := s.trace ++ acts }.close lw)) := by
  unfold handleClientEof shutdownPcb
  cases hp : s.pcb with
  | none => exact Or.inl ⟨rfl, by simp⟩
  | some pcb =>
    refine Or.inr ⟨pcb, rfl, ?_⟩
    cases hst : pcb.state.canShutdown with
    | false =>
      refine Or.inr ⟨Or.inl rfl, [.tcpAbort], by simp [Action.piece], by simp, ?_⟩
      simp [hst, abortPcb, log]
    | true =>
      rcases hsh : lw.shutdown with ⟨err, queued⟩
      by_cases herr : err = .ERR_OK
      · subst herr
        refine Or.inl ⟨rfl, rfl, ?_⟩
        simp [hst, hsh, log, halfClosed]
      · refine Or.inr ⟨Or.inr herr, [.tcpShutdown, .tcpAbort], by simp [Action.piece],
          by simp, ?_⟩
        cases err <;> first | exact absurd rfl herr | simp [hst, abortPcb, log]

theorem severedActs_piece {a : Action}
    (ha : a ∈ (if s.closing then [] else [.shutdownSend]) ++ closeActs lw s.pcb) :
    a.piece = .conn := by
  rcases List.mem_append.mp ha with ha | ha
  · split at ha
    · cases ha
    · rw [List.mem_singleton.mp ha]
      rfl
  · exact closeActs_piece ha

/-- `on_err`: the pcb is gone and the session is closed. -/
theorem onErr_eq (s : TcpRelaySession) :
    s.onErr = { s with pcb := none, closing := true, activeSelf := false,
                       trace := s.trace ++ if s.closing then [] else [.socketClose] } := by
  cases h : s.closing <;> simp [onErr, closeClientOnly, log, h]

/-! ## From lwIP to the client -/

theorem onClientWrote_ok (lw : Answers) (s : TcpRelaySession) (buf : Bytes) :
    s.onClientWrote lw buf true =
      ({ s with writingClient := false }.popClient buf).creditDeferred.flushToClient := rfl

theorem onClientWrote_failed (lw : Answers) (s : TcpRelaySession) (buf : Bytes) :
    s.onClientWrote lw buf false = { s with writingClient := false }.close lw := rfl

/-- The response salt is there already, or is drawn and queued, or cannot be drawn. -/
theorem queueSalt_cases (P : Platform) (s : TcpRelaySession) (rng : Option Salt) :
    (s.sentResponseSalt = true ∧ s.queueSalt P rng = (.ok (), s)) ∨
    (s.sentResponseSalt = false ∧ (∃ e, s.crypto.clientSalt P.mbedtls rng = (.error e, s.crypto)) ∧
      ∃ e, s.queueSalt P rng = (.error e, s)) ∨
    ∃ (salt : Salt) (c : ShadowsocksAeadSession), s.sentResponseSalt = false ∧
      s.crypto.clientSalt P.mbedtls rng = (.ok salt.val, c) ∧ c.masterKey = s.crypto.masterKey ∧
      s.queueSalt P rng =
        (.ok (), { { s with crypto := c }.pushClient salt.val with sentResponseSalt := true }) := by
  unfold queueSalt
  by_cases hs : s.sentResponseSalt = true
  · rw [if_pos hs]
    exact Or.inl ⟨hs, rfl⟩
  · rw [if_neg hs]
    rw [Bool.not_eq_true] at hs
    rcases ShadowsocksAeadSession.clientSalt_cases (M := P.mbedtls) s.crypto rng with
      ⟨e, h⟩ | ⟨salt, key, -, -, h⟩ <;> rw [h]
    · exact Or.inr (Or.inl ⟨hs, ⟨e, rfl⟩, e, rfl⟩)
    · exact Or.inr (Or.inr ⟨salt, _, hs, rfl, rfl, rfl⟩)

/-- The data callback: the payload cannot be enqueued and the session is closed, or it is and its
    size is withheld or credited. -/
theorem onRecv_cases (P : Platform) (lw : Answers) (s : TcpRelaySession) (bytes : Bytes)
    (rng : Option Salt) :
    (∃ e t, (s.log (.received bytes)).enqueueClientPayload P rng bytes = (.error e, t) ∧
      s.onRecv P lw (some bytes) .ERR_OK rng = t.close lw) ∨
    ∃ t, (s.log (.received bytes)).enqueueClientPayload P rng bytes = (.ok (), t) ∧
      ((ClientQueueHighWater < t.clientQueueBytes ∧ s.onRecv P lw (some bytes) .ERR_OK rng =
          { t with deferredTcpRecved := t.deferredTcpRecved + bytes.length }) ∨
       (t.clientQueueBytes ≤ ClientQueueHighWater ∧
          s.onRecv P lw (some bytes) .ERR_OK rng = t.log (.tcpRecved bytes.length))) := by
  unfold onRecv
  rw [if_neg (by decide)]
  dsimp only
  rcases (s.log (.received bytes)).enqueueClientPayload P rng bytes with ⟨e | _, t⟩
  · exact Or.inl ⟨e, t, rfl, rfl⟩
  · refine Or.inr ⟨t, rfl, ?_⟩
    dsimp only
    split
    · next h => exact Or.inl ⟨h, rfl⟩
    · next h => exact Or.inr ⟨Nat.le_of_not_lt h, rfl⟩

end TcpRelaySession

end Ovpn2ss.Tcp
