/-
  What the members of the session leave alone, said once for each of them.

  `Frame W s s'` says that the way from `s` to `s'` worked on the pieces in `W` only: the others are
  as they were, and every new action in the trace belongs to one of `W`. Each member has one such
  lemma, and `fires_keeps` has the pieces of every event (`footprint`). What a proof needs to know
  about the rest of the session is then the question whether a piece is in a list, which
  `decide` answers.

  A step is work on the upstream pieces, or it is a data callback or the completion of a write,
  which touch the way to the client and can otherwise only close the session (`fires_direction`).
-/
import Ovpn2ss.Tcp.Effects

namespace Ovpn2ss.Tcp

open Ovpn2ss.Aead Ovpn2ss.Lib Ovpn2ss.Lwip
open Ovpn2ss.Aead.ShadowsocksAeadSession (OnlyReceived decryptTcpChunk_onlyReceived)

/-- The FIN of the remote side. -/
def Input.isFin (i : Input) : Bool :=
  match i.event with
  | .recv none .ERR_OK _ => true
  | _ => false

/-- What the downstream handlers own. -/
structure DownstreamView where
  pendingClient : List Bytes
  clientQueueBytes : Nat
  deferredTcpRecved : Nat
  sentResponseSalt : Bool
  writingClient : Bool
  writes : List Bytes
  sendKey : Key
  sendNonce : Nonce
  sentSalt : Bool

def TcpRelaySession.downstreamView (s : TcpRelaySession) : DownstreamView :=
  ⟨s.pendingClient, s.clientQueueBytes, s.deferredTcpRecved, s.sentResponseSalt, s.writingClient,
    s.writes, s.crypto.sendKey, s.crypto.sendNonce, s.crypto.sentSalt⟩

namespace Piece

/-- The values a piece can have. `accept` and `write` are known by their actions only. -/
def Content : Piece → Type
  | input => Bytes
  | cipher => Bool × Key × Nonce
  | masterKey => Key
  | salt | target | pause | clientEof | remoteEof => Bool
  | queue => List Bytes
  | accept | write => Unit
  | reads => Nat
  | aim => Option Nat
  | conn => Bool × Option TcpPcb × Bool
  | client => DownstreamView

def of (s : TcpRelaySession) : (p : Piece) → p.Content
  | input => s.encryptedIn
  | cipher => (s.crypto.haveRecvKey, s.crypto.recvKey, s.crypto.recvNonce)
  | masterKey => s.crypto.masterKey
  | salt => s.saltPending
  | target => s.gotTarget
  | queue => s.pendingLwip
  | accept | write => ()
  | pause => s.clientReadPaused
  | reads => s.reads
  | aim => s.resolving
  | clientEof => s.clientEof
  | remoteEof => s.remoteEof
  | conn => (s.closing, s.pcb, s.activeSelf)
  | client => s.downstreamView

end Piece

namespace TcpRelaySession

variable {P : Platform} {lw : Answers} {V W W' : List Piece} {s s' s'' : TcpRelaySession}

/-! ## Frames -/

/-- From `s` to `s'` only the pieces in `W` were worked on. A FIN stays noticed, and a closed
    session stays closed and starts no read. -/
structure Keeps (W : List Piece) (s s' : TcpRelaySession) : Prop where
  pieces : ∀ p ∉ W, p.of s' = p.of s
  trace : ∃ acts, s'.trace = s.trace ++ acts ∧ ∀ a ∈ acts, a.piece ∈ W
  fin : s.remoteEof = true → s'.remoteEof = true
  closed : s.closing = true → s'.closing = true ∧ s'.reads ≤ s.reads

theorem Keeps.refl (W : List Piece) (s : TcpRelaySession) : Keeps W s s :=
  ⟨fun _ _ => rfl, ⟨[], by simp, by simp⟩, id, fun h => ⟨h, le_rfl⟩⟩

theorem Keeps.mono (h : Keeps W s s') (hW : W ⊆ V) : Keeps V s s' := by
  obtain ⟨acts, ht, ha⟩ := h.trace
  exact ⟨fun p hp => h.pieces p fun hmem => hp (hW hmem), ⟨acts, ht, fun a hmem => hW (ha a hmem)⟩,
    h.fin, h.closed⟩

theorem Keeps.trans (h : Keeps W s s') (h' : Keeps W s' s'') : Keeps W s s'' := by
  obtain ⟨acts, ht, ha⟩ := h.trace
  obtain ⟨acts', ht', ha'⟩ := h'.trace
  refine ⟨fun p hp => (h'.pieces p hp).trans (h.pieces p hp), ⟨acts ++ acts', ?_, ?_⟩,
    h'.fin ∘ h.fin, fun hc => ?_⟩
  · rw [ht', ht, List.append_assoc]
  · intro a hmem
    exact (List.mem_append.mp hmem).elim (ha a) (ha' a)
  · obtain ⟨hc', hr⟩ := h.closed hc
    obtain ⟨hc'', hr'⟩ := h'.closed hc'
    exact ⟨hc'', hr'.trans hr⟩

theorem Keeps.conn (h : Keeps W s s') (hW : .conn ∉ W) :
    s'.closing = s.closing ∧ s'.pcb = s.pcb ∧ s'.activeSelf = s.activeSelf := by
  have hp : (s'.closing, s'.pcb, s'.activeSelf) = (s.closing, s.pcb, s.activeSelf) := h.pieces .conn hW
  simpa using hp

theorem Keeps.target (h : Keeps W s s') (hW : .target ∉ W) : s'.gotTarget = s.gotTarget :=
  h.pieces .target hW

theorem Keeps.grows (h : Keeps W s s') : s.trace <+: s'.trace := by
  obtain ⟨acts, ht, -⟩ := h.trace
  exact ⟨acts, ht.symm⟩

theorem Keeps.written (h : Keeps W s s') (hW : .write ∉ W) : written s'.trace = written s.trace := by
  obtain ⟨acts, ht, ha⟩ := h.trace
  have hnone : Tcp.written acts = [] := written_of_piece fun a hmem hw => hW (hw ▸ ha a hmem)
  rw [ht, written_append, hnone, List.append_nil]

theorem Keeps.accepted (h : Keeps W s s') (hW : .accept ∉ W) :
    accepted s'.trace = accepted s.trace := by
  obtain ⟨acts, ht, ha⟩ := h.trace
  have hnone : Tcp.accepted acts = [] := accepted_of_piece fun a hmem hw => hW (hw ▸ ha a hmem)
  rw [ht, accepted_append, hnone, List.append_nil]

/-- If `s'` is open and has no pcb, then `s` was so too, and nothing was written in between. -/
def Unconnected (s s' : TcpRelaySession) : Prop :=
  s'.closing = false → s'.pcb = none →
    s.closing = false ∧ s.pcb = none ∧ written s'.trace = written s.trace

theorem Unconnected.of_closing (h : s'.closing = true) : Unconnected s s' := by
  intro hc
  rw [h] at hc
  cases hc

theorem Unconnected.of_pcb {pcb : TcpPcb} (h : s'.pcb = some pcb) : Unconnected s s' := by
  intro _ hp
  rw [h] at hp
  cases hp

/-- Work that leaves an open session its pcb: whatever takes it away closes the session. -/
structure Frame (W : List Piece) (s s' : TcpRelaySession) : Prop extends Keeps W s s' where
  unconnected : Unconnected s s'

theorem Keeps.calm (h : Keeps W s s') (hc : .conn ∉ W) (hw : .write ∉ W) : Frame W s s' := by
  obtain ⟨hclosing, hpcb, -⟩ := h.conn hc
  exact ⟨h, fun hc hp => ⟨hclosing.symm.trans hc, hpcb.symm.trans hp, h.written hw⟩⟩

/-- An update of fields in `W`. -/
theorem Keeps.of_update (hp : ∀ p ∉ W, p.of s' = p.of s) (ht : s'.trace = s.trace)
    (hf : s.remoteEof = true → s'.remoteEof = true)
    (hc : s.closing = true → s'.closing = true) (hr : s'.reads ≤ s.reads) : Keeps W s s' :=
  ⟨hp, ⟨[], by rw [ht, List.append_nil], by simp⟩, hf, fun h => ⟨hc h, hr⟩⟩

/-- An update of fields in `W` that concerns neither the connection nor its writes. -/
theorem Frame.of_update (hp : ∀ p ∉ W, p.of s' = p.of s) (ht : s'.trace = s.trace)
    (hf : s.remoteEof = true → s'.remoteEof = true) (hr : s'.reads ≤ s.reads)
    (hc : .conn ∉ W) (hw : .write ∉ W) : Frame W s s' := by
  have hconn : (s'.closing, s'.pcb, s'.activeSelf) = (s.closing, s.pcb, s.activeSelf) := hp .conn hc
  exact (Keeps.of_update hp ht hf (fun h => (congrArg (·.1) hconn).trans h) hr).calm hc hw

theorem Frame.refl (W : List Piece) (s : TcpRelaySession) : Frame W s s :=
  ⟨.refl W s, fun hc hp => ⟨hc, hp, rfl⟩⟩

theorem Frame.mono (h : Frame W s s') (hW : W ⊆ V) : Frame V s s' :=
  ⟨h.toKeeps.mono hW, h.unconnected⟩

theorem Frame.trans (h : Frame W s s') (h' : Frame W s' s'') : Frame W s s'' := by
  refine ⟨h.toKeeps.trans h'.toKeeps, fun hc hp => ?_⟩
  obtain ⟨hc', hp', hw'⟩ := h'.unconnected hc hp
  obtain ⟨hc, hp, hw⟩ := h.unconnected hc' hp'
  exact ⟨hc, hp, hw'.trans hw⟩

/-- Work on `W` and then on `W'`. -/
theorem Frame.andThen (h : Frame W s s') (h' : Frame W' s' s'') (hW : W ⊆ V) (hW' : W' ⊆ V) :
    Frame V s s'' :=
  (h.mono hW).trans (h'.mono hW')

/-! ## Closing, reading and flushing -/

theorem close_frame (lw : Answers) (s : TcpRelaySession) : Frame [.conn] s (s.close lw) := by
  refine ⟨?_, .of_closing (close_closing lw s)⟩
  cases h : s.closing with
  | true =>
    rw [close_of_closing h]
    exact .refl _ s
  | false =>
    rw [close_of_open h]
    refine ⟨fun p hp => by cases p <;> first | rfl | exact absurd (by decide) hp, ⟨_, rfl, ?_⟩, id,
      fun _ => ⟨rfl, le_rfl⟩⟩
    intro a ha
    rcases List.mem_cons.mp ha with rfl | ha
    · decide
    · rw [closeActs_piece ha]
      decide

/-- Work that ends with a close; nothing else about the connection matters then. -/
theorem Keeps.close (h : Keeps W s s') (hW : .conn ∈ W) (lw : Answers) : Frame W s (s'.close lw) :=
  ⟨h.trans ((close_frame lw s').toKeeps.mono (List.cons_subset.mpr ⟨hW, List.nil_subset _⟩)),
    .of_closing (close_closing lw s')⟩

theorem readEncryptedStream_frame (s : TcpRelaySession) : Frame [.reads] s s.readEncryptedStream := by
  by_cases hheld : s.closing = true ∨ s.clientReadPaused = true
  · rw [readEncryptedStream_of_held hheld]
    exact .refl _ s
  · rw [not_or, Bool.not_eq_true, Bool.not_eq_true] at hheld
    rw [readEncryptedStream_of_open hheld.1 hheld.2]
    refine Keeps.calm ⟨fun p hp => by cases p <;> first | rfl | exact absurd (by decide) hp,
      ⟨_, rfl, by simp [Action.piece]⟩, id, fun hc => ?_⟩ (by decide) (by decide)
    rw [hheld.1] at hc
    cases hc

theorem flushed_frame (s : TcpRelaySession) (pcb : TcpPcb) (sent rest : List Bytes) :
    Frame [.queue, .write, .conn] s (s.flushed pcb sent rest) := by
  refine ⟨⟨fun p hp => by cases p <;> first | rfl | exact absurd (by decide) hp, ⟨_, rfl, ?_⟩, id,
    fun hc => ⟨hc, le_rfl⟩⟩, .of_pcb rfl⟩
  intro a ha
  obtain ⟨data, -, rfl⟩ := List.mem_map.mp ha
  simp [Action.piece]

theorem flushToLwip_frame (lw : Answers) (s : TcpRelaySession) :
    Frame [.queue, .write, .pause, .conn] s (s.flushToLwip lw) := by
  rcases flushToLwip_cases lw s with
    ⟨-, he⟩ | ⟨pcb, pcb', sent, rest, -, -, -, ⟨-, he⟩ | ⟨-, he⟩ | ⟨-, he⟩⟩ <;> rw [he]
  · exact .refl _ s
  · exact (flushed_frame s pcb' sent []).mono (by decide)
  · have hpause (t : TcpRelaySession) : Frame [.pause] t { t with clientReadPaused := true } :=
      .of_update (fun p hp => by cases p <;> first | rfl | exact absurd (by decide) hp)
        rfl id le_rfl (by decide) (by decide)
    exact (flushed_frame s pcb' sent rest).andThen (hpause _) (by decide) (by decide)
  · exact ((flushed_frame s pcb' sent rest).toKeeps.mono (by decide)).close (by decide) lw

/-- How the read handler and a resume end. -/
theorem flushRead_frame (lw : Answers) (s : TcpRelaySession) :
    Frame [.queue, .write, .pause, .reads, .conn] s (s.flushToLwip lw).readEncryptedStream :=
  (flushToLwip_frame lw s).andThen (readEncryptedStream_frame _) (by decide) (by decide)

theorem maybeResumeClientRead_frame (lw : Answers) (s : TcpRelaySession) :
    Frame [.queue, .write, .pause, .reads, .conn] s (s.maybeResumeClientRead lw) := by
  rcases maybeResumeClientRead_cases lw s with he | ⟨pcb, -, -, -, he⟩ <;> rw [he]
  · exact .refl _ s
  · have hgo : Frame [.pause] s { s with clientReadPaused := false } :=
      .of_update (fun p hp => by cases p <;> first | rfl | exact absurd (by decide) hp)
        rfl id le_rfl (by decide) (by decide)
    exact hgo.andThen (flushRead_frame lw _) (by decide) (by decide)

/-! ## From the client to lwIP -/

theorem connectIp_frame (lw : Answers) (s : TcpRelaySession) (ip : IpAddr) (port : Nat) :
    Frame [.aim, .conn] s (s.connectIp lw ip port) := by
  have hcon (pcb : TcpPcb) : Keeps [.aim, .conn] s
      { s with pcb := some pcb, activeSelf := true, trace := s.trace ++ [.tcpConnect ip port] } :=
    ⟨fun p hp => by cases p <;> first | rfl | exact absurd (by decide) hp,
      ⟨_, rfl, by simp [Action.piece]⟩, id, fun hc => ⟨hc, le_rfl⟩⟩
  rcases connectIp_cases lw s ip port with he | he | he <;> rw [he]
  · exact ⟨hcon synSent, .of_pcb rfl⟩
  · exact (hcon tcpNew).close (by decide) lw
  · have hnone : Keeps [.aim, .conn] s { s with pcb := none } :=
      .of_update (fun p hp => by cases p <;> first | rfl | exact absurd (by decide) hp) rfl id id le_rfl
    exact hnone.close (by decide) lw

theorem connectTarget_frame (P : Platform) (lw : Answers) (s : TcpRelaySession)
    (target : TargetAddress) : Frame [.aim, .conn] s (s.connectTarget P lw target).2 := by
  refine connectTarget_inv (Frame [.aim, .conn] s) ?_ (connectIp_frame lw s) (.refl _ s) target
  intro host port
  have hasked : Frame [.aim] s { s with resolving := some port,
                                        trace := s.trace ++ [.asyncResolve host port] } :=
    Keeps.calm ⟨fun p hp => by cases p <;> first | rfl | exact absurd (by decide) hp,
      ⟨_, rfl, by simp [Action.piece]⟩, id, fun hc => ⟨hc, le_rfl⟩⟩ (by decide) (by decide)
  exact hasked.mono (by decide)

theorem queueLwip_frame (s : TcpRelaySession) (bytes : Bytes) :
    Frame [.queue, .accept] s (s.queueLwip bytes) := by
  unfold queueLwip
  split
  · exact .refl _ s
  · exact Keeps.calm ⟨fun p hp => by cases p <;> first | rfl | exact absurd (by decide) hp,
      ⟨_, rfl, by simp [Action.piece]⟩, id, fun hc => ⟨hc, le_rfl⟩⟩ (by decide) (by decide)

theorem processDecryptedChunk_frame (P : Platform) (lw : Answers) (s : TcpRelaySession)
    (chunk : Bytes) :
    Frame [.target, .aim, .queue, .accept, .conn] s (s.processDecryptedChunk P lw chunk).2 := by
  have hgot : Frame [.target] s { s with gotTarget := true } :=
    .of_update (fun p hp => by cases p <;> first | rfl | exact absurd (by decide) hp)
      rfl id le_rfl (by decide) (by decide)
  refine processDecryptedChunk_inv (Frame _ s) ?_ ((close_frame lw s).mono (by decide)) ?_ (.refl _ s)
  · intro t bytes _ ht
    exact ht.trans ((queueLwip_frame t bytes).mono (by decide))
  · intro _ target
    exact hgot.andThen (connectTarget_frame P lw _ target) (by decide) (by decide)

theorem onlyReceived_frame {c : ShadowsocksAeadSession} (h : OnlyReceived s.crypto c) :
    Frame [.cipher] s { s with crypto := c } := by
  rw [OnlyReceived] at h
  rw [h]
  exact .of_update (fun p hp => by cases p <;> first | rfl | exact absurd (by decide) hp)
    rfl id le_rfl (by decide) (by decide)

theorem readChunk_frame (P : Platform) (lw : Answers) (s : TcpRelaySession) (view : Bytes) :
    Frame [.cipher, .target, .aim, .queue, .accept, .conn] s (readChunk P lw s view).2.1 := by
  have hrecv := decryptTcpChunk_onlyReceived (M := P.mbedtls) s.crypto view
  unfold readChunk
  split
  · rename_i h
    rw [h] at hrecv
    exact (onlyReceived_frame hrecv).mono (by decide)
  · rename_i h
    rw [h] at hrecv
    exact (onlyReceived_frame hrecv).mono (by decide)
  · rename_i chunk c view' h
    rw [h] at hrecv
    have hc := (onlyReceived_frame hrecv).andThen
      (processDecryptedChunk_frame P lw { s with crypto := c } chunk)
      (V := [.cipher, .target, .aim, .queue, .accept, .conn]) (by decide) (by decide)
    split
    · rename_i h
      rwa [h] at hc
    · rename_i h
      rwa [h] at hc

theorem input_frame (s : TcpRelaySession) (input : Bytes) :
    Frame [.input] s { s with encryptedIn := input } :=
  .of_update (fun p hp => by cases p <;> first | rfl | exact absurd (by decide) hp)
    rfl id le_rfl (by decide) (by decide)

theorem onClientData_frame (P : Platform) (lw : Answers) (s : TcpRelaySession) (bytes : Bytes) :
    Frame [.input, .cipher, .target, .aim, .queue, .accept, .write, .pause, .reads, .conn] s
      (s.onClientData P lw bytes) := by
  have hloop := drain_trans (Frame [.cipher, .target, .aim, .queue, .accept, .conn]) (.refl _)
    (fun _ _ _ => .trans) (readChunk_frame P lw) ((s.encryptedIn ++ bytes).length + 1)
    { s with encryptedIn := s.encryptedIn ++ bytes } (s.encryptedIn ++ bytes)
  have hread := (input_frame s (s.encryptedIn ++ bytes)).andThen hloop
    (V := [.input, .cipher, .target, .aim, .queue, .accept, .conn]) (by decide) (by decide)
  unfold onClientData endRead drainAll
  dsimp only
  generalize drain (readChunk P lw) _ _ _ = d at hread ⊢
  split
  · exact (hread.toKeeps.close (by decide) lw).mono (by decide)
  · refine Frame.andThen ?_ (flushRead_frame lw _) (W := [.input, .cipher, .target, .aim, .queue,
      .accept, .conn]) (by decide) (by decide)
    split
    · exact hread.andThen (input_frame _ _) (by decide) (by decide)
    · exact hread

theorem onSaltRead_frame (P : Platform) (lw : Answers) (s : TcpRelaySession) (salt : Option Salt) :
    Frame [.cipher, .reads, .conn] s (s.onSaltRead P lw salt) := by
  rcases onSaltRead_cases P lw s salt with he | ⟨key, he⟩ <;> rw [he]
  · exact (close_frame lw s).mono (by decide)
  · have hkey : Frame [.cipher] s (s.keyed key) :=
      .of_update (fun p hp => by cases p <;> first | rfl | exact absurd (by decide) hp)
        rfl id le_rfl (by decide) (by decide)
    exact hkey.andThen (readEncryptedStream_frame _) (by decide) (by decide)

/-! ## The other callbacks -/

theorem handleClientEof_frame (lw : Answers) (s : TcpRelaySession) :
    Frame [.clientEof, .conn] s (s.handleClientEof lw) := by
  rcases handleClientEof_cases lw s with
    ⟨-, he⟩ | ⟨pcb, -, ⟨-, -, he⟩ | ⟨-, acts, hacts, -, he⟩⟩ <;> rw [he]
  · have heof : Keeps [.clientEof, .conn] s { s with clientEof := true } :=
      .of_update (fun p hp => by cases p <;> first | rfl | exact absurd (by decide) hp) rfl id id le_rfl
    exact heof.close (by decide) lw
  · have hshut : Keeps [.clientEof, .conn] s
        { s with clientEof := true, pcb := some (halfClosed lw pcb),
                 trace := s.trace ++ [.tcpShutdown] } :=
      ⟨fun p hp => by cases p <;> first | rfl | exact absurd (by decide) hp,
        ⟨_, rfl, by simp [Action.piece]⟩, id, fun hc => ⟨hc, le_rfl⟩⟩
    dsimp only
    split
    · exact hshut.close (by decide) lw
    · exact ⟨hshut, .of_pcb rfl⟩
  · have habort : Keeps [.clientEof, .conn] s
        { s with clientEof := true, pcb := none, activeSelf := false, trace := s.trace ++ acts } :=
      ⟨fun p hp => by cases p <;> first | rfl | exact absurd (by decide) hp,
        ⟨_, rfl, fun a ha => by rw [hacts a ha]; decide⟩, id, fun hc => ⟨hc, le_rfl⟩⟩
    exact habort.close (by decide) lw

theorem severed_keeps (lw : Answers) (s : TcpRelaySession) :
    Keeps [.remoteEof, .conn] s (s.severed lw) :=
  ⟨fun p hp => by cases p <;> first | rfl | exact absurd (by decide) hp,
    ⟨_, rfl, fun a ha => by rw [severedActs_piece ha]; decide⟩, fun _ => rfl, fun hc => ⟨hc, le_rfl⟩⟩

/-- The one handler that can leave an open session without its pcb. -/
theorem handleRemoteFin_keeps (lw : Answers) {pcb : TcpPcb} (h : s.pcb = some pcb) :
    Keeps [.remoteEof, .conn] s (s.handleRemoteFin lw) := by
  rw [handleRemoteFin_eq h]
  split
  · exact ((severed_keeps lw s).close (by decide) lw).toKeeps
  · exact severed_keeps lw s

theorem onErr_frame (s : TcpRelaySession) : Frame [.conn] s s.onErr := by
  rw [onErr_eq]
  refine ⟨⟨fun p hp => by cases p <;> first | rfl | exact absurd (by decide) hp, ⟨_, rfl, ?_⟩, id,
    fun _ => ⟨rfl, le_rfl⟩⟩, .of_closing rfl⟩
  intro a ha
  split at ha
  · cases ha
  · rw [List.mem_singleton.mp ha]
    decide

theorem onResolved_frame (lw : Answers) (s : TcpRelaySession) (err : ErrT) (ip : Option IpAddr)
    (port : Nat) : Frame [.aim, .conn] s (s.onResolved lw err ip port) :=
  onResolved_inv (Frame _ s) ((close_frame lw s).mono (by decide)) fun _ ip =>
    connectIp_frame lw s ip port

theorem onConnected_frame (lw : Answers) (s : TcpRelaySession) (err : ErrT) :
    Frame [.queue, .write, .pause, .conn] s (s.onConnected lw err) :=
  onConnected_inv (Frame _ s) ((close_frame lw s).mono (by decide)) (flushToLwip_frame lw s)

/-! ## From lwIP to the client -/

theorem flushToClient_frame (s : TcpRelaySession) : Keeps [.client] s s.flushToClient := by
  unfold flushToClient
  split
  · exact .refl _ s
  · split
    · exact .refl _ s
    · exact ⟨fun p hp => by cases p <;> first | rfl | exact absurd (by decide) hp,
        ⟨_, rfl, by simp [Action.piece]⟩, id, fun hc => ⟨hc, le_rfl⟩⟩

theorem creditDeferred_frame (s : TcpRelaySession) : Keeps [.client] s s.creditDeferred := by
  unfold creditDeferred
  split
  · refine ⟨fun p hp => by cases p <;> first | rfl | exact absurd (by decide) hp, ⟨_, rfl, ?_⟩, id,
      fun hc => ⟨hc, le_rfl⟩⟩
    intro a ha
    obtain ⟨n, -, rfl⟩ := List.mem_map.mp ha
    simp [Action.piece]
  · exact .refl _ s

/-- The handler of a write up to `flush_to_client`, if there is no error code. -/
theorem popClient_frame (s : TcpRelaySession) (buf : Bytes) :
    Keeps [.client] s ({ s with writingClient := false }.popClient buf) :=
  ⟨fun p hp => by cases p <;> first | rfl | exact absurd (by decide) hp,
    ⟨_, rfl, by simp [Action.piece]⟩, id, fun hc => ⟨hc, le_rfl⟩⟩

/-- `client_salt` leaves the receiving half of the cipher alone. -/
theorem queueSalt_frame (P : Platform) (s : TcpRelaySession) (rng : Option Salt) :
    Keeps [.client] s (s.queueSalt P rng).2 := by
  unfold queueSalt
  split
  · exact .refl _ s
  · rcases ShadowsocksAeadSession.clientSalt_cases (M := P.mbedtls) s.crypto rng with
      ⟨e, h⟩ | ⟨salt, key, -, -, h⟩ <;> rw [h]
    · exact .refl _ s
    · exact .of_update (fun p hp => by cases p <;> first | rfl | exact absurd (by decide) hp)
        rfl id id le_rfl

/-- So does `encrypt_tcp_chunk`. -/
theorem encrypted_frame (M : Mbedtls) (s : TcpRelaySession) (bytes : Bytes) :
    Keeps [.client] s { s with crypto := (s.crypto.encryptTcpChunk M bytes).2 } := by
  rcases ShadowsocksAeadSession.encryptTcpChunk_state (M := M) s.crypto bytes with
    h | ⟨lc, lt, h⟩ | ⟨lc, lt, pc, pt, h⟩ <;> rw [h] <;>
    exact .of_update (fun p hp => by cases p <;> first | rfl | exact absurd (by decide) hp)
      rfl id id le_rfl

theorem enqueueClientPayload_frame (P : Platform) (s : TcpRelaySession) (rng : Option Salt)
    (bytes : Bytes) : Keeps [.client] s (s.enqueueClientPayload P rng bytes).2 := by
  have hsalt := queueSalt_frame P s rng
  unfold enqueueClientPayload
  split
  · exact .refl _ s
  · rcases hq : s.queueSalt P rng with ⟨e | _, t⟩
    · rwa [hq] at hsalt
    · rw [hq] at hsalt
      have henc := hsalt.trans (encrypted_frame P.mbedtls t bytes)
      dsimp only
      rcases he : t.crypto.encryptTcpChunk P.mbedtls bytes with ⟨e | encrypted, c⟩ <;> rw [he] at henc
      · exact henc
      · have hpush : Keeps [.client] { t with crypto := c } ({ t with crypto := c }.pushClient encrypted) :=
          .of_update (fun p hp => by cases p <;> first | rfl | exact absurd (by decide) hp)
            rfl id id le_rfl
        exact (henc.trans hpush).trans (flushToClient_frame _)

/-! ## The two directions -/

/-- `s'` comes from `s` by upstream work: the way to the client is untouched. -/
structure Upstream (s s' : TcpRelaySession) : Prop where
  view : s'.downstreamView = s.downstreamView
  closing : s.closing = true → s'.closing = true
  trace : ∃ acts, s'.trace = s.trace ++ acts ∧ ∀ a ∈ acts, a.piece ≠ .client

theorem Keeps.upstream (h : Keeps W s s') (hW : .client ∉ W) : Upstream s s' := by
  obtain ⟨acts, ht, ha⟩ := h.trace
  exact ⟨h.pieces .client hW, fun hc => (h.closed hc).1, acts, ht,
    fun a hmem hp => hW (hp ▸ ha a hmem)⟩

/-- `s'` comes from `s` by downstream work: only the way to the client is touched, unless the
    session was closed. -/
structure Downstream (s s' : TcpRelaySession) : Prop where
  keeps : Keeps [.client, .conn] s s'
  conn : Keeps [.client] s s' ∨ (s'.closing = true ∧ s'.pcb = none ∧ s'.activeSelf = false)

theorem Keeps.downstream (h : Keeps [.client] s s') : Downstream s s' :=
  ⟨h.mono (by decide), Or.inl h⟩

theorem Downstream.trans (h : Downstream s s') (h' : Downstream s' s'') : Downstream s s'' := by
  refine ⟨h.keeps.trans h'.keeps, ?_⟩
  rcases h'.conn with hk' | hclosed
  · rcases h.conn with hk | ⟨hc, hp, ha⟩
    · exact Or.inl (hk.trans hk')
    · obtain ⟨hc', hp', ha'⟩ := hk'.conn (by decide)
      exact Or.inr ⟨hc'.trans hc, hp'.trans hp, ha'.trans ha⟩
  · exact Or.inr hclosed

theorem Downstream.closing_or_same (h : Downstream s s') :
    (s'.closing = s.closing ∧ s'.pcb = s.pcb ∧ s'.activeSelf = s.activeSelf) ∨
      (s'.closing = true ∧ s'.pcb = none ∧ s'.activeSelf = false) :=
  h.conn.imp_left fun hk => hk.conn (by decide)

theorem Downstream.of_open (h : Downstream s s') (hc : s'.closing = false) : Keeps [.client] s s' := by
  rcases h.conn with hk | ⟨hc', -⟩
  · exact hk
  · rw [hc] at hc'
    cases hc'

theorem Downstream.frame (h : Downstream s s') : Frame [.client, .conn] s s' := by
  refine ⟨h.keeps, fun hc => ?_⟩
  exact ((h.of_open hc).calm (by decide) (by decide)).unconnected hc

theorem close_downstream (lw : Answers) (s : TcpRelaySession) : Downstream s (s.close lw) := by
  refine ⟨(close_frame lw s).toKeeps.mono (by decide), ?_⟩
  cases h : s.closing with
  | true =>
    rw [close_of_closing h]
    exact Or.inl (.refl _ s)
  | false =>
    rw [close_of_open h]
    exact Or.inr ⟨rfl, rfl, rfl⟩

theorem onClientWrote_downstream (lw : Answers) (s : TcpRelaySession) (buf : Bytes) (ok : Bool) :
    Downstream s (s.onClientWrote lw buf ok) := by
  cases ok with
  | false =>
    have hidle : Keeps [.client] s { s with writingClient := false } :=
      .of_update (fun p hp => by cases p <;> first | rfl | exact absurd (by decide) hp) rfl id id le_rfl
    exact hidle.downstream.trans (close_downstream lw _)
  | true =>
    exact ((popClient_frame s buf).trans ((creditDeferred_frame _).trans
      (flushToClient_frame _))).downstream

theorem onRecv_downstream (P : Platform) (lw : Answers) (s : TcpRelaySession) (bytes : Bytes)
    (rng : Option Salt) : Downstream s (s.onRecv P lw (some bytes) .ERR_OK rng) := by
  have hlog (t : TcpRelaySession) (a : Action) (ha : a.piece = .client) : Keeps [.client] t (t.log a) :=
    ⟨fun p _ => by cases p <;> rfl,
      ⟨_, rfl, by simp [ha]⟩, id, fun hc => ⟨hc, le_rfl⟩⟩
  have henq := (hlog s (.received bytes) rfl).trans
    (enqueueClientPayload_frame P (s.log (.received bytes)) rng bytes)
  rcases onRecv_cases P lw s bytes rng with ⟨e, t, h, he⟩ | ⟨t, h, ⟨-, he⟩ | ⟨-, he⟩⟩ <;>
    rw [h] at henq <;> rw [he]
  · exact henq.downstream.trans (close_downstream lw t)
  · have hdefer : Keeps [.client] t { t with deferredTcpRecved := t.deferredTcpRecved + bytes.length } :=
      .of_update (fun p hp => by cases p <;> first | rfl | exact absurd (by decide) hp) rfl id id le_rfl
    exact (henq.trans hdefer).downstream
  · exact (henq.trans (hlog t (.tcpRecved bytes.length) rfl)).downstream

/-! ## A step -/

/-- The pieces an event works on. -/
def footprint : Event → List Piece
  | .saltRead _ => [.salt, .cipher, .reads, .conn]
  | .clientRead (.data _) =>
    [.input, .cipher, .target, .aim, .queue, .accept, .write, .pause, .reads, .conn]
  | .clientRead _ => [.reads, .clientEof, .conn]
  | .clientWrote _ => [.client, .conn]
  | .resolved _ _ => [.aim, .conn]
  | .connected _ _ | .sent _ _ => [.queue, .write, .pause, .reads, .conn]
  | .recv (some _) .ERR_OK _ => [.client, .conn]
  | .recv _ _ _ => [.remoteEof, .conn]
  | .err _ => [.conn]

/-- No event writes the master key. -/
theorem masterKey_notMem_footprint (e : Event) : .masterKey ∉ footprint e := by
  unfold footprint
  split <;> simp

/-- The read that has completed is no longer outstanding. -/
theorem readDone_frame (s : TcpRelaySession) : Frame [.reads] s { s with reads := s.reads - 1 } :=
  .of_update (fun p hp => by cases p <;> first | rfl | exact absurd (by decide) hp)
    rfl id (Nat.sub_le _ _) (by decide) (by decide)

/-- What lwIP did to the pcb before its callback. -/
theorem pcb_frame (s : TcpRelaySession) (pcb : TcpPcb) : Frame [.conn] s { s with pcb := some pcb } :=
  ⟨.of_update (fun p hp => by cases p <;> first | rfl | exact absurd (by decide) hp) rfl id id le_rfl,
    .of_pcb rfl⟩

theorem resolvingDone_frame (s : TcpRelaySession) : Frame [.aim] s { s with resolving := none } :=
  .of_update (fun p hp => by cases p <;> first | rfl | exact absurd (by decide) hp)
    rfl id le_rfl (by decide) (by decide)

theorem recvError_footprint {p : Option Bytes} {err : ErrT} (h : err ≠ .ERR_OK) (rng : Option Salt) :
    .conn ∈ footprint (.recv p err rng) := by
  cases p <;> cases err <;> first | exact absurd rfl h | simp [footprint]

/-- A step works on its footprint, and only a FIN takes the pcb of a session that stays open. -/
theorem fires_keeps {i : Input} (h : Fires P s i s') :
    Keeps (footprint i.event) s s' ∧ (i.isFin = false → Frame (footprint i.event) s s') := by
  have hframe (h : Frame (footprint i.event) s s') :
      Keeps (footprint i.event) s s' ∧ (i.isFin = false → Frame (footprint i.event) s s') :=
    ⟨h.toKeeps, fun _ => h⟩
  cases h with
  | @saltRead _ salt =>
    have hsalt : Frame [.salt] s { s with saltPending := false } :=
      .of_update (fun p hp => by cases p <;> first | rfl | exact absurd (by decide) hp)
        rfl id le_rfl (by decide) (by decide)
    refine hframe (hsalt.andThen (onSaltRead_frame P _ _ salt) ?_ ?_) <;> simp [footprint]
  | clientData =>
    refine hframe ((readDone_frame s).andThen (onClientData_frame P _ _ _) ?_ ?_) <;> simp [footprint]
  | clientEof _ hr =>
    rcases hr with rfl | rfl <;>
      refine hframe ((readDone_frame s).andThen (handleClientEof_frame _ _) ?_ ?_) <;> simp [footprint]
  | clientError =>
    refine hframe ((readDone_frame s).andThen (close_frame _ _) ?_ ?_) <;> simp [footprint]
  | @clientWrote lw ok buf writes =>
    have hpop : Keeps [.client] s { s with writes := writes } :=
      .of_update (fun p hp => by cases p <;> first | rfl | exact absurd (by decide) hp) rfl id id le_rfl
    exact hframe (hpop.downstream.trans (onClientWrote_downstream lw _ buf ok)).frame
  | resolved =>
    refine hframe ((resolvingDone_frame s).andThen (onResolved_frame _ _ _ _ _) ?_ ?_) <;>
      simp [footprint]
  | unheard => exact hframe ((resolvingDone_frame s).mono (by simp [footprint]))
  | connected =>
    refine hframe ((pcb_frame s _).andThen (onConnected_frame _ _ _) ?_ ?_) <;> simp [footprint]
  | @recvError lw p err rng _ _ herr =>
    refine hframe ((close_frame lw s).mono ?_)
    exact List.cons_subset.mpr ⟨recvError_footprint herr rng, List.nil_subset _⟩
  | remoteFin hp => exact ⟨handleRemoteFin_keeps _ hp, fun hfin => (by cases hfin)⟩
  | @recvData lw bytes rng => exact hframe (onRecv_downstream P lw s bytes rng).frame
  | sent =>
    refine hframe ((pcb_frame s _).andThen (maybeResumeClientRead_frame _ _) ?_ ?_) <;> simp [footprint]
  | err => exact hframe (onErr_frame s)

/-- A step is upstream work, or it is a data callback, which needs a pcb, or the completion of
    the oldest write. -/
theorem fires_direction {i : Input} (h : Fires P s i s') :
    (i.isData = false ∧ i.isWriteDone = false ∧ Upstream s s') ∨
      (s.pcb ≠ none ∧ ∃ bytes rng, i.event = .recv (some bytes) .ERR_OK rng ∧
        0 < bytes.length ∧ s' = s.onRecv P i.lw (some bytes) .ERR_OK rng) ∨
      ∃ buf writes ok, s.writes = buf :: writes ∧ i.event = .clientWrote ok ∧
        s' = { s with writes := writes }.onClientWrote i.lw buf ok := by
  have hkeeps := (fires_keeps h).1
  cases h with
  | clientWrote h => exact Or.inr (Or.inr ⟨_, _, _, h, rfl, rfl⟩)
  | recvData h _ h0 => exact Or.inr (Or.inl ⟨by simp [h], _, _, rfl, h0, rfl⟩)
  | clientEof _ hr =>
    rcases hr with rfl | rfl <;> exact Or.inl ⟨rfl, rfl, hkeeps.upstream (by simp [footprint])⟩
  | @recvError lw p err rng _ _ herr =>
    refine Or.inl ⟨?_, rfl, (close_frame lw s).toKeeps.upstream (by decide)⟩
    cases p with
    | none => rfl
    | some bytes => cases err <;> first | rfl | exact absurd rfl herr
  | _ => exact Or.inl ⟨rfl, rfl, hkeeps.upstream (by simp [footprint])⟩

/-- A session that is open has been open. -/
theorem open_of_step {i : Input} (hs : s.step P i = some s') (hopen : s'.closing = false) :
    s.closing = false := by
  cases hc : s.closing with
  | false => rfl
  | true =>
    have hclosed := ((fires_keeps (fires_of_step hs)).1.closed hc).1
    exact absurd hclosed (Bool.eq_false_iff.mp hopen)

end TcpRelaySession

end Ovpn2ss.Tcp
