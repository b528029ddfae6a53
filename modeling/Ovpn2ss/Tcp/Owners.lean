/-
  Who keeps a session alive while a callback runs.

  A session is owned by `active_self_` and by the handlers of its reads and writes, which hold
  `self`; the handler of `async_resolve` locks its weak pointer. lwIP's callbacks hold a raw
  pointer, so once `release_active_self` has run nothing but those handlers keeps the session.
  The operations of each callback are listed in the order of the source, as far as they matter:
  which member is accessed, and where `active_self_` is released.

  Two callbacks still access the session after the release: `handle_remote_fin` reads
  `client_eof_`, and `maybe_resume_client_read` goes on to `read_encrypted_stream`, which reads
  `closing_`, when `flush_to_lwip` has closed the session. With no read and no write of the client
  outstanding that is an access to a session that is gone, and there is no other
  (`last_owner_iff`). A completion is never concerned: its own handler is an owner until it returns.
-/
import Ovpn2ss.Tcp.Client

namespace Ovpn2ss.Tcp

open Ovpn2ss.Aead Ovpn2ss.Lib Ovpn2ss.Lwip

/-! ## Owners -/

inductive Owner where
  | activeSelf
  | saltHandler
  | readHandler
  | writeHandler
  /-- The handler of `async_resolve`, behind `weak.lock()`. -/
  | resolveHandler
  deriving DecidableEq

/-! ## Operations -/

/-- The members the callbacks access. -/
inductive Member where
  | lwip
  | socket
  | crypto
  | pcb
  | pendingLwip
  | pendingClient
  | clientQueueBytes
  | deferredTcpRecved
  | sentResponseSalt
  | clientReadPaused
  | writingClient
  | clientEof
  | remoteEof
  | closing

inductive Op where
  | access (member : Member)
  /-- `release_active_self`. -/
  | release

def Op.isAccess : Op → Bool
  | .access _ => true
  | .release => false

/-- Something is accessed behind the first release. -/
def usesAfterRelease : List Op → Bool
  | [] => false
  | .access _ :: ops => usesAfterRelease ops
  | .release :: ops => ops.any (·.isAccess)

namespace TcpRelaySession

variable {P : Platform} {lw : Answers} {s s' : TcpRelaySession}

/-- The handlers that hold `self`. -/
def handlers (s : TcpRelaySession) : List Owner :=
  (if s.saltPending then [.saltHandler] else []) ++ List.replicate s.reads .readHandler ++
    s.writes.map fun _ => .writeHandler

def owners (s : TcpRelaySession) : List Owner :=
  (if s.activeSelf then [.activeSelf] else []) ++ s.handlers

/-- The owners besides `active_self_` while the handler or callback of an event runs. -/
def others (s : TcpRelaySession) : Event → List Owner
  | .resolved _ _ => .resolveHandler :: s.handlers
  | _ => s.handlers

theorem handlers_eq_nil : s.handlers = [] ↔ s.saltPending = false ∧ s.reads = 0 ∧ s.writes = [] := by
  simp [handlers]

/-- The pointer of the resolve handler can be locked as long as there is an owner. -/
theorem alive_iff_owners : s.alive = true ↔ s.owners ≠ [] := by
  unfold alive owners
  rw [ne_eq, List.append_eq_nil_iff, handlers_eq_nil]
  cases s.activeSelf <;> cases s.saltPending <;> cases s.writes <;> simp [Nat.pos_iff_ne_zero]

/-! ## The operations of the callbacks -/

def closeOps (s : TcpRelaySession) : List Op :=
  .access .closing ::
    if s.closing then []
    else
      [.access .closing, .access .socket, .access .pcb] ++
        (if s.pcb.isSome then [.access .lwip, .access .pcb] else []) ++ [.release]

def closeClientOnlyOps (s : TcpRelaySession) : List Op :=
  .access .closing :: (if s.closing then [] else [.access .closing, .access .socket]) ++ [.release]

def flushToLwipOps (lw : Answers) (s : TcpRelaySession) : List Op :=
  .access .pcb ::
    match s.pcb with
    | none => []
    | some pcb =>
      let f := flushLoop lw s.pendingLwip pcb
      [.access .lwip, .access .pendingLwip, .access .pcb] ++
        match f.stop with
        | .drained => [.access .pcb]
        | .paused => [.access .clientReadPaused, .access .pcb]
        | .failed => closeOps { s with pcb := some f.pcb, pendingLwip := f.rest }

def readEncryptedStreamOps (s : TcpRelaySession) : List Op :=
  .access .closing ::
    if s.closing then []
    else .access .clientReadPaused :: if s.clientReadPaused then [] else [.access .socket]

def maybeResumeClientReadOps (lw : Answers) (s : TcpRelaySession) : List Op :=
  [.access .lwip, .access .clientReadPaused, .access .pcb] ++
    match s.pcb with
    | none => []
    | some pcb =>
      if !s.clientReadPaused || decide (tcpSndbuf pcb < LwipSndLowWater) then []
      else
        let s := { s with clientReadPaused := false }
        .access .clientReadPaused :: (s.flushToLwipOps lw ++ (s.flushToLwip lw).readEncryptedStreamOps)

/-- `handle_remote_fin`; the pcb is gone when it comes to `close`. -/
def handleRemoteFinOps (s : TcpRelaySession) : List Op :=
  [.access .remoteEof, .access .socket, .access .pcb] ++
    (if s.pcb.isSome then [.access .lwip, .access .pcb, .release] else []) ++
    .access .clientEof :: if s.clientEof then closeOps { s with pcb := none } else []

/-- `enqueue_client_payload`, up to where it throws. -/
def enqueueClientPayloadOps (P : Platform) (s : TcpRelaySession) (rng : Option Salt)
    (bytes : Bytes) : List Op :=
  .access .sentResponseSalt ::
    match s.queueSalt P rng with
    | (.error _, _) => [.access .crypto]
    | (.ok (), t) =>
      (if s.sentResponseSalt then []
        else [.access .crypto, .access .clientQueueBytes, .access .pendingClient,
          .access .sentResponseSalt]) ++ .access .crypto ::
        match t.crypto.encryptTcpChunk P.mbedtls bytes with
        | (.error _, _) => []
        | (.ok _, _) =>
          [.access .clientQueueBytes, .access .pendingClient, .access .writingClient] ++
            if t.writingClient then [] else [.access .writingClient, .access .pendingClient, .access .socket]

def onRecvOps (P : Platform) (s : TcpRelaySession) (p : Option Bytes) (err : ErrT)
    (rng : Option Salt) : List Op :=
  .access .lwip ::
    if err ≠ .ERR_OK then s.closeOps
    else
      match p with
      | none => s.handleRemoteFinOps
      | some bytes =>
        s.enqueueClientPayloadOps P rng bytes ++
          match (s.log (.received bytes)).enqueueClientPayload P rng bytes with
          | (.error _, t) => t.closeOps
          | (.ok (), t) =>
            .access .clientQueueBytes ::
              if ClientQueueHighWater < t.clientQueueBytes then [.access .deferredTcpRecved] else []

def onConnectedOps (lw : Answers) (s : TcpRelaySession) (err : ErrT) : List Op :=
  .access .lwip :: if err ≠ .ERR_OK then s.closeOps else s.flushToLwipOps lw

def onSentOps (lw : Answers) (s : TcpRelaySession) : List Op :=
  .access .lwip :: s.maybeResumeClientReadOps lw

def onErrOps (s : TcpRelaySession) : List Op :=
  .access .pcb :: { s with pcb := none }.closeClientOnlyOps

/-- The operations of a callback of lwIP, on the pcb it finds. The completions are no callbacks. -/
def callbackOps (P : Platform) (s : TcpRelaySession) (i : Input) : Option (List Op) :=
  match i.event, s.pcb with
  | .connected err queuelen, some pcb =>
    some ({ s with pcb := some { pcb with state := .ESTABLISHED, sndQueuelen := queuelen } }.onConnectedOps
      i.lw err)
  | .recv p err rng, some _ => some (s.onRecvOps P p err rng)
  | .sent acked queuelen, some pcb =>
    some ({ s with pcb := some { pcb with sndBuf := pcb.sndBuf + acked,
                                          sndQueuelen := queuelen } }.onSentOps i.lw)
  | .err _, some _ => some s.onErrOps
  | _, _ => none

/-- The callbacks, each with the pcb it finds. -/
inductive Calls (P : Platform) (s : TcpRelaySession) : Input → List Op → Prop
  | connected {lw : Answers} {err : ErrT} {queuelen : Nat} {pcb : TcpPcb} (hp : s.pcb = some pcb) :
      Calls P s ⟨.connected err queuelen, lw⟩
        ({ s with pcb := some { pcb with state := .ESTABLISHED,
                                         sndQueuelen := queuelen } }.onConnectedOps lw err)
  | recv {lw : Answers} {p : Option Bytes} {err : ErrT} {rng : Option Salt} {pcb : TcpPcb}
      (hp : s.pcb = some pcb) : Calls P s ⟨.recv p err rng, lw⟩ (s.onRecvOps P p err rng)
  | sent {lw : Answers} {acked queuelen : Nat} {pcb : TcpPcb} (hp : s.pcb = some pcb) :
      Calls P s ⟨.sent acked queuelen, lw⟩
        ({ s with pcb := some { pcb with sndBuf := pcb.sndBuf + acked,
                                         sndQueuelen := queuelen } }.onSentOps lw)
  | err {lw : Answers} {e : ErrT} {pcb : TcpPcb} (hp : s.pcb = some pcb) :
      Calls P s ⟨.err e, lw⟩ s.onErrOps

theorem calls_of_callbackOps {i : Input} {ops : List Op} (h : s.callbackOps P i = some ops) :
    Calls P s i ops := by
  obtain ⟨event, lw⟩ := i
  cases hp : s.pcb with
  | none => cases event <;> simp [callbackOps, hp] at h
  | some pcb =>
    cases event with
    | saltRead | clientRead | clientWrote | resolved => simp [callbackOps] at h
    | connected err queuelen =>
      simp only [callbackOps, hp, Option.some.injEq] at h
      exact h ▸ .connected hp
    | recv p err rng =>
      simp only [callbackOps, hp, Option.some.injEq] at h
      exact h ▸ .recv hp
    | sent acked queuelen =>
      simp only [callbackOps, hp, Option.some.injEq] at h
      exact h ▸ .sent hp
    | err e =>
      simp only [callbackOps, hp, Option.some.injEq] at h
      exact h ▸ .err hp

/-! ## Where they release, and what comes behind -/

theorem usesAfterRelease_quiet {as : List Op} (h : Op.release ∉ as) (bs : List Op) :
    usesAfterRelease (as ++ bs) = usesAfterRelease bs := by
  induction as with
  | nil => rfl
  | cons a as ih =>
    cases a with
    | access m => exact ih fun hmem => h (List.mem_cons_of_mem _ hmem)
    | release => exact absurd List.mem_cons_self h

theorem usesAfterRelease_of_not_mem {ops : List Op} (h : Op.release ∉ ops) :
    usesAfterRelease ops = false := by
  rw [← List.append_nil ops, usesAfterRelease_quiet h]
  rfl

/-- A list that ends with its only release. -/
theorem usesAfterRelease_last {l : List Op} (h : Op.release ∉ l) :
    usesAfterRelease (l ++ [.release]) = false :=
  usesAfterRelease_quiet h _

theorem usesAfterRelease_access {as : List Op} (h : Op.release ∈ as) (m : Member) (bs : List Op) :
    usesAfterRelease (as ++ .access m :: bs) = true := by
  induction as with
  | nil => cases h
  | cons a as ih =>
    cases a with
    | access m' => exact ih ((List.mem_cons.mp h).resolve_left fun heq => by cases heq)
    | release => simp [usesAfterRelease, Op.isAccess]

theorem release_mem_closeOps : Op.release ∈ s.closeOps ↔ s.closing = false := by
  unfold closeOps
  cases s.closing <;> simp

theorem closeOps_quiet (s : TcpRelaySession) : usesAfterRelease s.closeOps = false := by
  unfold closeOps
  split
  · rfl
  · refine usesAfterRelease_last (l := .access .closing :: _) ?_
    split <;> simp

theorem release_mem_flushToLwipOps :
    Op.release ∈ s.flushToLwipOps lw ↔
      ∃ pcb, s.pcb = some pcb ∧ (flushLoop lw s.pendingLwip pcb).stop = .failed ∧ s.closing = false := by
  unfold flushToLwipOps
  cases hp : s.pcb with
  | none => simp
  | some pcb =>
    dsimp only
    cases hstop : (flushLoop lw s.pendingLwip pcb).stop with
    | drained => simp [hstop]
    | paused => simp [hstop]
    | failed => simp [hstop, release_mem_closeOps]

theorem flushToLwipOps_quiet (lw : Answers) (s : TcpRelaySession) :
    usesAfterRelease (s.flushToLwipOps lw) = false := by
  unfold flushToLwipOps
  cases s.pcb with
  | none => rfl
  | some pcb =>
    dsimp only
    cases (flushLoop lw s.pendingLwip pcb).stop with
    | drained => rfl
    | paused => rfl
    | failed => exact closeOps_quiet _

theorem release_notMem_readEncryptedStreamOps (s : TcpRelaySession) :
    Op.release ∉ s.readEncryptedStreamOps := by
  unfold readEncryptedStreamOps
  cases s.closing <;> cases s.clientReadPaused <;> simp

/-- The read is looked at again behind a `flush_to_lwip` that has closed the session. -/
theorem maybeResumeClientReadOps_uses {pcb : TcpPcb} (hp : s.pcb = some pcb) :
    usesAfterRelease (s.maybeResumeClientReadOps lw) = true ↔
      s.closing = false ∧ s.clientReadPaused = true ∧ LwipSndLowWater ≤ tcpSndbuf pcb ∧
        (flushLoop lw s.pendingLwip pcb).stop = .failed := by
  have hrelease : Op.release ∈ { s with clientReadPaused := false }.flushToLwipOps lw ↔
      (flushLoop lw s.pendingLwip pcb).stop = .failed ∧ s.closing = false := by
    rw [release_mem_flushToLwipOps]
    simp [hp]
  unfold maybeResumeClientReadOps
  generalize { s with clientReadPaused := false } = t at hrelease ⊢
  rw [hp]
  dsimp only
  split
  · next hstay =>
    have hstay : s.clientReadPaused = false ∨ tcpSndbuf pcb < LwipSndLowWater := by simpa using hstay
    refine iff_of_false (by decide) fun h => ?_
    rcases hstay with hstay | hstay
    · exact Bool.false_ne_true (hstay.symm.trans h.2.1)
    · exact Nat.not_lt.mpr h.2.2.1 hstay
  · next hgo =>
    have hgo : s.clientReadPaused = true ∧ LwipSndLowWater ≤ tcpSndbuf pcb := by simpa using hgo
    by_cases hmem : Op.release ∈ t.flushToLwipOps lw
    · obtain ⟨hfailed, hopen⟩ := hrelease.mp hmem
      exact iff_of_true (usesAfterRelease_access hmem _ _) ⟨hopen, hgo.1, hgo.2, hfailed⟩
    · refine iff_of_false ?_ fun h => hmem (hrelease.mpr ⟨h.2.2.2, h.1⟩)
      show ¬ usesAfterRelease (t.flushToLwipOps lw ++ (t.flushToLwip lw).readEncryptedStreamOps) = true
      rw [usesAfterRelease_quiet hmem,
        usesAfterRelease_of_not_mem (release_notMem_readEncryptedStreamOps _)]
      exact Bool.false_ne_true

theorem handleRemoteFinOps_uses {pcb : TcpPcb} (hp : s.pcb = some pcb) :
    usesAfterRelease s.handleRemoteFinOps = true := by
  unfold handleRemoteFinOps
  rw [hp]
  exact usesAfterRelease_access (by simp) _ _

theorem release_notMem_enqueueClientPayloadOps (P : Platform) (s : TcpRelaySession)
    (rng : Option Salt) (bytes : Bytes) : Op.release ∉ s.enqueueClientPayloadOps P rng bytes := by
  unfold enqueueClientPayloadOps
  rcases s.queueSalt P rng with ⟨e | _, t⟩
  · simp
  · dsimp only
    rcases t.crypto.encryptTcpChunk P.mbedtls bytes with ⟨e | chunk, c⟩
    · cases s.sentResponseSalt <;> simp
    · cases s.sentResponseSalt <;> cases t.writingClient <;> simp

theorem onRecvOps_uses {pcb : TcpPcb} (hp : s.pcb = some pcb) (p : Option Bytes) (err : ErrT)
    (rng : Option Salt) :
    usesAfterRelease (s.onRecvOps P p err rng) = true ↔ p = none ∧ err = .ERR_OK := by
  unfold onRecvOps usesAfterRelease
  by_cases herr : err = .ERR_OK
  · rw [if_neg (not_not_intro herr)]
    cases p with
    | none => simp [handleRemoteFinOps_uses hp, herr]
    | some bytes =>
      dsimp only
      rw [usesAfterRelease_quiet (release_notMem_enqueueClientPayloadOps P s rng bytes)]
      rcases (s.log (.received bytes)).enqueueClientPayload P rng bytes with ⟨e | _, t⟩
      · simp [closeOps_quiet]
      · dsimp only
        split <;> simp [usesAfterRelease]
  · rw [if_pos herr, closeOps_quiet]
    simp [herr]

/-! ## A session with a pcb holds itself -/

def Held (s : TcpRelaySession) : Prop := s.pcb.isSome → s.activeSelf = true

theorem Held.of_noPcb (h : s.pcb = none) : s.Held := by
  intro hsome
  rw [h] at hsome
  cases hsome

theorem Held.downstream (h : s.Held) (hd : Downstream s s') : s'.Held := by
  rcases hd.closing_or_same with ⟨-, hp, hself⟩ | ⟨-, hp, -⟩
  · intro hsome
    rw [hself]
    exact h (hp ▸ hsome)
  · exact .of_noPcb hp

theorem Held.close (h : s.Held) : (s.close lw).Held := h.downstream (close_downstream lw s)

theorem Held.flushToLwip (h : s.Held) : (s.flushToLwip lw).Held := by
  rcases flushToLwip_cases lw s with ⟨-, he⟩ | ⟨pcb, pcb', sent, rest, hp, -, -, hres⟩
  · rwa [he]
  · have hself : s.activeSelf = true := h (by rw [hp]; rfl)
    have hflushed (rest : List Bytes) : (s.flushed pcb' sent rest).Held := fun _ => hself
    rcases hres with ⟨-, he⟩ | ⟨-, he⟩ | ⟨-, he⟩ <;> rw [he]
    · exact hflushed []
    · exact hflushed rest
    · exact (hflushed rest).close

theorem held_connectIp (lw : Answers) (s : TcpRelaySession) (ip : IpAddr) (port : Nat) :
    (s.connectIp lw ip port).Held := by
  rcases connectIp_cases lw s ip port with he | he | he <;> rw [he]
  · exact fun _ => rfl
  · exact Held.close fun _ => rfl
  · exact Held.close (.of_noPcb rfl)

theorem Held.readEncryptedStream (h : s.Held) : s.readEncryptedStream.Held := by
  unfold TcpRelaySession.readEncryptedStream
  split <;> exact h

theorem Held.queueLwip (h : s.Held) (bytes : Bytes) : (s.queueLwip bytes).Held := by
  unfold TcpRelaySession.queueLwip
  split <;> exact h

theorem Held.processDecryptedChunk (h : s.Held) (P : Platform) (lw : Answers) (chunk : Bytes) :
    (s.processDecryptedChunk P lw chunk).2.Held := by
  refine processDecryptedChunk_inv Held ?_ h.close ?_ h
  · intro t bytes _ ht
    exact ht.queueLwip bytes
  · intro _ target
    have hgot : Held { s with gotTarget := true } := h
    refine connectTarget_inv Held ?_ (held_connectIp lw _) hgot target
    intro host port
    exact h

theorem Held.onClientData (h : s.Held) (bytes : Bytes) : (s.onClientData P lw bytes).Held := by
  refine onClientData_inv P Held Held ?_ ?_ (processAll_inv P Held _
    (fun s chunk _ hI => hI.processDecryptedChunk P lw chunk) h)
  · intro t c rest ht
    have hin : Held (t.withInput c rest) := ht
    exact hin.flushToLwip.readEncryptedStream
  · intro t c rest ht
    have hin : Held (t.withInput c rest) := ht
    exact hin.close

theorem Held.handleClientEof (h : s.Held) : (s.handleClientEof lw).Held := by
  rcases handleClientEof_cases lw s with
    ⟨hp, he⟩ | ⟨pcb, hp, ⟨-, -, he⟩ | ⟨-, acts, -, -, he⟩⟩ <;> rw [he]
  · exact Held.close (.of_noPcb hp)
  · have hself : s.activeSelf = true := h (by rw [hp]; rfl)
    dsimp only
    split
    · exact Held.close fun _ => hself
    · exact fun _ => hself
  · exact Held.close (.of_noPcb rfl)

theorem held_step {i : Input} (h : s.Held) (hs : s.step P i = some s') : s'.Held := by
  have hself {pcb : TcpPcb} (hp : s.pcb = some pcb) : s.activeSelf = true := h (by rw [hp]; rfl)
  cases fires_of_step hs with
  | saltRead =>
    rcases onSaltRead_cases P _ { s with saltPending := false } _ with he | ⟨key, he⟩ <;> rw [he]
    · exact Held.close h
    · exact Held.readEncryptedStream h
  | clientData hpos =>
    refine Held.onClientData ?_ _
    exact h
  | clientEof hpos => exact Held.handleClientEof h
  | clientError hpos => exact Held.close h
  | clientWrote hw =>
    refine Held.downstream ?_ (onClientWrote_downstream _ _ _ _)
    exact h
  | resolved hr =>
    refine onResolved_inv Held (Held.close ?_) fun _ ip => held_connectIp _ _ ip _
    exact h
  | unheard hr => exact h
  | connected hp =>
    exact onConnected_inv Held (Held.close fun _ => hself hp) (Held.flushToLwip fun _ => hself hp)
  | recvError hp => exact h.close
  | remoteFin hp =>
    rw [handleRemoteFin_eq hp]
    split
    · exact Held.close (.of_noPcb rfl)
    · exact .of_noPcb rfl
  | recvData hp => exact h.downstream (onRecv_downstream P _ s _ _)
  | @sent lw acked queuelen pcb hp =>
    have hack : Held { s with pcb := some { pcb with sndBuf := pcb.sndBuf + acked,
                                                     sndQueuelen := queuelen } } := fun _ => hself hp
    unfold onSent
    rcases maybeResumeClientRead_cases lw { s with pcb := some { pcb with
      sndBuf := pcb.sndBuf + acked, sndQueuelen := queuelen } } with he | ⟨pcb', -, -, -, he⟩ <;> rw [he]
    · exact hack
    · refine (Held.flushToLwip ?_).readEncryptedStream
      exact hack
  | err hp =>
    rw [onErr_eq]
    exact .of_noPcb rfl

theorem held_run {crypto : ShadowsocksAeadSession} {is : List Input} (h : Reaches P crypto is s) :
    s.Held :=
  run_inv Held (fun _ _ _ hI hs => held_step hI hs) (.of_noPcb rfl) h

/-! ## The release in the model -/

theorem close_activeSelf (h : s.activeSelf = true) :
    (s.close lw).activeSelf = false ↔ s.closing = false := by
  cases hc : s.closing with
  | true => simp [close_of_closing hc, h]
  | false => simp [close_of_open hc]

theorem flushToLwip_activeSelf (h : s.activeSelf = true) :
    (s.flushToLwip lw).activeSelf = false ↔ Op.release ∈ s.flushToLwipOps lw := by
  rw [release_mem_flushToLwipOps]
  unfold flushToLwip
  cases hp : s.pcb with
  | none => simp [h]
  | some pcb =>
    dsimp only
    cases hstop : (flushLoop lw s.pendingLwip pcb).stop with
    | drained => simp [h, hstop]
    | paused => simp [h, hstop]
    | failed =>
      refine (close_activeSelf ?_).trans ?_
      · exact h
      · simp [hstop]

theorem maybeResumeClientRead_activeSelf (h : s.activeSelf = true) :
    (s.maybeResumeClientRead lw).activeSelf = false ↔ Op.release ∈ s.maybeResumeClientReadOps lw := by
  have hgo : { s with clientReadPaused := false }.activeSelf = true := h
  unfold maybeResumeClientRead maybeResumeClientReadOps
  generalize { s with clientReadPaused := false } = t at hgo ⊢
  cases s.pcb with
  | none => simp [h]
  | some pcb =>
    dsimp only
    split
    · simp [h]
    · rw [((readEncryptedStream_frame _).conn (by decide)).2.2, flushToLwip_activeSelf hgo]
      simp [release_notMem_readEncryptedStreamOps]

theorem handleRemoteFin_activeSelf {pcb : TcpPcb} (hp : s.pcb = some pcb) :
    (s.handleRemoteFin lw).activeSelf = false := by
  rw [handleRemoteFin_eq hp]
  split
  · cases hc : (s.severed lw).closing with
    | true => rw [close_of_closing hc]; rfl
    | false => rw [close_of_open hc]
  · rfl

theorem onRecv_activeSelf (h : s.activeSelf = true) {pcb : TcpPcb} (hp : s.pcb = some pcb)
    (p : Option Bytes) (err : ErrT) (rng : Option Salt) :
    (s.onRecv P lw p err rng).activeSelf = false ↔ Op.release ∈ s.onRecvOps P p err rng := by
  unfold onRecv onRecvOps
  split
  · rw [close_activeSelf h]
    simp [release_mem_closeOps]
  · cases p with
    | none =>
      refine iff_of_true (handleRemoteFin_activeSelf hp) ?_
      simp [handleRemoteFinOps, hp]
    | some bytes =>
      obtain ⟨-, -, hself⟩ :=
        (enqueueClientPayload_frame P (s.log (.received bytes)) rng bytes).conn (by decide)
      have hquiet := release_notMem_enqueueClientPayloadOps P s rng bytes
      dsimp only
      rcases henq : (s.log (.received bytes)).enqueueClientPayload P rng bytes with ⟨e | _, t⟩ <;>
        rw [henq] at hself
      · refine (close_activeSelf (hself.trans h)).trans ?_
        simp [hquiet, release_mem_closeOps]
      · have ht : t.activeSelf = true := hself.trans h
        dsimp only
        split <;> simp [ht, log, hquiet]

/-- A callback resets `active_self_` exactly if `release_active_self` is among its operations. -/
theorem callback_releases_iff {i : Input} {ops : List Op} (h : s.activeSelf = true)
    (hops : Calls P s i ops) (hs : s.step P i = some s') :
    s'.activeSelf = false ↔ Op.release ∈ ops := by
  cases hops with
  | connected hp =>
    cases fires_of_step hs with
    | connected hp' =>
      obtain rfl := Option.some.inj (hp.symm.trans hp')
      unfold onConnected onConnectedOps
      split
      · refine (close_activeSelf ?_).trans ?_
        · exact h
        · simp [release_mem_closeOps]
      · refine (flushToLwip_activeSelf ?_).trans ?_
        · exact h
        · simp
  | recv hp =>
    cases fires_of_step hs with
    | recvError hp' herr =>
      unfold onRecvOps
      rw [close_activeSelf h, if_pos herr]
      simp [release_mem_closeOps]
    | remoteFin hp' => exact onRecv_activeSelf h hp none .ERR_OK _
    | recvData hp' => exact onRecv_activeSelf h hp _ .ERR_OK _
  | sent hp =>
    cases fires_of_step hs with
    | sent hp' =>
      obtain rfl := Option.some.inj (hp.symm.trans hp')
      refine (maybeResumeClientRead_activeSelf ?_).trans ?_
      · exact h
      · simp [onSentOps]
  | err hp =>
    cases fires_of_step hs with
    | err hp' =>
      rw [onErr_eq]
      simp [onErrOps, closeClientOnlyOps]

/-! ## The last owner -/

/-- If the event's callback releases `active_self_` and accesses the session afterwards, there is
    another owner. The handler of a completion is an owner in any case. -/
def Kept (P : Platform) (s : TcpRelaySession) (i : Input) : Prop :=
  match s.callbackOps P i with
  | none => s.others i.event ≠ []
  | some ops => usesAfterRelease ops = true → s.others i.event ≠ []

/-- No handler of the client is outstanding, and the remote's FIN is passed up, or an ACK lets a
    paused session go on and `tcp_write` fails. -/
def Dangling (s : TcpRelaySession) (i : Input) : Prop :=
  s.handlers = [] ∧
    match i.event with
    | .recv p err _ => p = none ∧ err = .ERR_OK
    | .sent acked queuelen =>
      s.closing = false ∧ s.clientReadPaused = true ∧ ∃ pcb, s.pcb = some pcb ∧
        let pcb := { pcb with sndBuf := pcb.sndBuf + acked, sndQueuelen := queuelen }
        LwipSndLowWater ≤ tcpSndbuf pcb ∧ (flushLoop i.lw s.pendingLwip pcb).stop = .failed
    | _ => False

/-- The handler of a completion holds `self`. -/
theorem others_of_completion {i : Input} (h : s.callbackOps P i = none)
    (hs : s.step P i = some s') : s.others i.event ≠ [] := by
  have hhandlers : s.saltPending = true ∨ 0 < s.reads ∨ s.writes ≠ [] → s.handlers ≠ [] := by
    intro hany hnil
    obtain ⟨hsalt, hreads, hwrites⟩ := handlers_eq_nil.mp hnil
    rw [hsalt, hreads, hwrites] at hany
    simp at hany
  cases fires_of_step hs with
  | saltRead hsalt => exact hhandlers (Or.inl hsalt)
  | clientData hpos => exact hhandlers (Or.inr (Or.inl hpos))
  | clientEof hpos => exact hhandlers (Or.inr (Or.inl hpos))
  | clientError hpos => exact hhandlers (Or.inr (Or.inl hpos))
  | clientWrote hw =>
    refine hhandlers (Or.inr (Or.inr ?_))
    rw [hw]
    exact List.cons_ne_nil _ _
  | resolved hr => exact List.cons_ne_nil _ _
  | unheard hr => exact List.cons_ne_nil _ _
  | connected hp => simp [callbackOps, hp] at h
  | recvError hp => simp [callbackOps, hp] at h
  | remoteFin hp => simp [callbackOps, hp] at h
  | recvData hp => simp [callbackOps, hp] at h
  | sent hp => simp [callbackOps, hp] at h
  | err hp => simp [callbackOps, hp] at h

theorem closeClientOnlyOps_quiet (s : TcpRelaySession) :
    usesAfterRelease s.closeClientOnlyOps = false := by
  unfold closeClientOnlyOps
  cases s.closing <;> rfl

/-- What a callback accesses behind the release, read off the state it finds. -/
theorem callbackOps_uses {i : Input} {ops : List Op} (h : Calls P s i ops) :
    usesAfterRelease ops = true ∧ s.handlers = [] ↔ Dangling s i := by
  unfold Dangling
  rw [and_comm]
  refine and_congr_right fun _ => ?_
  cases h with
  | connected hp =>
    unfold onConnectedOps usesAfterRelease
    split
    · simp [closeOps_quiet]
    · simp [flushToLwipOps_quiet]
  | recv hp => exact onRecvOps_uses hp _ _ _
  | sent hp =>
    unfold onSentOps usesAfterRelease
    rw [maybeResumeClientReadOps_uses rfl]
    simp [hp]
  | err hp =>
    unfold onErrOps usesAfterRelease
    simp [closeClientOnlyOps_quiet]

theorem others_of_callback {i : Input} {ops : List Op} (h : Calls P s i ops) :
    s.others i.event = s.handlers := by
  cases h <;> rfl

theorem Dangling.others_eq_nil {i : Input} (h : Dangling s i) : s.others i.event = [] := by
  obtain ⟨event, lw⟩ := i
  cases event with
  | resolved => exact h.2.elim
  | saltRead | clientRead | clientWrote | connected | recv | sent | err => exact h.1

theorem callback_hasPcb {i : Input} {ops : List Op} (h : Calls P s i ops) : s.pcb.isSome = true := by
  cases h with
  | connected hp | recv hp | sent hp | err hp => rw [hp, Option.isSome_some]

/-- A callback finds a session that holds itself. Whatever happens in a session, it has another
    owner when it is accessed behind the release, except if it is left dangling. -/
theorem last_owner_iff {crypto : ShadowsocksAeadSession} {is : List Input} {i : Input}
    (h : Reaches P crypto is s) (hs : s.step P i = some s') :
    (∀ ops, s.callbackOps P i = some ops →
      s.activeSelf = true ∧ (s'.activeSelf = false ↔ Op.release ∈ ops)) ∧
    (Kept P s i ↔ ¬ Dangling s i) := by
  constructor
  · intro ops hops
    have hcalls := calls_of_callbackOps hops
    have hself := held_run h (callback_hasPcb hcalls)
    exact ⟨hself, callback_releases_iff hself hcalls hs⟩
  · unfold Kept
    cases hops : s.callbackOps P i with
    | none =>
      have hothers := others_of_completion hops hs
      exact iff_of_true hothers fun hdangling => hothers hdangling.others_eq_nil
    | some ops =>
      have hcalls := calls_of_callbackOps hops
      rw [← callbackOps_uses hcalls, others_of_callback hcalls, not_and]

/-- The FIN comes while a read of the client is outstanding. -/
theorem last_owner_demo :
    ∃ s s', Reaches demoPlatform demoCrypto demoConnected s ∧
      s.step demoPlatform ⟨.recv none .ERR_OK none, willing⟩ = some s' ∧ s.activeSelf = true ∧
      s'.activeSelf = false ∧ Kept demoPlatform s ⟨.recv none .ERR_OK none, willing⟩ := by
  obtain ⟨s, s', h, hs, hreads, hself, hgone⟩ : ∃ s s', Reaches demoPlatform demoCrypto demoConnected s ∧
      s.step demoPlatform ⟨.recv none .ERR_OK none, willing⟩ = some s' ∧ s.reads = 1 ∧
      s.activeSelf = true ∧ s'.activeSelf = false := ⟨_, _, rfl, rfl, rfl, rfl, rfl⟩
  refine ⟨s, s', h, hs, hself, hgone, (last_owner_iff h hs).2.mpr fun hdangling => ?_⟩
  have hnone := (handlers_eq_nil.mp hdangling.1).2.1
  rw [hreads] at hnone
  cases hnone

/-- The client has closed its side and nothing is being written to it when the FIN comes:
    `handle_remote_fin` lets go of the last owner and reads `client_eof_`. -/
theorem fin_after_eof_dangles :
    ∃ s s' ops, Reaches demoPlatform demoCrypto (demoConnected ++ [⟨.clientRead .eof, willing⟩]) s ∧
      s.closing = false ∧
      s.step demoPlatform ⟨.recv none .ERR_OK none, willing⟩ = some s' ∧
      s.callbackOps demoPlatform ⟨.recv none .ERR_OK none, willing⟩ = some ops ∧
      s.owners = [.activeSelf] ∧ s'.owners = [] ∧ usesAfterRelease ops = true :=
  ⟨_, _, _, rfl, rfl, rfl, rfl, rfl, rfl, rfl⟩

end TcpRelaySession

end Ovpn2ss.Tcp
