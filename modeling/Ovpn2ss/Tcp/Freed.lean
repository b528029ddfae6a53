/-
  A closed session is freed.

  `active_self_` is let go of wherever `pcb_` becomes null, so a session without a pcb does not
  hold itself (`unheld_run`). What keeps a closed one is then the handlers of the operations
  that are outstanding. Their completions start nothing but the write of a buffer that is already
  queued, so each of them leaves less to come (`closed_step`): after at most `outstanding`
  completions the last handler is gone, and the session with it.

  The session that a read has closed and connected again has a pcb and is not covered.
-/
import Ovpn2ss.Tcp.Owners
import Ovpn2ss.Tcp.Closed

namespace Ovpn2ss.Tcp.TcpRelaySession

open Ovpn2ss.Aead Ovpn2ss.Lib Ovpn2ss.Lwip

variable {P : Platform} {lw : Answers} {s s' : TcpRelaySession}

/-! ## A session without a pcb does not hold itself -/

/-- The converse of `Held`. -/
def Unheld (s : TcpRelaySession) : Prop := s.pcb = none → s.activeSelf = false

theorem Unheld.of_pcb {pcb : TcpPcb} (h : s.pcb = some pcb) : s.Unheld := by
  intro hnone
  rw [h] at hnone
  cases hnone

theorem Unheld.downstream (h : s.Unheld) (hd : Downstream s s') : s'.Unheld := by
  rcases hd.closing_or_same with ⟨-, hp, hself⟩ | ⟨-, -, hself⟩
  · intro hnone
    rw [hself]
    exact h (hp ▸ hnone)
  · exact fun _ => hself

theorem Unheld.close (h : s.Unheld) : (s.close lw).Unheld :=
  h.downstream (close_downstream lw s)

theorem Unheld.flushToLwip (h : s.Unheld) : (s.flushToLwip lw).Unheld := by
  rcases flushToLwip_cases lw s with ⟨-, he⟩ | ⟨pcb, pcb', sent, rest, -, -, -, hres⟩
  · rwa [he]
  · have hflushed (rest : List Bytes) : (s.flushed pcb' sent rest).Unheld := .of_pcb rfl
    rcases hres with ⟨-, he⟩ | ⟨-, he⟩ | ⟨-, he⟩ <;> rw [he]
    · exact hflushed []
    · exact hflushed rest
    · exact (hflushed rest).close

/-- `connect_ip` writes `pcb_` without a look at it: only a session that does not hold itself may
    call it. -/
theorem unheld_connectIp (lw : Answers) (hself : s.activeSelf = false) (ip : IpAddr) (port : Nat) :
    (s.connectIp lw ip port).Unheld := by
  rcases connectIp_cases lw s ip port with he | he | he <;> rw [he]
  · exact .of_pcb rfl
  · exact Unheld.close (.of_pcb rfl)
  · exact Unheld.close fun _ => hself

theorem Unheld.readEncryptedStream (h : s.Unheld) : s.readEncryptedStream.Unheld := by
  unfold TcpRelaySession.readEncryptedStream
  split <;> exact h

theorem Unheld.queueLwip (h : s.Unheld) (bytes : Bytes) : (s.queueLwip bytes).Unheld := by
  unfold TcpRelaySession.queueLwip
  split <;> exact h

theorem Unheld.processDecryptedChunk (h : s.Unheld) (hR : Reading 1 s) (chunk : Bytes) :
    (s.processDecryptedChunk P lw chunk).2.Unheld := by
  refine processDecryptedChunk_inv Unheld ?_ h.close ?_ h
  · intro t bytes _ ht
    exact ht.queueLwip bytes
  · intro hg target
    have hgot : Unheld { s with gotTarget := true } := h
    refine connectTarget_inv Unheld ?_ (unheld_connectIp lw ?_) hgot target
    · intro host port
      exact h
    · exact h (hR.fresh hg).1

theorem Unheld.onClientData (h : s.Unheld) (hR : Reading 1 s) (bytes : Bytes) :
    (s.onClientData P lw bytes).Unheld := by
  have hall : (processAll P lw s (s.chunksOf P bytes)).2.Unheld ∧
      Reading 1 (processAll P lw s (s.chunksOf P bytes)).2 :=
    processAll_inv P (fun t => t.Unheld ∧ Reading 1 t) _ (fun _ chunk _ hI =>
      ⟨hI.1.processDecryptedChunk hI.2 chunk, hI.2.processDecryptedChunk chunk⟩) ⟨h, hR⟩
  refine onClientData_inv P Unheld Unheld ?_ ?_ hall.1
  · intro t c rest ht
    have hin : Unheld (t.withInput c rest) := ht
    exact hin.flushToLwip.readEncryptedStream
  · intro t c rest ht
    have hin : Unheld (t.withInput c rest) := ht
    exact hin.close

theorem Unheld.handleClientEof (h : s.Unheld) : (s.handleClientEof lw).Unheld := by
  rcases handleClientEof_cases lw s with
    ⟨-, he⟩ | ⟨pcb, hp, ⟨-, -, he⟩ | ⟨-, acts, -, -, he⟩⟩ <;> rw [he]
  · exact Unheld.close h
  · dsimp only
    split
    · exact Unheld.close (.of_pcb rfl)
    · exact .of_pcb rfl
  · exact Unheld.close fun _ => rfl

theorem unheld_step {i : Input} (hR : Reading 0 s) (h : s.Unheld) (hs : s.step P i = some s') :
    s'.Unheld := by
  cases fires_of_step hs with
  | saltRead =>
    rcases onSaltRead_cases P _ { s with saltPending := false } _ with he | ⟨key, he⟩ <;> rw [he]
    · exact Unheld.close h
    · exact Unheld.readEncryptedStream h
  | clientData hpos =>
    refine Unheld.onClientData ?_ (hR.readDone hpos) _
    exact h
  | clientEof => exact Unheld.handleClientEof h
  | clientError => exact Unheld.close h
  | clientWrote =>
    refine Unheld.downstream ?_ (onClientWrote_downstream _ _ _ _)
    exact h
  | resolved hr =>
    have hself : s.activeSelf = false := h (hR.resolving (by rw [hr]; simp)).1
    have hdone : Unheld { s with resolving := none } := h
    refine onResolved_inv Unheld hdone.close fun _ ip => ?_
    exact unheld_connectIp (s := { s with resolving := none }) _ hself ip _
  | unheard => exact h
  | connected =>
    exact onConnected_inv Unheld (Unheld.close (.of_pcb rfl)) (Unheld.flushToLwip (.of_pcb rfl))
  | recvError => exact h.close
  | remoteFin hp =>
    rw [handleRemoteFin_eq hp]
    split
    · exact Unheld.close fun _ => rfl
    · exact fun _ => rfl
  | recvData => exact h.downstream (onRecv_downstream P _ s _ _)
  | @sent lw acked queuelen pcb =>
    unfold onSent
    rcases maybeResumeClientRead_cases lw { s with pcb := some { pcb with
      sndBuf := pcb.sndBuf + acked, sndQueuelen := queuelen } } with he | ⟨pcb', -, -, -, he⟩ <;> rw [he]
    · exact .of_pcb rfl
    · exact (Unheld.flushToLwip (.of_pcb rfl)).readEncryptedStream
  | err =>
    rw [onErr_eq]
    exact fun _ => rfl

theorem unheld_run {crypto : ShadowsocksAeadSession} {is : List Input} (h : Reaches P crypto is s) :
    Reading 0 s ∧ s.Unheld :=
  run_inv (fun s => Reading 0 s ∧ s.Unheld)
    (fun _ _ _ hI hs => ⟨reading_step hI.1 hs, unheld_step hI.1 hI.2 hs⟩)
    ⟨reading_start crypto, fun _ => rfl⟩ h

/-! ## What is left to a closed session -/

/-- The operations that are outstanding, and the buffers whose write is not started yet. -/
def outstanding (s : TcpRelaySession) : Nat :=
  s.saltPending.toNat + s.reads + s.writes.length + s.pendingClient.length + s.resolving.toList.length

/-- Closed, without a pcb, held by handlers only, and with no more than `n` completions to come. -/
structure Retired (n : Nat) (s : TcpRelaySession) : Prop where
  closing : s.closing = true
  pcb : s.pcb = none
  activeSelf : s.activeSelf = false
  left : s.outstanding ≤ n

variable {n : Nat}

theorem Retired.close (h : Retired n s) : Retired n (s.close lw) := by
  rwa [close_of_closing h.closing]

theorem Retired.readEncryptedStream (h : Retired n s) : Retired n s.readEncryptedStream := by
  rwa [readEncryptedStream_of_held (Or.inl h.closing)]

theorem Retired.flushToLwip (h : Retired n s) : Retired n (s.flushToLwip lw) := by
  unfold TcpRelaySession.flushToLwip
  rwa [h.pcb]

/-- With the target known nothing is parsed, and no connection comes of a read. -/
theorem Retired.onClientData (h : Retired n s) (hg : s.gotTarget = true) (bytes : Bytes) :
    Retired n (s.onClientData P lw bytes) := by
  have hin {t : TcpRelaySession} (ht : Retired n t) (c : ShadowsocksAeadSession) (rest : Bytes) :
      Retired n (t.withInput c rest) := ⟨ht.closing, ht.pcb, ht.activeSelf, ht.left⟩
  refine onClientData_inv P (Retired n) (Retired n) ?_ ?_ ?_
  · intro t c rest ht
    exact (hin ht c rest).flushToLwip.readEncryptedStream
  · intro t c rest ht
    exact (hin ht c rest).close
  · rw [processAll_of_target P hg]
    exact ⟨h.closing, h.pcb, h.activeSelf, h.left⟩

theorem Retired.handleClientEof (h : Retired n s) : Retired n (s.handleClientEof lw) := by
  rcases handleClientEof_cases lw s with ⟨-, he⟩ | ⟨pcb, hp, -⟩
  · rw [he]
    refine Retired.close ?_
    exact ⟨h.closing, h.pcb, h.activeSelf, h.left⟩
  · rw [h.pcb] at hp
    cases hp

/-- The next write is that of a buffer behind the one written. -/
theorem Retired.onClientWrote (h : Retired n s) (buf : Bytes) (ok : Bool) :
    Retired n (s.onClientWrote lw buf ok) := by
  have hleft := h.left
  cases ok with
  | false =>
    rw [onClientWrote_failed]
    refine Retired.close ?_
    exact ⟨h.closing, h.pcb, h.activeSelf, hleft⟩
  | true =>
    rw [onClientWrote_ok, creditDeferred, if_neg (by simp [popClient, log, h.pcb]), flushToClient]
    unfold outstanding at hleft
    split
    · refine ⟨h.closing, h.pcb, h.activeSelf, ?_⟩
      simp only [outstanding, popClient, log, List.length_tail]
      omega
    · rename_i front rest hq
      have hlen : s.pendingClient.length - 1 = rest.length + 1 := by
        rw [← List.length_tail, show s.pendingClient.tail = front :: rest from hq, List.length_cons]
      refine ⟨h.closing, h.pcb, h.activeSelf, ?_⟩
      simp only [outstanding, popClient, log, Bool.false_eq_true, if_false, List.length_append,
        List.length_singleton, List.length_tail]
      omega

/-! ## One operation is over -/

theorem Retired.done (h : Retired n s) (hc : s'.closing = s.closing) (hp : s'.pcb = s.pcb)
    (hself : s'.activeSelf = s.activeSelf) (hlt : s'.outstanding < s.outstanding) :
    ∃ m, n = m + 1 ∧ Retired m s' := by
  have hleft := h.left
  exact ⟨n - 1, by omega, hc.trans h.closing, hp.trans h.pcb, hself.trans h.activeSelf, by omega⟩

theorem Retired.saltDone (h : Retired n s) (hsalt : s.saltPending = true) :
    ∃ m, n = m + 1 ∧ Retired m { s with saltPending := false } := by
  refine h.done rfl rfl rfl ?_
  simp only [outstanding, hsalt, Bool.toNat_true, Bool.toNat_false]
  omega

theorem Retired.readDone (h : Retired n s) (hpos : 0 < s.reads) :
    ∃ m, n = m + 1 ∧ Retired m { s with reads := s.reads - 1 } := by
  refine h.done rfl rfl rfl ?_
  simp only [outstanding]
  omega

theorem Retired.writeDone (h : Retired n s) {buf : Bytes} {writes : List Bytes}
    (hw : s.writes = buf :: writes) : ∃ m, n = m + 1 ∧ Retired m { s with writes := writes } := by
  refine h.done rfl rfl rfl ?_
  simp only [outstanding, hw, List.length_cons]
  omega

theorem Retired.resolveDone (h : Retired n s) {port : Nat} (hres : s.resolving = some port) :
    ∃ m, n = m + 1 ∧ Retired m { s with resolving := none } := by
  refine h.done rfl rfl rfl ?_
  simp only [outstanding, hres, Option.toList, List.length_cons, List.length_nil]
  omega

/-- A completion in a closed session leaves one less to come. -/
theorem closed_step {i : Input} (hR : Reading 0 s) (h : Retired n s) (hs : s.step P i = some s') :
    ∃ m, n = m + 1 ∧ Retired m s' := by
  have hpcb {pcb : TcpPcb} (hp : s.pcb = some pcb) : False := by
    rw [h.pcb] at hp
    cases hp
  cases fires_of_step hs with
  | @saltRead lw salt hsalt =>
    obtain ⟨m, hm, hr⟩ := h.saltDone hsalt
    refine ⟨m, hm, ?_⟩
    rcases onSaltRead_cases P lw { s with saltPending := false } salt with he | ⟨key, he⟩ <;> rw [he]
    · exact hr.close
    · refine Retired.readEncryptedStream ?_
      exact ⟨hr.closing, hr.pcb, hr.activeSelf, hr.left⟩
  | @clientData lw bytes hpos =>
    have hg : s.gotTarget = true := by
      by_contra hg
      exact absurd h.closing (Bool.eq_false_iff.mp (hR.isOpen hpos (Bool.eq_false_iff.mpr hg)))
    obtain ⟨m, hm, hr⟩ := h.readDone hpos
    exact ⟨m, hm, hr.onClientData hg bytes⟩
  | clientEof hpos =>
    obtain ⟨m, hm, hr⟩ := h.readDone hpos
    exact ⟨m, hm, hr.handleClientEof⟩
  | clientError hpos =>
    obtain ⟨m, hm, hr⟩ := h.readDone hpos
    exact ⟨m, hm, hr.close⟩
  | @clientWrote lw ok buf writes hw =>
    obtain ⟨m, hm, hr⟩ := h.writeDone hw
    exact ⟨m, hm, hr.onClientWrote buf ok⟩
  | @resolved lw err ip port hres =>
    obtain ⟨m, hm, hr⟩ := h.resolveDone hres
    refine ⟨m, hm, onResolved_inv (Retired m) hr.close fun hopen => ?_⟩
    rw [hr.closing] at hopen
    cases hopen
  | unheard hres => exact h.resolveDone hres
  -- lwIP has nothing to call back on
  | connected hp | recvError hp | remoteFin hp | recvData hp | sent hp | err hp => exact (hpcb hp).elim

/-! ## Runs -/

theorem closed_run {is : List Input} (hR : Reading 0 s) (h : Retired n s)
    (hr : run (step P) s is = some s') : is.length ≤ n ∧ Retired (n - is.length) s' := by
  induction is generalizing s n with
  | nil =>
    obtain rfl := Option.some.inj hr
    exact ⟨Nat.zero_le _, h⟩
  | cons i is ih =>
    obtain ⟨m, hm, hr⟩ := run_cons.mp hr
    obtain ⟨k, rfl, hk⟩ := closed_step hR h hm
    obtain ⟨hlen, hlast⟩ := ih (reading_step hR hm) hk hr
    rw [List.length_cons]
    exact ⟨by omega, by rwa [Nat.add_sub_add_right]⟩

/-- A handler that holds the session can run: its operation may fail. -/
theorem handlers_of_stuck (h : ∀ i, s.step P i = none) (lw : Answers) : s.handlers = [] := by
  refine handlers_eq_nil.mpr ⟨?_, ?_, ?_⟩
  · have hsalt := h ⟨.saltRead none, lw⟩
    simpa [step] using hsalt
  · have hread := h ⟨.clientRead .error, lw⟩
    simpa [step, ReadResult.possible] using hread
  · have hwrote := h ⟨.clientWrote false, lw⟩
    cases hw : s.writes with
    | nil => rfl
    | cons buf writes => simp [step, hw] at hwrote

/-- Closed sessions are freed. From a session that was closed and has no pcb no more completions
    follow than operations were outstanding and buffers queued, whatever they bring. It is never
    connected again and never holds itself, and when nothing more can complete it has no owner. -/
theorem closed_is_freed {crypto : ShadowsocksAeadSession} {is js : List Input}
    (h : Reaches P crypto is s) (hc : s.closing = true) (hp : s.pcb = none)
    (hr : run (step P) s js = some s') :
    js.length ≤ s.outstanding ∧ s'.closing = true ∧ s'.pcb = none ∧ s'.activeSelf = false ∧
      ((∀ i, s'.step P i = none) → s'.owners = []) := by
  obtain ⟨hR, hrel⟩ := unheld_run h
  obtain ⟨hlen, hlast⟩ := closed_run hR ⟨hc, hp, hrel hp, Nat.le_refl _⟩ hr
  refine ⟨hlen, hlast.closing, hlast.pcb, hlast.activeSelf, fun hstuck => ?_⟩
  rw [owners, hlast.activeSelf, handlers_of_stuck hstuck willing]
  rfl

/-- lwIP reports an error while a read of the client is outstanding, and that read fails. -/
theorem closed_is_freed_demo :
    ∃ s s', Reaches demoPlatform demoCrypto (demoConnected ++ [⟨.err .ERR_RST, willing⟩]) s ∧
      run (step demoPlatform) s [⟨.clientRead .error, willing⟩] = some s' ∧
      s.owners = [.readHandler] ∧ s'.owners = [] := by
  obtain ⟨s, s', h, hr, hc, hp, howners, hstuck⟩ : ∃ s s',
      Reaches demoPlatform demoCrypto (demoConnected ++ [⟨.err .ERR_RST, willing⟩]) s ∧
      run (step demoPlatform) s [⟨.clientRead .error, willing⟩] = some s' ∧ s.closing = true ∧
      s.pcb = none ∧ s.owners = [.readHandler] ∧ (∀ i, s'.step demoPlatform i = none) := by
    refine ⟨_, _, rfl, rfl, rfl, rfl, rfl, ?_⟩
    rintro ⟨event, lw⟩
    cases event <;> rfl
  exact ⟨s, s', h, hr, howners, (closed_is_freed h hc hp hr).2.2.2.2 hstuck⟩

end Ovpn2ss.Tcp.TcpRelaySession
