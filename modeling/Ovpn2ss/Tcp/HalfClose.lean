/-
  One direction ends before the other: the client's EOF while its request is on the way, and
  the client's data after the remote's FIN.

  `handle_client_eof` decides by the state of the pcb alone and never looks at `pending_lwip_`.
  `clientEof_keeps_iff` says when nothing is lost: nothing was sent, or the connection has been
  made and the client is not paused. `clientEof_aborts` is a request lost to an early EOF.

  `handle_remote_fin` closes the only pcb. From then on the session reads and queues whatever
  the client sends and hands none of it on (`gone_run`), so `afterFin_served_iff`: the data is
  served exactly if there is none.
-/
import Ovpn2ss.Tcp.Upstream

namespace Ovpn2ss.Tcp

open Ovpn2ss.Aead Ovpn2ss.Lib Ovpn2ss.Lwip

namespace TcpRelaySession

variable {P : Platform} {lw : Answers} {s s' : TcpRelaySession}

/-! ## Before the connection -/

/-- Every step but a FIN: an open session loses its pcb only by being closed. -/
theorem unconnected_step {i : Input} (hfin : i.isFin = false) (hs : s.step P i = some s') :
    Unconnected s s' :=
  ((fires_keeps (fires_of_step hs)).2 hfin).unconnected

/-- Until a FIN, an open session without a pcb has written nothing. -/
theorem unconnected_run {crypto : ShadowsocksAeadSession} {is : List Input}
    (hfin : ∀ i ∈ is, i.isFin = false) (h : Reaches P crypto is s) :
    s.closing = false → s.pcb = none → written s.trace = [] := by
  have hG : Along (step P) (fun _ i => i.isFin = false) (start crypto) is :=
    along_of_forall (fun i hi _ => hfin i hi) _
  refine run_guarded_inv (fun s => s.closing = false → s.pcb = none → written s.trace = [])
    ?_ (fun _ _ => rfl) hG h
  intro s i s' hI hfin hs hc hp
  obtain ⟨hc', hp', hw⟩ := unconnected_step hfin hs hc hp
  exact hw.trans (hI hc' hp')

/-! ## The client's EOF -/

/-- An EOF that takes `s` to `s'` loses nothing: `tcp_write` took all that was accepted before
    it, and if that is anything the connection is not aborted. -/
def KeepsRequest (s s' : TcpRelaySession) : Prop :=
  written s.trace = accepted s.trace ∧
    (accepted s.trace ≠ [] → ∀ acts, s'.trace = s.trace ++ acts → Action.tcpAbort ∉ acts)

theorem Ledger.written_eq_iff (h : Ledger s) :
    written s.trace = accepted s.trace ↔ s.pendingLwip = [] := by
  rw [h.bytes, List.self_eq_append_right, List.flatten_eq_nil_iff]
  constructor
  · intro hnil
    refine List.eq_nil_iff_forall_not_mem.mpr fun p hp => ?_
    exact (h.chunks p hp).1 (hnil p hp)
  · intro hnil
    rw [hnil]
    intro p hp
    cases hp

/-- Closing a session aborts no connection if `tcp_close` succeeds. -/
theorem close_graceful (h : lw.close = .ERR_OK) (s : TcpRelaySession) :
    ∃ acts, (s.close lw).trace = s.trace ++ acts ∧ Action.tcpAbort ∉ acts := by
  cases hc : s.closing with
  | true => exact ⟨[], by rw [close_of_closing hc, List.append_nil], List.not_mem_nil⟩
  | false =>
    refine ⟨.socketClose :: closeActs lw s.pcb, by rw [close_of_open hc], ?_⟩
    cases s.pcb <;> simp [closeActs, h]

/-- An EOF that finds a connection it can shut down shuts it down. -/
theorem handleClientEof_graceful {pcb : TcpPcb} (hp : s.pcb = some pcb)
    (hst : pcb.state.canShutdown = true) (hsh : lw.shutdown.1 = .ERR_OK) (hcl : lw.close = .ERR_OK) :
    ∃ acts, (s.handleClientEof lw).trace = s.trace ++ acts ∧ Action.tcpAbort ∉ acts := by
  rcases handleClientEof_cases lw s with ⟨hnone, -⟩ | ⟨q, hq, ⟨-, -, he⟩ | ⟨hbad, -⟩⟩
  · rw [hp] at hnone
    cases hnone
  · rw [he]
    dsimp only
    split
    · obtain ⟨acts, hacts, hmem⟩ := close_graceful hcl
        { s with clientEof := true, pcb := some (halfClosed lw q),
                 trace := s.trace ++ [.tcpShutdown] }
      refine ⟨.tcpShutdown :: acts, ?_, by simp [hmem]⟩
      rw [hacts, List.append_assoc, List.singleton_append]
    · exact ⟨[.tcpShutdown], rfl, by simp⟩
  · obtain rfl := Option.some.inj (hp.symm.trans hq)
    rcases hbad with hbad | hbad
    · rw [hst] at hbad
      cases hbad
    · exact absurd hsh hbad

/-- Any other connection is aborted. -/
theorem handleClientEof_abort (lw : Answers) {pcb : TcpPcb} (hp : s.pcb = some pcb)
    (hst : pcb.state.canShutdown = false) :
    ∃ acts, (s.handleClientEof lw).trace = s.trace ++ acts ∧ Action.tcpAbort ∈ acts := by
  rcases handleClientEof_cases lw s with ⟨hnone, -⟩ | ⟨q, hq, ⟨hok, -⟩ | ⟨-, acts, -, habort, he⟩⟩
  · rw [hp] at hnone
    cases hnone
  · obtain rfl := Option.some.inj (hp.symm.trans hq)
    rw [hst] at hok
    cases hok
  · obtain ⟨more, hmore, -⟩ := (close_frame lw
      { s with clientEof := true, pcb := none, activeSelf := false, trace := s.trace ++ acts }).trace
    refine ⟨acts ++ more, ?_, List.mem_append_left more habort⟩
    rw [he, hmore, List.append_assoc]

/-- When a clean EOF loses nothing. For every run without a remote FIN to an open session, and
    an EOF there with no lwIP failure: all accepted payload has been written and the connection
    is not aborted, exactly if there was no payload, or there is a connection in a state that
    can be shut down and the client is not paused. -/
theorem clientEof_keeps_iff {crypto : ShadowsocksAeadSession} {is : List Input}
    (hfin : ∀ i ∈ is, i.isFin = false) (h : Reaches P crypto is s) (hopen : s.closing = false)
    (hsh : lw.shutdown.1 = .ERR_OK) (hcl : lw.close = .ERR_OK)
    (hs : s.step P ⟨.clientRead .eof, lw⟩ = some s') :
    KeepsRequest s s' ↔ accepted s.trace = [] ∨
      ∃ pcb, s.pcb = some pcb ∧ pcb.state.canShutdown = true ∧ s.clientReadPaused = false := by
  have hL := ledger_run h
  have hP := paced_run h
  cases fires_of_step hs with
  | clientEof hpos _ =>
    constructor
    · rintro ⟨hwritten, habort⟩
      by_cases hreq : accepted s.trace = []
      · exact Or.inl hreq
      · right
        -- something was written, so there is a pcb
        obtain ⟨pcb, hp⟩ : ∃ pcb, s.pcb = some pcb := by
          refine Option.ne_none_iff_exists'.mp fun hnone => hreq ?_
          rw [← hwritten]
          exact unconnected_run hfin h hopen hnone
        refine ⟨pcb, hp, ?_, ?_⟩
        · by_contra hst
          obtain ⟨acts, hacts, hmem⟩ := handleClientEof_abort (s := { s with reads := s.reads - 1 })
            lw hp (Bool.eq_false_iff.mpr hst)
          exact habort hreq acts hacts hmem
        · by_contra hpause
          exact hP.stalled hopen ((Bool.not_eq_false _).mp hpause) hpos (hL.written_eq_iff.mp hwritten)
    · rintro (hreq | ⟨pcb, hp, hst, hpause⟩)
      · refine ⟨?_, fun hne => absurd hreq hne⟩
        have hbytes := hL.bytes
        rw [hreq] at hbytes
        rw [hreq]
        exact (List.append_eq_nil_iff.mp hbytes.symm).1
      · refine ⟨hL.written_eq_iff.mpr (hP.running hopen hpause pcb hp (canShutdown_ne_synSent hst)), ?_⟩
        intro _ acts hacts
        obtain ⟨acts', hacts', hmem⟩ := handleClientEof_graceful
          (s := { s with reads := s.reads - 1 }) hp hst hsh hcl
        rwa [List.append_cancel_left (hacts.symm.trans hacts')]

theorem clientEof_keeps_demo :
    (∀ i ∈ demoBacklog, i.isFin = false) ∧
    ∃ s s', Reaches demoPlatform demoCrypto demoBacklog s ∧
      s.step demoPlatform ⟨.clientRead .eof, willing⟩ = some s' ∧ accepted s.trace = [7] ∧
      KeepsRequest s s' := by
  have hfin : ∀ i ∈ demoBacklog, i.isFin = false := by
    intro i hi
    simp only [demoBacklog, demoOpening, List.cons_append, List.nil_append, List.mem_cons,
      List.not_mem_nil, or_false] at hi
    rcases hi with rfl | rfl | rfl | rfl <;> rfl
  obtain ⟨s, s', h, hs, hopen, hreq, hst⟩ : ∃ s s', Reaches demoPlatform demoCrypto demoBacklog s ∧
      s.step demoPlatform ⟨.clientRead .eof, willing⟩ = some s' ∧ s.closing = false ∧
      accepted s.trace = [7] ∧ ∃ pcb, s.pcb = some pcb ∧ pcb.state.canShutdown = true ∧
        s.clientReadPaused = false :=
    ⟨_, _, rfl, rfl, rfl, rfl, _, rfl, rfl, rfl⟩
  exact ⟨hfin, s, s', h, hs, hreq, (clientEof_keeps_iff hfin h hopen rfl rfl hs).mpr (Or.inr hst)⟩

/-- The client sends one byte and half-closes after its target's name was resolved but before the
    connection is made: the byte is still queued, and the connection is aborted. -/
theorem clientEof_aborts :
    ∃ s s', Reaches demoPlatform demoCrypto (demoOpening [domainTarget ++ [7]] ++
        [⟨.resolved .ERR_OK (some ⟨false, [10, 0, 0, 1]⟩), willing⟩]) s ∧
      s.closing = false ∧ s.step demoPlatform ⟨.clientRead .eof, willing⟩ = some s' ∧
      accepted s.trace = [7] ∧ written s.trace = [] ∧
      s'.trace = s.trace ++ [.tcpAbort, .socketClose] ∧ s'.pendingLwip = [[7]] :=
  ⟨_, _, rfl, rfl, rfl, rfl, rfl, rfl, rfl⟩

/-! ## After the remote's FIN -/

/-- The session has its target, but neither a pcb nor a resolution that could give it one. -/
structure Gone (s : TcpRelaySession) : Prop where
  target : s.gotTarget = true
  noPcb : s.pcb = none
  unresolving : s.resolving = none

/-- The payload an event decrypts from the client. -/
def payloadOf (P : Platform) (s : TcpRelaySession) (i : Input) : Bytes :=
  match i.event with
  | .clientRead (.data bytes) => (s.chunksOf P bytes).flatten
  | _ => []

theorem Gone.downstream (h : Gone s) (hd : Downstream s s') : Gone s' := by
  have hres : s'.resolving = s.resolving := hd.keeps.pieces .aim (by decide)
  refine ⟨(hd.keeps.target (by decide)).trans h.target, ?_, hres.trans h.unresolving⟩
  rcases hd.closing_or_same with ⟨-, hp, -⟩ | ⟨-, hp, -⟩
  · exact hp.trans h.noPcb
  · exact hp

theorem Gone.readEncryptedStream (h : Gone s) : Gone s.readEncryptedStream := by
  unfold TcpRelaySession.readEncryptedStream
  split
  · exact h
  · exact ⟨h.target, h.noPcb, h.unresolving⟩

/-- The read handler queues the payload and goes on reading; it writes nothing. -/
theorem Gone.onClientData (h : Gone s) (bytes : Bytes) :
    Gone (s.onClientData P lw bytes) ∧ written (s.onClientData P lw bytes).trace = written s.trace ∧
      accepted (s.onClientData P lw bytes).trace =
        accepted s.trace ++ (s.chunksOf P bytes).flatten := by
  have hq (c : ShadowsocksAeadSession) (input : Bytes) :
      Gone ((s.queued (payloads (s.chunksOf P bytes))).withInput c input) :=
    ⟨h.target, h.noPcb, h.unresolving⟩
  have hw : written (s.queued (payloads (s.chunksOf P bytes))).trace = written s.trace := by
    unfold queued
    rw [written_append, written_map_accept, List.append_nil]
  have ha : accepted (s.queued (payloads (s.chunksOf P bytes))).trace =
      accepted s.trace ++ (s.chunksOf P bytes).flatten := by
    unfold queued
    rw [accepted_append, accepted_map_accept, flatten_payloads]
  rcases onClientData_cases P lw s bytes with ⟨t, hp, -, he⟩ | ⟨r, t, c, hp, -, -, he⟩ <;>
    rw [processAll_of_target P h.target] at hp <;> obtain ⟨-, rfl⟩ := Prod.mk.inj hp <;> rw [he]
  · rw [flushToLwip_of_noPcb (hq _ _).noPcb]
    have hu := (readEncryptedStream_frame ((s.queued (payloads (s.chunksOf P bytes))).withInput
      (s.decrypted P bytes).state (s.decrypted P bytes).rest)).untouched (by decide)
    exact ⟨(hq _ _).readEncryptedStream, hu.wrote.trans hw, hu.taken.trans ha⟩
  · have hu := (close_frame lw ((s.queued (payloads (s.chunksOf P bytes))).withInput c
      (s.encryptedIn ++ bytes))).untouched (by decide)
    exact ⟨(hq _ _).downstream (close_downstream lw _), hu.wrote.trans hw, hu.taken.trans ha⟩

/-- A step without a pcb: the payload it decrypts is accepted, and nothing is written. -/
theorem gone_step {i : Input} (h : Gone s) (hs : s.step P i = some s') :
    Gone s' ∧ written s'.trace = written s.trace ∧
      accepted s'.trace = accepted s.trace ++ s.payloadOf P i := by
  have hcalm (hg : Gone s') (hu : Untouched s s') : Gone s' ∧ written s'.trace = written s.trace ∧
      accepted s'.trace = accepted s.trace ++ [] :=
    ⟨hg, hu.wrote, hu.taken.trans (List.append_nil _).symm⟩
  have hpcb {pcb : TcpPcb} (hp : s.pcb = some pcb) : False := by
    rw [h.noPcb] at hp
    cases hp
  have hres {port : Nat} (hr : s.resolving = some port) : False := by
    rw [h.unresolving] at hr
    cases hr
  have hread : Gone { s with reads := s.reads - 1 } := ⟨h.target, h.noPcb, h.unresolving⟩
  have hf := fires_of_step hs
  have hkeeps := (fires_keeps hf).1
  cases hf with
  | @saltRead lw salt =>
    refine hcalm ?_ (hkeeps.untouched (by simp [footprint]))
    have hsalt : Gone { s with saltPending := false } := ⟨h.target, h.noPcb, h.unresolving⟩
    rcases onSaltRead_cases P lw { s with saltPending := false } salt with he | ⟨key, he⟩ <;> rw [he]
    · exact hsalt.downstream (close_downstream _ _)
    · have hkey : Gone ({ s with saltPending := false }.keyed key) :=
        ⟨h.target, h.noPcb, h.unresolving⟩
      exact hkey.readEncryptedStream
  | clientData => exact hread.onClientData _
  | @clientEof lw r _ hr =>
    have hu : Untouched s ({ s with reads := s.reads - 1 }.handleClientEof lw) := by
      rcases hr with rfl | rfl <;> exact hkeeps.untouched (by simp [footprint])
    have he : s.payloadOf P ⟨.clientRead r, lw⟩ = [] := by
      rcases hr with rfl | rfl <;> rfl
    rw [he]
    refine hcalm ?_ hu
    rcases handleClientEof_cases lw { s with reads := s.reads - 1 } with ⟨-, he⟩ | ⟨pcb, hp, -⟩
    · rw [he]
      have heof : Gone { s with reads := s.reads - 1, clientEof := true } :=
        ⟨h.target, h.noPcb, h.unresolving⟩
      exact heof.downstream (close_downstream lw _)
    · exact (hpcb hp).elim
  | clientError =>
    exact hcalm (hread.downstream (close_downstream _ _)) (hkeeps.untouched (by simp [footprint]))
  | @clientWrote lw ok buf writes =>
    have hpop : Gone { s with writes := writes } := ⟨h.target, h.noPcb, h.unresolving⟩
    have hd := onClientWrote_downstream lw { s with writes := writes } buf ok
    exact hcalm (hpop.downstream hd) (hkeeps.untouched (by simp [footprint]))
  | resolved hr => exact (hres hr).elim
  | unheard hr => exact (hres hr).elim
  | connected hp => exact (hpcb hp).elim
  | recvError hp => exact (hpcb hp).elim
  | remoteFin hp => exact (hpcb hp).elim
  | recvData hp => exact (hpcb hp).elim
  | sent hp => exact (hpcb hp).elim
  | err hp => exact (hpcb hp).elim

/-- A run without a pcb accepts what it decrypts and writes nothing. -/
theorem gone_run {is : List Input} (h : Gone s) (hrun : run (step P) s is = some s') :
    Gone s' ∧ written s'.trace = written s.trace ∧ accepted s.trace <+: accepted s'.trace ∧
      (accepted s'.trace = accepted s.trace ↔
        Along (step P) (fun s i => s.payloadOf P i = []) s is) := by
  induction is generalizing s with
  | nil =>
    obtain rfl := Option.some.inj hrun
    exact ⟨h, rfl, List.prefix_refl _, iff_of_true rfl trivial⟩
  | cons i is ih =>
    obtain ⟨m, hm, hrun⟩ := run_cons.mp hrun
    obtain ⟨hg, hw, ha⟩ := gone_step h hm
    obtain ⟨hg', hw', hpre, hiff⟩ := ih hg hrun
    refine ⟨hg', hw'.trans hw, (List.prefix_append _ _).trans (ha ▸ hpre), ?_, ?_⟩
    · intro hsame
      -- what follows the accepted bytes of `s` is empty, the payload of this event first
      have hnil : s.payloadOf P i = [] := by
        rw [ha, hsame] at hpre
        exact List.append_right_eq_self.mp (hpre.eq_of_length_le (by simp))
      rw [hnil, List.append_nil] at ha
      refine ⟨hnil, fun m' hm' => ?_⟩
      obtain rfl := Option.some.inj (hm.symm.trans hm')
      exact hiff.mp (hsame.trans ha.symm)
    · rintro ⟨hnil, halong⟩
      rw [hnil, List.append_nil] at ha
      exact (hiff.mpr (halong m hm)).trans ha

/-- The FIN leaves the session without a pcb for good. -/
theorem gone_of_fin {rng : Option Salt} (hR : Reading 0 s)
    (hs : s.step P ⟨.recv none .ERR_OK rng, lw⟩ = some s') : Gone s' := by
  cases fires_of_step hs with
  | recvError _ herr => exact absurd rfl herr
  | remoteFin hp =>
    have hres : s.resolving = none := by
      by_contra hne
      have hnone := (hR.resolving hne).1
      rw [hp] at hnone
      cases hnone
    have hsev : Gone (s.severed lw) := ⟨hR.gotTarget hp, rfl, hres⟩
    rw [handleRemoteFin_eq hp]
    split
    · exact hsev.downstream (close_downstream lw _)
    · exact hsev

/-- Every byte accepted since `s` has been written at `s'`, or `s'` has a pcb to write it to. -/
def Served (s s' : TcpRelaySession) : Prop :=
  ∀ n, (accepted s.trace).length ≤ n → n < (accepted s'.trace).length →
    n < (written s'.trace).length ∨ s'.pcb ≠ none

/-- Data after a FIN: for every run, every FIN and every continuation of the run, the payload
    decrypted since the FIN is served exactly if none was decrypted. -/
theorem afterFin_served_iff {crypto : ShadowsocksAeadSession} {is js : List Input}
    {s₁ s₂ : TcpRelaySession} {rng : Option Salt} (h : Reaches P crypto is s)
    (hfin : s.step P ⟨.recv none .ERR_OK rng, lw⟩ = some s₁) (hrun : run (step P) s₁ js = some s₂) :
    Served s₁ s₂ ↔ Along (step P) (fun s i => s.payloadOf P i = []) s₁ js := by
  obtain ⟨hg, hw, hpre, hiff⟩ := gone_run (gone_of_fin (reading_run h) hfin) hrun
  have hL : Ledger s₁ := ledger_step (ledger_run h) hfin
  have hle : (written s₁.trace).length ≤ (accepted s₁.trace).length := by
    rw [hL.bytes, List.length_append]
    exact Nat.le_add_right _ _
  rw [← hiff]
  constructor
  · intro hserved
    by_contra hne
    have hlt : (accepted s₁.trace).length < (accepted s₂.trace).length := by
      refine lt_of_le_of_ne hpre.length_le fun heq => hne ?_
      exact (hpre.eq_of_length heq).symm
    rcases hserved _ (le_refl _) hlt with hn | hn
    · rw [hw] at hn
      omega
    · exact hn hg.noPcb
  · intro hsame n hn hlt
    rw [hsame] at hlt
    omega

/-- The remote's FIN. -/
def demoFin : Input := ⟨.recv none .ERR_OK none, willing⟩

theorem afterFin_served_demo :
    ∃ s s₁ s₂, Reaches demoPlatform demoCrypto demoConnected s ∧
      s.step demoPlatform demoFin = some s₁ ∧
      run (step demoPlatform) s₁ [⟨.clientRead (.data [0]), willing⟩] = some s₂ ∧ Served s₁ s₂ := by
  obtain ⟨s, s₁, s₂, h, hfin, hrun, hnil⟩ :
      ∃ s s₁ s₂, Reaches demoPlatform demoCrypto demoConnected s ∧
        s.step demoPlatform demoFin = some s₁ ∧
        run (step demoPlatform) s₁ [⟨.clientRead (.data [0]), willing⟩] = some s₂ ∧
        s₁.payloadOf demoPlatform ⟨.clientRead (.data [0]), willing⟩ = [] :=
    ⟨_, _, _, rfl, rfl, rfl, rfl⟩
  exact ⟨s, s₁, s₂, h, hfin, hrun,
    (afterFin_served_iff h hfin hrun).mpr ⟨hnil, fun _ _ => trivial⟩⟩

/-- After the FIN the client sends one more byte: it is read and queued, the session stays
    open, and there is no pcb it could ever be written to. -/
theorem afterFin_strands :
    ∃ s s₁ s₂, Reaches demoPlatform demoCrypto demoConnected s ∧
      s.step demoPlatform demoFin = some s₁ ∧
      run (step demoPlatform) s₁ [⟨.clientRead (.data ((demoWire [ipTarget, [9]]).drop
        (demoWire [ipTarget]).length)), willing⟩] = some s₂ ∧
      s₂.closing = false ∧ s₂.clientEof = false ∧ accepted s₁.trace = [] ∧
      accepted s₂.trace = [9] ∧ written s₂.trace = [] ∧ s₂.pcb = none :=
  ⟨_, _, _, rfl, rfl, rfl, rfl, rfl, rfl, rfl, rfl, rfl⟩

end TcpRelaySession

end Ovpn2ss.Tcp
