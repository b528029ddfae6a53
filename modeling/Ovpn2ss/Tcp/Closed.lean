/-
  A closed session stays closed, but for one path.

  `close` runs once. If it runs inside `process_decrypted_chunk`, because the chunk that should
  name the target does not parse, the loop of the read handler goes on: `got_target_` is still
  false, so the next chunk of the same read is taken for the address, and an IP address is
  connected to. The `close` that would undo it is a no-op by then (`reopens_reconnects`).

  `staysClosed_iff`: a run keeps closed sessions closed exactly if no read of it does that. Every
  other way to a pcb asks `closing_` first, or is taken by open sessions only (`Shut`).
-/
import Ovpn2ss.Tcp.HalfClose

namespace Ovpn2ss.Tcp

open Ovpn2ss.Aead Ovpn2ss.Lib Ovpn2ss.Lwip

def Action.isConnect : Action → Bool
  | .tcpConnect _ _ => true
  | _ => false

theorem isConnect_of_piece {a : Action} (h : a.piece ≠ .aim) : a.isConnect = false := by
  cases a <;> first | rfl | exact absurd rfl h

/-- No `tcp_connect` comes after the socket was closed. -/
def NeverReconnects (trace : List Action) : Prop :=
  trace.Pairwise fun a b => a = .socketClose → b.isConnect = false

theorem NeverReconnects.append {trace acts : List Action} (h : NeverReconnects trace)
    (ha : ∀ a ∈ acts, a.isConnect = false) : NeverReconnects (trace ++ acts) := by
  refine List.pairwise_append.mpr ⟨h, ?_, fun _ _ b hb _ => ha b hb⟩
  exact List.pairwise_of_forall_mem_list fun _ _ b hb _ => ha b hb

theorem NeverReconnects.of_prefix {trace trace' : List Action} (h : NeverReconnects trace')
    (hp : trace <+: trace') : NeverReconnects trace :=
  List.Pairwise.sublist hp.sublist h

namespace TcpRelaySession

variable {P : Platform} {lw : Answers} {s s' : TcpRelaySession}

/-- A closed session has no pcb and does not hold itself, and none was connected again. -/
structure StaysClosed (s : TcpRelaySession) : Prop where
  released : s.closing = true → s.pcb = none ∧ s.activeSelf = false
  connects : NeverReconnects s.trace

/-! ## What keeps a closed session closed -/

/-- `StaysClosed`, and the trace of an open session does not say that it was closed. -/
structure Shut (s : TcpRelaySession) : Prop extends StaysClosed s where
  opened : s.closing = false → .socketClose ∉ s.trace

/-- Calls other than `tcp_connect`, in a session that is closed no more and no less than before. -/
theorem Shut.quiet (h : Shut s) {acts : List Action} (hc : s'.closing = s.closing)
    (hp : s.closing = true → s'.pcb = none ∧ s'.activeSelf = false)
    (ht : s'.trace = s.trace ++ acts) (ha : ∀ a ∈ acts, a.isConnect = false ∧ a ≠ .socketClose) :
    Shut s' := by
  refine ⟨⟨fun hc' => hp (hc.symm.trans hc'), ?_⟩, ?_⟩
  · rw [ht]
    exact h.connects.append fun a ha' => (ha a ha').1
  · rw [ht, hc]
    intro hopen hmem
    rcases List.mem_append.mp hmem with hmem | hmem
    · exact h.opened hopen hmem
    · exact (ha _ hmem).2 rfl

theorem Shut.update (h : Shut s) (hc : s'.closing = s.closing)
    (hp : s.closing = true → s'.pcb = none ∧ s'.activeSelf = false) (ht : s'.trace = s.trace) :
    Shut s' :=
  h.quiet hc hp (ht.trans (List.append_nil _).symm) (by simp)

/-- Ending the session: what is logged is no connect. -/
theorem Shut.closed (h : Shut s) {acts : List Action} (hc : s'.closing = true) (hp : s'.pcb = none)
    (hself : s'.activeSelf = false) (ht : s'.trace = s.trace ++ acts)
    (ha : ∀ a ∈ acts, a.piece ≠ .aim) : Shut s' := by
  refine ⟨⟨fun _ => ⟨hp, hself⟩, ?_⟩, fun hopen => ?_⟩
  · rw [ht]
    exact h.connects.append fun a ha' => isConnect_of_piece (ha a ha')
  · rw [hc] at hopen
    cases hopen

theorem Shut.downstream (h : Shut s) (hd : Downstream s s') : Shut s' := by
  obtain ⟨acts, ht, ha⟩ := hd.keeps.trace
  have hquiet : ∀ a ∈ acts, a.piece ≠ .aim := fun a hmem hp => absurd (ha a hmem) (by rw [hp]; decide)
  rcases hd.conn with hk | ⟨hc, hp, hself⟩
  · obtain ⟨hc, hp, hself⟩ := hk.conn (by decide)
    cases hclosing : s.closing with
    | true =>
      obtain ⟨hp', hself'⟩ := h.released hclosing
      exact h.closed (hc.trans hclosing) (hp.trans hp') (hself.trans hself') ht hquiet
    | false =>
      obtain ⟨acts, ht, ha⟩ := hk.trace
      refine h.quiet hc (fun hc' => ?_) ht fun a hmem => ?_
      · rw [hclosing] at hc'
        cases hc'
      · have hclient : a.piece = .client := List.mem_singleton.mp (ha a hmem)
        refine ⟨isConnect_of_piece (by rw [hclient]; decide), ?_⟩
        rintro rfl
        cases hclient
  · exact h.closed hc hp hself ht hquiet

theorem Shut.close (h : Shut s) : Shut (s.close lw) := h.downstream (close_downstream lw s)

/-- A session with a pcb is open. -/
theorem Shut.isOpen (h : Shut s) {pcb : TcpPcb} (hp : s.pcb = some pcb) : s.closing = false := by
  cases hc : s.closing with
  | false => rfl
  | true =>
    have hnone := (h.released hc).1
    rw [hp] at hnone
    cases hnone

/-- An open session may change its pcb. -/
theorem Shut.ofOpen (h : Shut s) (hopen : s.closing = false) {acts : List Action}
    (hc : s'.closing = s.closing) (ht : s'.trace = s.trace ++ acts)
    (ha : ∀ a ∈ acts, a.isConnect = false ∧ a ≠ .socketClose) : Shut s' :=
  h.quiet hc (fun hc' => by rw [hopen] at hc'; cases hc') ht ha

/-- And may connect. -/
theorem Shut.connectIp (h : Shut s) (hopen : s.closing = false) (ip : IpAddr) (port : Nat) :
    Shut (s.connectIp lw ip port) := by
  have hcon (pcb : TcpPcb) : Shut { s with pcb := some pcb, activeSelf := true,
                                           trace := s.trace ++ [.tcpConnect ip port] } := by
    refine ⟨⟨fun hc => ?_, ?_⟩, fun _ hmem => ?_⟩
    · rw [show s.closing = true from hc] at hopen
      cases hopen
    · refine List.pairwise_append.mpr ⟨h.connects, List.pairwise_singleton _ _, ?_⟩
      rintro a hmem _ _ rfl
      exact absurd hmem (h.opened hopen)
    · rcases List.mem_append.mp hmem with hmem | hmem
      · exact h.opened hopen hmem
      · cases List.mem_singleton.mp hmem
  rcases connectIp_cases lw s ip port with he | he | he <;> rw [he]
  · exact hcon synSent
  · exact (hcon tcpNew).close
  · have hnone : Shut { s with pcb := none } :=
      h.update rfl (fun hc => ⟨rfl, (h.released hc).2⟩) rfl
    exact hnone.close

theorem Shut.readEncryptedStream (h : Shut s) : Shut s.readEncryptedStream := by
  unfold TcpRelaySession.readEncryptedStream
  split
  · exact h
  · exact h.quiet rfl h.released rfl (by simp [Action.isConnect])

theorem Shut.queued (h : Shut s) (ps : List Bytes) : Shut (s.queued ps) := by
  refine h.quiet rfl h.released rfl fun a ha => ?_
  obtain ⟨p, -, rfl⟩ := List.mem_map.mp ha
  exact ⟨rfl, by simp⟩

theorem Shut.flushToLwip (h : Shut s) : Shut (s.flushToLwip lw) := by
  rcases flushToLwip_cases lw s with
    ⟨-, he⟩ | ⟨pcb, pcb', sent, rest, hp, -, -, hres⟩
  · rwa [he]
  · have hflushed (rest : List Bytes) : Shut (s.flushed pcb' sent rest) := by
      refine h.ofOpen (h.isOpen hp) rfl rfl fun a ha => ?_
      obtain ⟨data, -, rfl⟩ := List.mem_map.mp ha
      exact ⟨rfl, by simp⟩
    rcases hres with ⟨-, he⟩ | ⟨-, he⟩ | ⟨-, he⟩ <;> rw [he]
    · exact hflushed []
    · exact (hflushed rest).update rfl (hflushed rest).released rfl
    · exact (hflushed rest).close

theorem Shut.handleClientEof (h : Shut s) : Shut (s.handleClientEof lw) := by
  rcases handleClientEof_cases lw s with
    ⟨-, he⟩ | ⟨pcb, hp, ⟨-, -, he⟩ | ⟨-, acts, hacts, -, he⟩⟩ <;> rw [he]
  · have heof : Shut { s with clientEof := true } := h.update rfl h.released rfl
    exact heof.close
  · have hsh : Shut { s with clientEof := true, pcb := some (halfClosed lw pcb),
                             trace := s.trace ++ [.tcpShutdown] } :=
      h.ofOpen (h.isOpen hp) rfl rfl (by simp [Action.isConnect])
    dsimp only
    split
    · exact hsh.close
    · exact hsh
  · rw [close_of_open (s := { s with clientEof := true, pcb := none, activeSelf := false,
                                     trace := s.trace ++ acts }) (h.isOpen hp)]
    refine h.closed rfl rfl rfl (List.append_assoc _ _ _) fun a ha => ?_
    rcases List.mem_append.mp ha with ha | ha
    · rw [hacts a ha]
      decide
    · rw [List.mem_singleton.mp ha]
      decide

theorem socketClose_notMem_closeActs (lw : Answers) (pcb : Option TcpPcb) :
    Action.socketClose ∉ closeActs lw pcb := by
  unfold closeActs
  split
  · exact List.not_mem_nil
  · split <;> simp

theorem Shut.handleRemoteFin (h : Shut s) {pcb : TcpPcb} (hp : s.pcb = some pcb) :
    Shut (s.handleRemoteFin lw) := by
  have hsev : Shut (s.severed lw) := by
    refine h.ofOpen (h.isOpen hp) rfl rfl fun a ha => ?_
    rcases List.mem_append.mp ha with ha | ha
    · rw [h.isOpen hp] at ha
      rw [List.mem_singleton.mp ha]
      exact ⟨rfl, by simp⟩
    · refine ⟨isConnect_of_piece (by rw [closeActs_piece ha]; decide), ?_⟩
      rintro rfl
      exact socketClose_notMem_closeActs lw s.pcb ha
  rw [handleRemoteFin_eq hp]
  split
  · exact hsev.close
  · exact hsev

theorem Shut.onErr (h : Shut s) : Shut s.onErr := by
  rw [onErr_eq]
  refine h.closed rfl rfl rfl rfl fun a ha => ?_
  split at ha
  · cases ha
  · rw [List.mem_singleton.mp ha]
    decide

theorem Shut.maybeResumeClientRead (h : Shut s) : Shut (s.maybeResumeClientRead lw) := by
  rcases maybeResumeClientRead_cases lw s with he | ⟨pcb, -, -, -, he⟩ <;> rw [he]
  · exact h
  · have hgo : Shut { s with clientReadPaused := false } := h.update rfl h.released rfl
    exact hgo.flushToLwip.readEncryptedStream

/-! ## The read handler -/

/-- Without an address among them, or up to the first. -/
theorem address_split (chunks : List Bytes) :
    (∀ b ∈ chunks, parseSsAddress b = none) ∨
    ∃ bad chunk post target rest, chunks = bad ++ chunk :: post ∧
      (∀ b ∈ bad, parseSsAddress b = none) ∧ parseSsAddress chunk = some (target, rest) := by
  induction chunks with
  | nil => exact Or.inl fun _ hb => by cases hb
  | cons c chunks ih =>
    rcases haddr : parseSsAddress c with _ | ⟨target, rest⟩
    · have hc {bad : List Bytes} (hbad : ∀ b ∈ bad, parseSsAddress b = none) :
          ∀ b ∈ c :: bad, parseSsAddress b = none := by
        intro b hb
        rcases List.mem_cons.mp hb with rfl | hb
        · exact haddr
        · exact hbad b hb
      rcases ih with hall | ⟨bad, chunk, post, target, rest, rfl, hbad, hchunk⟩
      · exact Or.inl (hc hall)
      · exact Or.inr ⟨c :: bad, chunk, post, target, rest, rfl, hc hbad, hchunk⟩
    · exact Or.inr ⟨[], c, chunks, target, rest, rfl, fun _ hb => (by cases hb), haddr⟩

/-- The chunks of a read, processed while the target is not known, close the session and then
    connect it: some chunks without an address, then one with an IP address, and lwIP has a pcb. -/
def Reopens (P : Platform) (lw : Answers) (chunks : List Bytes) : Prop :=
  lw.newPcb = true ∧ ∃ bad chunk post target rest ip, chunks = bad ++ chunk :: post ∧ bad ≠ [] ∧
    (∀ b ∈ bad, parseSsAddress b = none) ∧ parseSsAddress chunk = some (target, rest) ∧
    target.type ≠ .Domain ∧ P.ipaddrAton target.host = some ip

/-- Without a new pcb `connect_ip` leaves a closed session closed. -/
theorem Shut.connectIp_noPcb (h : Shut s) (hnew : lw.newPcb = false) (ip : IpAddr) (port : Nat) :
    Shut (s.connectIp lw ip port) := by
  have hnone : Shut { s with pcb := none } := h.update rfl (fun hc => ⟨rfl, (h.released hc).2⟩) rfl
  rw [TcpRelaySession.connectIp, if_neg (by rw [hnew]; decide)]
  exact hnone.close

/-- The target is connected to by an open session, or there is nothing to connect. -/
theorem Shut.connectTarget (h : Shut s) {target : TargetAddress}
    (hip : ∀ ip, target.type ≠ .Domain → P.ipaddrAton target.host = some ip →
      s.closing = false ∨ lw.newPcb = false) : Shut (s.connectTarget P lw target).2 := by
  rcases connectTarget_cases P lw s target with ⟨-, r, he⟩ | ⟨-, -, e, he⟩ | ⟨hty, ip, haton, he⟩ <;>
    rw [he]
  · exact h.quiet rfl h.released rfl (by simp [Action.isConnect])
  · exact h
  · rcases hip ip hty haton with hopen | hnew
    · exact h.connectIp hopen ip target.port
    · exact h.connectIp_noPcb hnew ip target.port

/-- Processing the chunks of a read keeps closed sessions closed, unless they reopen it. -/
theorem Shut.processAll (h : Shut s) {chunks : List Bytes}
    (hopen : s.gotTarget = false → s.closing = false ∧ ¬ Reopens P lw chunks) :
    Shut (processAll P lw s chunks).2 := by
  cases hg : s.gotTarget with
  | true =>
    rw [processAll_of_target P hg]
    exact h.queued _
  | false =>
    obtain ⟨hc, hre⟩ := hopen hg
    rcases address_split chunks with hall | ⟨bad, chunk, post, target, rest, rfl, hbad, haddr⟩
    · rw [← List.append_nil chunks, processAll_bad P hg hall]
      split
      · exact h
      · exact h.close
    · have hg' : (if bad = [] then s else s.close lw).gotTarget = false := by
        split
        · exact hg
        · exact ((close_frame lw s).target (by decide)).trans hg
      have hu : Shut (if bad = [] then s else s.close lw) := by
        split
        · exact h
        · exact h.close
      have hclosed : bad = [] → (if bad = [] then s else s.close lw).closing = false := by
        intro hnil
        rw [if_pos hnil, hc]
      rw [processAll_bad P hg hbad, processAll_address P hg' haddr]
      generalize (if bad = [] then s else s.close lw) = u at hu hclosed ⊢
      have ht : Shut ({ u with gotTarget := true }.connectTarget P lw target).2 := by
        have hu' : Shut { u with gotTarget := true } := hu.update rfl hu.released rfl
        refine hu'.connectTarget fun ip hty haton => ?_
        by_cases hnil : bad = []
        · exact Or.inl (hclosed hnil)
        · refine Or.inr (Bool.eq_false_iff.mpr fun hnew => hre ?_)
          exact ⟨hnew, bad, chunk, post, target, rest, ip, rfl, hnil, hbad, haddr, hty, haton⟩
      have hgot : ({ u with gotTarget := true }.connectTarget P lw target).2.gotTarget = true :=
        (connectTarget_frame P lw _ target).target (by decide)
      generalize { u with gotTarget := true }.connectTarget P lw target = r at ht hgot ⊢
      rcases r with ⟨e | _, t⟩
      · exact ht
      · dsimp only
        rw [processAll_of_target P (s := t.queued (payloads [rest])) hgot]
        exact (ht.queued _).queued _

theorem Shut.onClientData (h : Shut s) {bytes : Bytes}
    (hopen : s.gotTarget = false → s.closing = false ∧ ¬ Reopens P lw (s.chunksOf P bytes)) :
    Shut (s.onClientData P lw bytes) := by
  refine onClientData_inv P Shut Shut ?_ ?_ (h.processAll hopen)
  · intro t c rest ht
    have hin : Shut (t.withInput c rest) := ht.update rfl ht.released rfl
    exact hin.flushToLwip.readEncryptedStream
  · intro t c rest ht
    have hin : Shut (t.withInput c rest) := ht.update rfl ht.released rfl
    exact hin.close

/-! ## Runs -/

/-- An event is a read that closes the session and connects it again. -/
def Reopening (P : Platform) (s : TcpRelaySession) (i : Input) : Prop :=
  s.gotTarget = false ∧ ∃ bytes, i.event = .clientRead (.data bytes) ∧
    Reopens P i.lw (s.chunksOf P bytes)

/-- A session that reads without a target is open. -/
theorem Reading.isOpen (h : Reading 0 s) (hpos : 0 < s.reads) (hg : s.gotTarget = false) :
    s.closing = false := by
  refine Bool.eq_false_iff.mpr fun hc => ?_
  have := (h.fresh hg).2.2.2.2.2.2 hc
  omega

theorem shut_step {i : Input} (hR : Reading 0 s) (h : Shut s) (hG : ¬ Reopening P s i)
    (hs : s.step P i = some s') : Shut s' := by
  have hread : Shut { s with reads := s.reads - 1 } := h.update rfl h.released rfl
  cases fires_of_step hs with
  | saltRead =>
    have hsalt : Shut { s with saltPending := false } := h.update rfl h.released rfl
    rcases onSaltRead_cases P _ { s with saltPending := false } _ with he | ⟨key, he⟩ <;> rw [he]
    · exact hsalt.close
    · have hkey : Shut ({ s with saltPending := false }.keyed key) := h.update rfl h.released rfl
      exact hkey.readEncryptedStream
  | @clientData lw bytes hpos =>
    refine hread.onClientData fun hg => ⟨hR.isOpen hpos hg, fun hre => ?_⟩
    exact hG ⟨hg, bytes, rfl, hre⟩
  | clientEof => exact hread.handleClientEof
  | clientError => exact hread.close
  | @clientWrote lw ok buf writes =>
    have hpop : Shut { s with writes := writes } := h.update rfl h.released rfl
    exact hpop.downstream (onClientWrote_downstream _ _ _ _)
  | resolved =>
    have hdone : Shut { s with resolving := none } := h.update rfl h.released rfl
    exact onResolved_inv Shut hdone.close fun hopen ip => hdone.connectIp hopen ip _
  | unheard => exact h.update rfl h.released rfl
  | @connected lw err queuelen pcb hp =>
    have hest : Shut { s with pcb := some { pcb with state := .ESTABLISHED,
                                                     sndQueuelen := queuelen } } :=
      h.ofOpen (h.isOpen hp) rfl (List.append_nil _).symm (by simp)
    exact onConnected_inv Shut hest.close hest.flushToLwip
  | recvError => exact h.close
  | remoteFin hp => exact h.handleRemoteFin hp
  | recvData => exact h.downstream (onRecv_downstream P _ s _ _)
  | @sent lw acked queuelen pcb hp =>
    have hack : Shut { s with pcb := some { pcb with sndBuf := pcb.sndBuf + acked,
                                                     sndQueuelen := queuelen } } :=
      h.ofOpen (h.isOpen hp) rfl (List.append_nil _).symm (by simp)
    exact hack.maybeResumeClientRead
  | err => exact h.onErr

/-- In a closed session `connect_ip` connects all the same. -/
theorem connectIp_of_closing (hc : s.closing = true) (hnew : lw.newPcb = true) (ip : IpAddr)
    (port : Nat) : (s.connectIp lw ip port).trace = s.trace ++ [.tcpConnect ip port] := by
  rw [connectIp, if_pos hnew]
  dsimp only
  split
  · have hc' : ({ s with pcb := some tcpNew, activeSelf := true }.log
        (.tcpConnect ip port)).closing = true := hc
    rw [close_of_closing hc']
    rfl
  · rfl

/-- Chunks that reopen a session are connected to after the close. -/
theorem reopens_reconnects (hg : s.gotTarget = false) (hc : s.closing = false) {chunks : List Bytes}
    (h : Reopens P lw chunks) : ¬ NeverReconnects (processAll P lw s chunks).2.trace := by
  obtain ⟨hnew, bad, chunk, post, target, rest, ip, rfl, hne, hbad, haddr, hty, haton⟩ := h
  have hg' : (s.close lw).gotTarget = false :=
    ((close_frame lw s).target (by decide)).trans hg
  have hcon : { s.close lw with gotTarget := true }.connectTarget P lw target =
      (.ok (), { s.close lw with gotTarget := true }.connectIp lw ip target.port) := by
    rw [connectTarget, if_neg hty, haton]
  have htrace := connectIp_of_closing (s := { s.close lw with gotTarget := true })
    (close_closing lw s) hnew ip target.port
  have hgot : ({ s.close lw with gotTarget := true }.connectIp lw ip target.port).gotTarget = true :=
    (connectIp_frame lw _ ip target.port).target (by decide)
  rw [processAll_bad P hg hbad, if_neg hne, processAll_address P hg' haddr, hcon]
  dsimp only
  generalize { s.close lw with gotTarget := true }.connectIp lw ip target.port = t at htrace hgot ⊢
  rw [processAll_of_target P (s := t.queued (payloads [rest])) hgot]
  intro hnever
  have hpre : t.trace <+: ((t.queued (payloads [rest])).queued (payloads post)).trace :=
    (List.prefix_append _ _).trans (List.prefix_append _ _)
  have hclose : Action.socketClose ∈ (s.close lw).trace := by
    rw [close_of_open hc]
    exact List.mem_append_right _ List.mem_cons_self
  have hlast := hnever.of_prefix hpre
  rw [htrace] at hlast
  have hpair := (List.pairwise_append.mp hlast).2.2 _ hclose _ (List.mem_singleton_self _) rfl
  cases hpair

/-- Nothing is taken off the trace. -/
theorem step_trace {i : Input} (hs : s.step P i = some s') : s.trace <+: s'.trace :=
  (fires_keeps (fires_of_step hs)).1.grows

theorem run_trace {is : List Input} (h : run (step P) s is = some s') : s.trace <+: s'.trace :=
  run_inv (fun t => s.trace <+: t.trace) (fun _ _ _ hI hs => hI.trans (step_trace hs))
    (List.prefix_refl _) h

theorem onClientData_trace (P : Platform) (lw : Answers) (s : TcpRelaySession) (bytes : Bytes) :
    (processAll P lw s (s.chunksOf P bytes)).2.trace <+: (s.onClientData P lw bytes).trace := by
  rcases onClientData_cases P lw s bytes with ⟨t, hp, -, he⟩ | ⟨r, t, c, hp, -, -, he⟩ <;> rw [hp, he]
  · exact (flushRead_frame lw (t.withInput (s.decrypted P bytes).state (s.decrypted P bytes).rest)).grows
  · exact (close_frame lw (t.withInput c (s.encryptedIn ++ bytes))).grows

/-- A read that reopens a session leaves that in the trace. -/
theorem reopening_step {i : Input} (hR : Reading 0 s) (h : Reopening P s i)
    (hs : s.step P i = some s') : ¬ NeverReconnects s'.trace := by
  obtain ⟨hg, bytes, hev, hre⟩ := h
  obtain ⟨event, lw⟩ := i
  dsimp only at hev
  subst hev
  cases fires_of_step hs with
  | clientData hpos =>
    intro hnever
    refine reopens_reconnects (s := { s with reads := s.reads - 1 }) hg (hR.isOpen hpos hg) hre ?_
    exact hnever.of_prefix (onClientData_trace P lw { s with reads := s.reads - 1 } bytes)
  | clientEof _ hr => rcases hr with hr | hr <;> cases hr

theorem along_of_neverReconnects {is : List Input} (hR : Reading 0 s)
    (h : run (step P) s is = some s') (hnever : NeverReconnects s'.trace) :
    Along (step P) (fun s i => ¬ Reopening P s i) s is := by
  induction is generalizing s with
  | nil => trivial
  | cons i is ih =>
    obtain ⟨m, hm, h⟩ := run_cons.mp h
    refine ⟨fun hre => ?_, fun m' hm' => ?_⟩
    · exact reopening_step hR hre hm (hnever.of_prefix (run_trace h))
    · obtain rfl := Option.some.inj (hm.symm.trans hm')
      exact ih (reading_step hR hm) h

/-- Closed sessions stay closed. For every run: in its last state `closing_` implies that there
    is no pcb and `active_self_` is empty, and no `tcp_connect` was issued after the close,
    exactly if no read of the run closed the session at a chunk without an address and went on to
    connect to the IP address of a later chunk. -/
theorem staysClosed_iff {crypto : ShadowsocksAeadSession} {is : List Input}
    (h : Reaches P crypto is s) :
    StaysClosed s ↔ Along (step P) (fun s i => ¬ Reopening P s i) (start crypto) is := by
  constructor
  · intro hs
    exact along_of_neverReconnects (reading_start crypto) h hs.connects
  · intro hG
    have hinv := run_guarded_inv (fun s => Reading 0 s ∧ Shut s)
      (fun _ _ _ hI hG hs => ⟨reading_step hI.1 hs, shut_step hI.1 hI.2 hG hs⟩)
      ⟨reading_start crypto, ⟨fun hc => (by cases hc), .nil⟩, fun _ hmem => (by cases hmem)⟩ hG h
    exact hinv.2.toStaysClosed

/-- A first chunk without an address, and nothing after it. -/
theorem staysClosed_demo :
    ∃ s, Reaches demoPlatform demoCrypto (demoOpening [[0]]) s ∧ s.closing = true ∧ StaysClosed s := by
  have hG : Along (step demoPlatform) (fun s i => ¬ Reopening demoPlatform s i) (start demoCrypto)
      (demoOpening [[0]]) := by
    refine ⟨?_, fun s1 h1 => ⟨?_, fun _ _ => trivial⟩⟩
    · rintro ⟨-, bytes, hev, -⟩
      cases hev
    · have hchunks : s1.chunksOf demoPlatform (demoWire [[0]]) = [[0]] := by
        obtain rfl := Option.some.inj h1
        rfl
      rintro ⟨-, bytes, hev, -, bad, chunk, post, -, -, -, hsplit, hne, -⟩
      obtain rfl : demoWire [[0]] = bytes := ReadResult.data.inj (Event.clientRead.inj hev)
      rw [hchunks] at hsplit
      have hlen := congrArg List.length hsplit
      simp only [List.length_append, List.length_cons, List.length_nil] at hlen
      have hpos := List.length_pos_iff.mpr hne
      omega
  obtain ⟨s, h, hc⟩ : ∃ s, Reaches demoPlatform demoCrypto (demoOpening [[0]]) s ∧ s.closing = true :=
    ⟨_, rfl, rfl⟩
  exact ⟨s, h, hc, (staysClosed_iff h).mpr hG⟩

/-- One read with a chunk that is no address and the address 10.0.0.1 in the next: the session is
    closed, connects, and is left with a pcb and a reference to itself. -/
theorem closed_reconnects :
    ∃ s, Reaches demoPlatform demoCrypto (demoOpening [[0], ipTarget]) s ∧ s.closing = true ∧
      s.pcb = some synSent ∧ s.activeSelf = true ∧
      s.trace = [.asyncReadSome, .socketClose, .tcpConnect ⟨false, [10, 0, 0, 1]⟩ 80] :=
  ⟨_, rfl, rfl, rfl, rfl, rfl⟩

end TcpRelaySession

end Ovpn2ss.Tcp
