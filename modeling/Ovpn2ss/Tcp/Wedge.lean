/-
  Upstream backpressure: a paused client is waiting for an ACK.

  The client is paused for want of room: the next chunk or the low water mark exceeds the send
  buffer, the send queue is long, or lwIP is out of memory. It is resumed from `on_sent` only, so
  a pause without unacknowledged data would last for ever. `LwipAccounts` is what is assumed of
  lwIP: a send queue that is not empty, and an `ERR_MEM`, mean unacknowledged data. Then the largest
  chunk and the low water mark fit an empty send buffer, and every pause leaves data to be
  acknowledged (`Backed`). A client that is not paused is being read (`Attended`).
  `backpressure_never_wedges` has both for the sessions `on_connected` has run in.
-/
import Ovpn2ss.Tcp.HalfClose
import Ovpn2ss.Tcp.ReadLoop

namespace Ovpn2ss.Tcp

open Ovpn2ss.Aead Ovpn2ss.Lib Ovpn2ss.Lwip

/-- The bytes queued for sending that have not been acknowledged. -/
def unacked (pcb : TcpPcb) : Nat := TCP_SND_BUF - pcb.sndBuf

/-- The send buffer and the send queue belong together. -/
structure Roomy (pcb : TcpPcb) : Prop where
  le : pcb.sndBuf ≤ TCP_SND_BUF
  queue : LwipSndQueueHighWater ≤ pcb.sndQueuelen → 0 < unacked pcb

/-- lwIP accounts for its send queue: a queue that is not empty when `on_connected` or `on_sent` is
    called holds unacknowledged data, and so does one for which `tcp_write` reports `ERR_MEM`. -/
structure LwipAccounts (s : TcpRelaySession) (i : Input) : Prop where
  write : ∀ pcb data, (i.lw.write pcb data).1 = .ERR_MEM → 0 < unacked pcb
  connected : ∀ err queuelen pcb, i.event = .connected err queuelen → s.pcb = some pcb →
    0 < queuelen → 0 < unacked pcb
  sent : ∀ acked queuelen pcb, i.event = .sent acked queuelen → s.pcb = some pcb →
    0 < queuelen → pcb.sndBuf + acked < TCP_SND_BUF

namespace TcpRelaySession

variable {P : Platform} {lw : Answers} {s s' : TcpRelaySession}

/-! ## Every pause leaves data to be acknowledged -/

/-- Too little room for a chunk, or for the low water mark, is room taken by data. -/
theorem unacked_of_short {pcb : TcpPcb} {n : Nat} (hn : n ≤ 0x3fff) (h : tcpSndbuf pcb < n) :
    0 < unacked pcb := by
  have hbuf : TCP_SND_BUF = 43520 := rfl
  rw [tcpSndbuf] at h
  rw [unacked, hbuf]
  omega

theorem flushLoop_room (hmem : ∀ pcb data, (lw.write pcb data).1 = .ERR_MEM → 0 < unacked pcb)
    {ps : List Bytes} (hps : ∀ p ∈ ps, p ≠ [] ∧ p.length ≤ 0x3fff) {pcb : TcpPcb} (h : Roomy pcb) :
    Roomy (flushLoop lw ps pcb).pcb ∧ (flushLoop lw ps pcb).pcb.sndBuf ≤ pcb.sndBuf ∧
    ((flushLoop lw ps pcb).stop = .paused → 0 < unacked (flushLoop lw ps pcb).pcb) := by
  induction ps generalizing pcb with
  | nil => exact ⟨h, le_rfl, nofun⟩
  | cons pkt rest ih =>
    obtain ⟨hne, hlen⟩ := hps pkt List.mem_cons_self
    rw [flushLoop]
    split
    · next hfull =>
      refine ⟨h, le_rfl, fun _ => ?_⟩
      rcases hfull with hfull | hfull | hfull
      · exact unacked_of_short hlen hfull
      · exact unacked_of_short (by decide) hfull
      · exact h.queue hfull
    · next hroom =>
      rw [not_or, Nat.not_lt] at hroom
      rw [u16Sized_chunk hlen, tcpWrite]
      rcases hw : lw.write pcb pkt with ⟨err, queuelen⟩
      by_cases hok : err = .ERR_OK
      · subst hok
        have hpos : 0 < pkt.length := List.length_pos_of_ne_nil hne
        have hle := h.le
        have hfit : pkt.length ≤ pcb.sndBuf := hroom.1.trans (Nat.min_le_left _ _)
        have hdata : 0 < unacked { pcb with sndBuf := pcb.sndBuf - pkt.length,
                                            sndQueuelen := queuelen } := by
          rw [unacked]
          dsimp only
          omega
        have hnext : Roomy { pcb with sndBuf := pcb.sndBuf - pkt.length, sndQueuelen := queuelen } :=
          ⟨(Nat.sub_le _ _).trans hle, fun _ => hdata⟩
        obtain ⟨h1, h2, h3⟩ := ih (fun p hp => hps p (List.mem_cons_of_mem _ hp)) hnext
        exact ⟨h1, h2.trans (Nat.sub_le _ _), h3⟩
      · have hmem' := hmem pcb pkt
        rw [hw] at hmem'
        by_cases hfail : err = .ERR_MEM
        · subst hfail
          exact ⟨h, le_rfl, fun _ => hmem' rfl⟩
        · cases err <;> first | exact absurd rfl hok | exact absurd rfl hfail |
            exact ⟨h, le_rfl, fun hstop => Stop.noConfusion hstop⟩

/-- The pcb keeps its accounts, and a paused client waits for an ACK. -/
structure Backed (s : TcpRelaySession) : Prop where
  room : ∀ pcb, s.pcb = some pcb → Roomy pcb
  paused : s.closing = false → s.clientReadPaused = true → ∀ pcb, s.pcb = some pcb → 0 < unacked pcb

theorem Backed.of_same (h : Backed s) (hc : s'.closing = s.closing)
    (hp : s'.clientReadPaused = s.clientReadPaused) (hpcb : s'.pcb = s.pcb) : Backed s' := by
  refine ⟨?_, ?_⟩
  · rw [hpcb]
    exact h.room
  · rw [hc, hp, hpcb]
    exact h.paused

theorem Backed.of_noPcb (h : s.pcb = none) : Backed s := by
  refine ⟨fun pcb hp => ?_, fun _ _ pcb hp => ?_⟩ <;>
    rw [h] at hp <;> cases hp

theorem Backed.close (h : Backed s) : Backed (s.close lw) := by
  cases hc : s.closing with
  | true => rwa [close_of_closing hc]
  | false =>
    rw [close_of_open hc]
    exact .of_noPcb rfl

theorem Backed.downstream (h : Backed s) (hd : Downstream s s') : Backed s' := by
  rcases hd.closing_or_same with ⟨hc, hp, -⟩ | ⟨-, hp, -⟩
  · exact h.of_same hc (hd.keeps.pieces .pause (by decide)) hp
  · exact .of_noPcb hp

theorem Backed.flushToLwip (h : Backed s) (hL : Ledger s)
    (hmem : ∀ pcb data, (lw.write pcb data).1 = .ERR_MEM → 0 < unacked pcb) :
    Backed (s.flushToLwip lw) := by
  unfold TcpRelaySession.flushToLwip
  split
  · exact h
  · next pcb hp =>
    obtain ⟨hroom, hle, hpause⟩ := flushLoop_room hmem hL.chunks (h.room pcb hp)
    -- what was unacknowledged before still is
    have hkeep (hc : s.closing = false) (hps : s.clientReadPaused = true) :
        0 < unacked (flushLoop lw s.pendingLwip pcb).pcb := by
      have := h.paused hc hps pcb hp
      rw [unacked] at this ⊢
      omega
    have hb : Backed { s with pcb := some (flushLoop lw s.pendingLwip pcb).pcb,
                              pendingLwip := (flushLoop lw s.pendingLwip pcb).rest,
                              trace := s.trace ++
                                (flushLoop lw s.pendingLwip pcb).written.map .tcpWrite } :=
      ⟨fun q hq => Option.some.inj hq ▸ hroom, fun hc hps q hq => Option.some.inj hq ▸ hkeep hc hps⟩
    dsimp only
    split
    · exact hb
    · next hstop => exact ⟨hb.room, fun _ _ q hq => Option.some.inj hq ▸ hpause hstop⟩
    · exact hb.close

theorem Backed.readEncryptedStream (h : Backed s) : Backed s.readEncryptedStream := by
  unfold TcpRelaySession.readEncryptedStream
  split
  · exact h
  · exact h.of_same rfl rfl rfl

/-- A new connection starts with an empty send buffer and a client that is not paused. -/
theorem Backed.connectIp (h : s.clientReadPaused = false) (ip : IpAddr) (port : Nat) :
    Backed (s.connectIp lw ip port) := by
  have hroom (pcb : TcpPcb) (hr : Roomy pcb) :
      Backed { s with pcb := some pcb, activeSelf := true,
                      trace := s.trace ++ [.tcpConnect ip port] } := by
    refine ⟨fun q hq => Option.some.inj hq ▸ hr, fun _ hps => ?_⟩
    rw [show s.clientReadPaused = true from hps] at h
    cases h
  rcases connectIp_cases lw s ip port with he | he | he <;> rw [he]
  · exact hroom synSent ⟨le_rfl, fun hq => absurd hq (by decide)⟩
  · exact (hroom tcpNew ⟨le_rfl, fun hq => absurd hq (by decide)⟩).close
  · exact (Backed.of_noPcb rfl).close

theorem Backed.processDecryptedChunk (h : Backed s) (hR : Reading 1 s) (chunk : Bytes) :
    Backed (s.processDecryptedChunk P lw chunk).2 := by
  refine processDecryptedChunk_inv Backed ?_ h.close ?_ h
  · intro t bytes _ ht
    rw [queueLwip_eq]
    exact ht.of_same rfl rfl rfl
  · intro hg target
    have hps := (hR.fresh hg).2.2.1
    have hgot : Backed { s with gotTarget := true } := h.of_same rfl rfl rfl
    refine connectTarget_inv Backed ?_ ?_ hgot target
    · intro host port
      exact h.of_same rfl rfl rfl
    · exact Backed.connectIp hps

theorem Backed.onClientData (h : Backed s) (hR : Reading 1 s) (hL : Ledger s)
    (hmem : ∀ pcb data, (lw.write pcb data).1 = .ERR_MEM → 0 < unacked pcb) (bytes : Bytes) :
    Backed (s.onClientData P lw bytes) := by
  refine onClientData_inv P (fun s => Backed s ∧ Reading 1 s ∧ Ledger s) Backed ?_ ?_
    (processAll_inv P (fun s => Backed s ∧ Reading 1 s ∧ Ledger s) _ (fun t chunk hc hI => ?_)
      ⟨h, hR, hL⟩)
  · rintro t c rest ⟨hb, -, hled⟩
    have hin : Backed (t.withInput c rest) := hb.of_same rfl rfl rfl
    exact (hin.flushToLwip (hled.untouched ⟨rfl, rfl, rfl⟩) hmem).readEncryptedStream
  · rintro t c rest ⟨hb, -, -⟩
    exact Backed.close (hb.of_same rfl rfl rfl)
  · obtain ⟨hb, hread, hled⟩ := hI
    exact ⟨hb.processDecryptedChunk hread chunk, hread.processDecryptedChunk chunk,
      hled.processDecryptedChunk (chunksOf_le P hc)⟩

theorem Backed.handleClientEof (h : Backed s) : Backed (s.handleClientEof lw) := by
  rcases handleClientEof_cases lw s with
    ⟨-, he⟩ | ⟨pcb, hp, ⟨-, -, he⟩ | ⟨-, acts, -, -, he⟩⟩ <;> rw [he]
  · exact Backed.close (h.of_same rfl rfl rfl)
  · have hbuf : (halfClosed lw pcb).sndBuf = pcb.sndBuf ∧
        (halfClosed lw pcb).sndQueuelen = pcb.sndQueuelen := by
      unfold halfClosed
      split <;> exact ⟨rfl, rfl⟩
    have hun : unacked (halfClosed lw pcb) = unacked pcb := by
      rw [unacked, hbuf.1, unacked]
    have hroom := h.room pcb hp
    have hhalf : Backed { s with clientEof := true, pcb := some (halfClosed lw pcb),
                                 trace := s.trace ++ [.tcpShutdown] } := by
      refine ⟨fun q hq => ?_, fun hc hps q hq => ?_⟩ <;> obtain rfl := Option.some.inj hq
      · refine ⟨hbuf.1.trans_le hroom.le, ?_⟩
        rw [hbuf.2, hun]
        exact hroom.queue
      · rw [hun]
        exact h.paused hc hps pcb hp
    dsimp only
    split
    · exact hhalf.close
    · exact hhalf
  · exact Backed.close (Backed.of_noPcb rfl)

/-- An ACK frees room; the client stays paused only while it has not freed enough. -/
theorem Backed.maybeResumeClientRead (hroom : ∀ pcb, s.pcb = some pcb → Roomy pcb) (hL : Ledger s)
    (hmem : ∀ pcb data, (lw.write pcb data).1 = .ERR_MEM → 0 < unacked pcb) :
    Backed (s.maybeResumeClientRead lw) := by
  unfold TcpRelaySession.maybeResumeClientRead
  split
  · next hp => exact .of_noPcb hp
  · next pcb hp =>
    split
    · next hstay =>
      refine ⟨hroom, fun _ hps q hq => ?_⟩
      obtain rfl := Option.some.inj (hp.symm.trans hq)
      rw [hps] at hstay
      exact unacked_of_short (n := LwipSndLowWater) (by decide) (by simpa using hstay)
    · have hgo : Backed { s with clientReadPaused := false } := ⟨hroom, fun _ hps => by cases hps⟩
      exact (hgo.flushToLwip (hL.untouched ⟨rfl, rfl, rfl⟩) hmem).readEncryptedStream

theorem backed_step {i : Input} (hR : Reading 0 s) (hL : Ledger s) (h : Backed s)
    (hG : LwipAccounts s i) (hs : s.step P i = some s') : Backed s' := by
  have hread : Backed { s with reads := s.reads - 1 } := h.of_same rfl rfl rfl
  have hwater : 0 < LwipSndQueueHighWater := by decide
  cases fires_of_step hs with
  | saltRead =>
    rcases onSaltRead_cases P _ { s with saltPending := false } _ with he | ⟨key, he⟩ <;> rw [he]
    · exact Backed.close (h.of_same rfl rfl rfl)
    · exact Backed.readEncryptedStream (h.of_same rfl rfl rfl)
  | clientData hpos =>
    exact hread.onClientData (hR.readDone hpos) (hL.untouched ⟨rfl, rfl, rfl⟩) hG.write _
  | clientEof => exact hread.handleClientEof
  | clientError => exact hread.close
  | @clientWrote lw ok buf writes =>
    have hpop : Backed { s with writes := writes } := h.of_same rfl rfl rfl
    exact hpop.downstream (onClientWrote_downstream _ _ _ _)
  | resolved hres =>
    have hps := (hR.resolving (by rw [hres]; exact Option.some_ne_none _)).2.1
    have hdone : Backed { s with resolving := none } := h.of_same rfl rfl rfl
    exact onResolved_inv Backed hdone.close
      fun _ ip => Backed.connectIp (s := { s with resolving := none }) hps ip _
  | unheard => exact h.of_same rfl rfl rfl
  | @connected lw err queuelen pcb hp hst =>
    have hun := hG.connected err queuelen pcb rfl hp
    have hest : Backed { s with pcb := some { pcb with state := .ESTABLISHED,
                                                       sndQueuelen := queuelen } } := by
      refine ⟨fun q hq => ?_, fun hc hps q hq => ?_⟩ <;> obtain rfl := Option.some.inj hq
      · exact ⟨(h.room pcb hp).le, fun hq => hun (hwater.trans_le hq)⟩
      · exact h.paused hc hps pcb hp
    exact onConnected_inv Backed hest.close (hest.flushToLwip (hL.untouched ⟨rfl, rfl, rfl⟩) hG.write)
  | recvError => exact h.close
  | remoteFin hp =>
    rw [handleRemoteFin_eq hp]
    split
    · exact (Backed.of_noPcb rfl).close
    · exact .of_noPcb rfl
  | recvData => exact h.downstream (onRecv_downstream P _ s _ _)
  | @sent lw acked queuelen pcb hp hst hack =>
    have hun := hG.sent acked queuelen pcb rfl hp
    refine Backed.maybeResumeClientRead (fun q hq => ?_) (hL.untouched ⟨rfl, rfl, rfl⟩) hG.write
    obtain rfl := Option.some.inj hq
    refine ⟨hack, fun hq => ?_⟩
    have := hun (hwater.trans_le hq)
    rw [unacked]
    dsimp only
    omega
  | err =>
    rw [onErr_eq]
    exact .of_noPcb rfl

/-! ## A client that is not paused is being read -/

def Attended (s : TcpRelaySession) : Prop :=
  s.closing = false → s.clientEof = false → s.saltPending = false → s.clientReadPaused = false →
    0 < s.reads

theorem Attended.of_closing (h : s.closing = true) : Attended s := by
  intro hc
  rw [h] at hc
  cases hc

theorem Attended.close (lw : Answers) (s : TcpRelaySession) : Attended (s.close lw) :=
  .of_closing (close_closing lw s)

theorem Attended.readEncryptedStream (s : TcpRelaySession) : Attended s.readEncryptedStream := by
  intro hc _ _ hp
  by_cases hheld : s.closing = true ∨ s.clientReadPaused = true
  · rw [readEncryptedStream_of_held hheld] at hc hp
    rcases hheld with h | h
    · rw [h] at hc
      cases hc
    · rw [h] at hp
      cases hp
  · rw [not_or, Bool.not_eq_true, Bool.not_eq_true] at hheld
    rw [readEncryptedStream_of_open hheld.1 hheld.2]
    exact Nat.succ_pos _

theorem Attended.flushToLwip (h : Attended s) : Attended (s.flushToLwip lw) := by
  rcases flushToLwip_cases lw s with
    ⟨-, he⟩ | ⟨pcb, pcb', sent, rest, -, -, -, ⟨-, he⟩ | ⟨-, he⟩ | ⟨-, he⟩⟩ <;> rw [he]
  · exact h
  · exact h
  · intro _ _ _ hp
    cases hp
  · exact .close lw _

theorem Attended.connectIp (h : Attended s) (ip : IpAddr) (port : Nat) :
    Attended (s.connectIp lw ip port) := by
  rcases connectIp_cases lw s ip port with he | he | he <;> rw [he]
  · exact h
  · exact .close lw _
  · exact .close lw _

theorem Attended.downstream (h : Attended s) (hd : Downstream s s') : Attended s' := by
  rcases hd.closing_or_same with ⟨hc, -⟩ | ⟨hc, -⟩
  · have hpause : s'.clientReadPaused = s.clientReadPaused := hd.keeps.pieces .pause (by decide)
    have heof : s'.clientEof = s.clientEof := hd.keeps.pieces .clientEof (by decide)
    have hsalt : s'.saltPending = s.saltPending := hd.keeps.pieces .salt (by decide)
    have hreads : s'.reads = s.reads := hd.keeps.pieces .reads (by decide)
    unfold Attended
    rw [hc, hpause, heof, hsalt, hreads]
    exact h
  · exact .of_closing hc

theorem Attended.handleClientEof (lw : Answers) (s : TcpRelaySession) :
    Attended (s.handleClientEof lw) := by
  rcases handleClientEof_cases lw s with
    ⟨-, he⟩ | ⟨pcb, -, ⟨-, -, he⟩ | ⟨-, acts, -, -, he⟩⟩ <;> rw [he]
  · exact .close lw _
  · dsimp only
    split
    · exact .close lw _
    · intro _ heof
      cases heof
  · exact .close lw _

theorem attended_step {i : Input} (h : Attended s) (hs : s.step P i = some s') : Attended s' := by
  cases fires_of_step hs with
  | saltRead =>
    rcases onSaltRead_cases P _ { s with saltPending := false } _ with he | ⟨key, he⟩ <;> rw [he]
    · exact .close _ _
    · exact .readEncryptedStream _
  | @clientData lw bytes =>
    rcases onClientData_cases P lw { s with reads := s.reads - 1 } bytes with
      ⟨t, -, -, he⟩ | ⟨r, t, c, -, -, -, he⟩ <;> rw [he]
    · exact .readEncryptedStream _
    · exact .close _ _
  | clientEof => exact .handleClientEof _ _
  | clientError => exact .close _ _
  | @clientWrote lw ok buf writes =>
    have hpop : Attended { s with writes := writes } := h
    exact hpop.downstream (onClientWrote_downstream _ _ _ _)
  | @resolved lw err ip port =>
    have hdone : Attended { s with resolving := none } := h
    exact onResolved_inv Attended (.close _ _) fun _ ip => hdone.connectIp ip port
  | unheard => exact h
  | @connected lw err queuelen pcb =>
    have hest : Attended { s with pcb := some { pcb with state := .ESTABLISHED,
                                                         sndQueuelen := queuelen } } := h
    exact onConnected_inv Attended (.close _ _) hest.flushToLwip
  | recvError => exact .close _ s
  | remoteFin hp =>
    rw [handleRemoteFin_eq hp]
    split
    · exact .close _ _
    · exact h
  | recvData => exact h.downstream (onRecv_downstream P _ s _ _)
  | @sent lw acked queuelen pcb =>
    have hack : Attended { s with pcb := some { pcb with sndBuf := pcb.sndBuf + acked,
                                                         sndQueuelen := queuelen } } := h
    rw [onSent]
    rcases maybeResumeClientRead_cases lw { s with pcb := some { pcb with
      sndBuf := pcb.sndBuf + acked, sndQueuelen := queuelen } } with he | ⟨q, -, -, -, he⟩ <;> rw [he]
    · exact hack
    · exact .readEncryptedStream _
  | err =>
    rw [onErr_eq]
    exact .of_closing rfl

/-! ## After `on_connected` -/

/-- The session is closed or has a pcb whose connection has been made. -/
def Online (s : TcpRelaySession) : Prop :=
  s.closing = true ∨ ∃ pcb, s.pcb = some pcb ∧ pcb.state ≠ .SYN_SENT

theorem Online.flushToLwip (h : Online s) : Online (s.flushToLwip lw) := by
  rcases flushToLwip_cases lw s with
    ⟨-, he⟩ | ⟨pcb, pcb', sent, rest, hp, hst, -, ⟨-, he⟩ | ⟨-, he⟩ | ⟨-, he⟩⟩ <;> rw [he]
  · exact h
  · exact h.imp_right fun ⟨q, hq, hne⟩ => ⟨pcb', rfl, by
      rwa [hst, Option.some.inj (hp.symm.trans hq)]⟩
  · exact h.imp_right fun ⟨q, hq, hne⟩ => ⟨pcb', rfl, by
      rwa [hst, Option.some.inj (hp.symm.trans hq)]⟩
  · exact Or.inl (close_closing lw _)

theorem Online.readEncryptedStream (h : Online s) : Online s.readEncryptedStream := by
  unfold TcpRelaySession.readEncryptedStream
  split
  · exact h
  · exact h

theorem afterFin_ne_synSent {st : TcpState} (h : st ≠ .SYN_SENT) : st.afterFin ≠ .SYN_SENT := by
  cases st <;> first | exact absurd rfl h | decide

theorem Online.handleClientEof (h : Online s) : Online (s.handleClientEof lw) := by
  rcases handleClientEof_cases lw s with
    ⟨-, he⟩ | ⟨pcb, hp, ⟨-, -, he⟩ | ⟨-, acts, -, -, he⟩⟩ <;> rw [he]
  · exact Or.inl (close_closing lw _)
  · dsimp only
    split
    · exact Or.inl (close_closing lw _)
    · refine h.imp_right fun ⟨q, hq, hne⟩ => ⟨_, rfl, ?_⟩
      obtain rfl := Option.some.inj (hp.symm.trans hq)
      unfold halfClosed
      split
      · exact afterFin_ne_synSent hne
      · exact hne
  · exact Or.inl (close_closing lw _)

theorem Online.downstream (h : Online s) (hd : Downstream s s') : Online s' := by
  rcases hd.closing_or_same with ⟨hc, hp, -⟩ | ⟨hc, -⟩
  · unfold Online
    rwa [hc, hp]
  · exact Or.inl hc

theorem Online.onClientData (h : Online s) (hg : s.gotTarget = true) (bytes : Bytes) :
    Online (s.onClientData P lw bytes) := by
  have hin (ps : List Bytes) (c : ShadowsocksAeadSession) (input : Bytes) :
      Online ((s.queued ps).withInput c input) := h
  rcases onClientData_cases P lw s bytes with ⟨t, ht, -, he⟩ | ⟨r, t, c, -, -, -, he⟩ <;> rw [he]
  · rw [processAll_of_target P hg] at ht
    obtain rfl := (Prod.mk.inj ht).2
    exact (hin _ _ _).flushToLwip.readEncryptedStream
  · exact Or.inl (close_closing lw _)

theorem Online.maybeResumeClientRead (h : Online s) : Online (s.maybeResumeClientRead lw) := by
  rcases maybeResumeClientRead_cases lw s with he | ⟨_, -, -, -, he⟩ <;> rw [he]
  · exact h
  · exact (Online.flushToLwip (s := { s with clientReadPaused := false }) h).readEncryptedStream

/-- `on_connected` leaves the session online or closed. -/
theorem online_of_connected {err : ErrT} {queuelen : Nat}
    (hs : s.step P ⟨.connected err queuelen, lw⟩ = some s') : Online s' := by
  cases fires_of_step hs with
  | connected =>
    exact onConnected_inv Online (Or.inl (close_closing _ _))
      (Online.flushToLwip (Or.inr ⟨_, rfl, by simp⟩))

/-- A remote FIN is not forgotten. -/
theorem step_fin {i : Input} (hs : s.step P i = some s') (h : s.remoteEof = true) :
    s'.remoteEof = true :=
  (fires_keeps (fires_of_step hs)).1.fin h

theorem online_step {i : Input} (hR : Reading 0 s) (h : Online s) (hs : s.step P i = some s') :
    Online s' ∨ s'.remoteEof = true := by
  rcases h with hc | ⟨pcb, hp, hst⟩
  · refine Or.inl (Or.inl (Bool.not_eq_false _ ▸ fun hopen => ?_))
    rw [open_of_step hs hopen] at hc
    cases hc
  have h : Online s := Or.inr ⟨pcb, hp, hst⟩
  have hg : s.gotTarget = true := by
    by_contra hg
    rw [(hR.fresh (Bool.eq_false_iff.mpr hg)).1] at hp
    cases hp
  cases fires_of_step hs with
  | saltRead hsalt =>
    rw [(hR.salt hsalt).2] at hg
    cases hg
  | clientData =>
    exact Or.inl (Online.onClientData (s := { s with reads := s.reads - 1 }) h hg _)
  | clientEof => exact Or.inl (Online.handleClientEof (s := { s with reads := s.reads - 1 }) h)
  | clientError => exact Or.inl (Or.inl (close_closing _ _))
  | @clientWrote lw ok buf writes =>
    exact Or.inl (Online.downstream (s := { s with writes := writes }) h
      (onClientWrote_downstream _ _ _ _))
  | resolved hres =>
    rw [(hR.resolving (by rw [hres]; exact Option.some_ne_none _)).1] at hp
    cases hp
  | unheard => exact Or.inl h
  | connected => exact Or.inl (online_of_connected hs)
  | recvError => exact Or.inl (Or.inl (close_closing _ s))
  | remoteFin hp' =>
    refine Or.inr ?_
    rw [handleRemoteFin_eq hp']
    split
    · exact (close_frame _ _).fin rfl
    · rfl
  | recvData => exact Or.inl (h.downstream (onRecv_downstream P _ s _ _))
  | @sent lw acked queuelen q hq hstate =>
    have hack : Online { s with pcb := some { q with sndBuf := q.sndBuf + acked,
                                                     sndQueuelen := queuelen } } := by
      obtain rfl := Option.some.inj (hp.symm.trans hq)
      exact Or.inr ⟨_, rfl, hst⟩
    exact Or.inl hack.maybeResumeClientRead
  | err =>
    rw [onErr_eq]
    exact Or.inl (Or.inl rfl)

/-- Once `on_connected` has run, an open session without a remote FIN keeps its connection. -/
theorem online_run {crypto : ShadowsocksAeadSession} {is : List Input} (h : Reaches P crypto is s)
    {err : ErrT} {queuelen : Nat} (hran : ⟨.connected err queuelen, lw⟩ ∈ is) :
    Online s ∨ s.remoteEof = true := by
  obtain ⟨before, after, rfl⟩ := List.append_of_mem hran
  obtain ⟨t, ht, h⟩ := run_append.mp h
  obtain ⟨u, hu, h⟩ := run_cons.mp h
  refine (run_inv (fun s => Reading 0 s ∧ (Online s ∨ s.remoteEof = true)) (fun s e s' hI hs => ?_)
    ⟨reading_step (reading_run ht) hu, Or.inl (online_of_connected hu)⟩ h).2
  refine ⟨reading_step hI.1 hs, ?_⟩
  rcases hI.2 with hon | hfin
  · exact online_step hI.1 hon hs
  · exact Or.inr (step_fin hs hfin)

/-! ## No wedge -/

theorem backed_run {crypto : ShadowsocksAeadSession} {is : List Input} (h : Reaches P crypto is s)
    (hlwip : Along (step P) LwipAccounts (start crypto) is) : Backed s :=
  (run_guarded_inv (fun s => Reading 0 s ∧ Ledger s ∧ Backed s)
    (fun _ _ _ hI hG hs => ⟨reading_step hI.1 hs, ledger_step hI.2.1 hs,
      backed_step hI.1 hI.2.1 hI.2.2 hG hs⟩)
    ⟨reading_start crypto, ⟨fun _ hp => (by cases hp), rfl⟩, .of_noPcb rfl⟩ hlwip h).2.2

theorem attended_run {crypto : ShadowsocksAeadSession} {is : List Input} (h : Reaches P crypto is s) :
    Attended s :=
  run_inv Attended (fun _ _ _ => attended_step) (fun _ _ hsalt => by cases hsalt) h

/-- Backpressure never wedges. In every run in which lwIP keeps its accounts, once `on_connected`
    has run and while the session is open and neither side has ended its stream: a paused client
    means that lwIP holds unacknowledged bytes (so an `on_sent` is to come), queued bytes mean that
    the client is paused, and a client that is not paused is being read. -/
theorem backpressure_never_wedges {crypto : ShadowsocksAeadSession} {is : List Input}
    (h : Reaches P crypto is s) (hlwip : Along (step P) LwipAccounts (start crypto) is)
    (hran : ∃ i ∈ is, ∃ err queuelen, i.event = .connected err queuelen)
    (hopen : s.closing = false) (heof : s.clientEof = false) (hfin : s.remoteEof = false) :
    ∃ pcb, s.pcb = some pcb ∧ (s.clientReadPaused = true → 0 < unacked pcb) ∧
      (s.pendingLwip ≠ [] → s.clientReadPaused = true) ∧
      (s.clientReadPaused = false → 0 < s.reads) := by
  obtain ⟨⟨_, lw⟩, hmem, err, queuelen, rfl⟩ := hran
  obtain ⟨pcb, hp, hst⟩ : ∃ pcb, s.pcb = some pcb ∧ pcb.state ≠ .SYN_SENT := by
    rcases online_run h hmem with (hc | hon) | hf
    · rw [hopen] at hc
      cases hc
    · exact hon
    · rw [hfin] at hf
      cases hf
  -- the salt has been read: the connection comes after the address
  have hsalt : s.saltPending = false := by
    by_contra hsalt
    have hR := reading_run h
    rw [(hR.fresh (hR.salt (Bool.not_eq_false _ ▸ hsalt)).2).1] at hp
    cases hp
  refine ⟨pcb, hp, fun hps => (backed_run h hlwip).paused hopen hps pcb hp, fun hne => ?_,
    attended_run h hopen heof hsalt⟩
  by_contra hps
  exact hne ((paced_run h).running hopen (Bool.eq_false_iff.mpr hps) pcb hp hst)

theorem hesitant_accounts (pcb : TcpPcb) (data : Bytes)
    (h : (hesitant.write pcb data).1 = .ERR_MEM) : 0 < unacked pcb := by
  by_cases hfull : TCP_SND_BUF ≤ pcb.sndBuf
  · simp [hesitant, hfull] at h
  · unfold unacked
    omega

/-- A paused client: lwIP holds two bytes and would not take the third. -/
theorem backpressure_never_wedges_demo :
    Along (step demoPlatform) LwipAccounts (start demoCrypto) demoPaused ∧
    ∃ s, Reaches demoPlatform demoCrypto demoPaused s ∧ s.clientReadPaused = true ∧
      s.pendingLwip = [[9]] ∧ ∃ pcb, s.pcb = some pcb ∧ 0 < unacked pcb := by
  have hG : Along (step demoPlatform) LwipAccounts (start demoCrypto) demoPaused := by
    refine ⟨⟨fun _ _ hmem => (by cases hmem), fun _ _ _ hev => (by cases hev),
        fun _ _ _ hev => (by cases hev)⟩, fun s1 h1 =>
      ⟨⟨hesitant_accounts, fun _ _ _ hev => (by cases hev), fun _ _ _ hev => (by cases hev)⟩,
        fun s2 h2 => ⟨⟨hesitant_accounts, fun _ _ pcb _ hp _ => ?_, fun _ _ _ hev => (by cases hev)⟩,
          fun _ _ => trivial⟩⟩⟩
    -- the two bytes that lwIP took before the connection are not acknowledged
    obtain rfl := Option.some.inj h1
    obtain rfl := Option.some.inj h2
    obtain rfl := Option.some.inj hp
    decide
  obtain ⟨s, h, hpaused, hqueue, hc, he, hf⟩ : ∃ s, Reaches demoPlatform demoCrypto demoPaused s ∧
      s.clientReadPaused = true ∧ s.pendingLwip = [[9]] ∧ s.closing = false ∧ s.clientEof = false ∧
      s.remoteEof = false := ⟨_, rfl, rfl, rfl, rfl, rfl, rfl⟩
  obtain ⟨pcb, hp, hheld, -⟩ := backpressure_never_wedges h hG
    ⟨⟨.connected .ERR_OK 1, hesitant⟩, by simp [demoPaused], _, _, rfl⟩ hc he hf
  exact ⟨hG, s, h, hpaused, hqueue, pcb, hp, hheld hpaused⟩

end TcpRelaySession

end Ovpn2ss.Tcp
