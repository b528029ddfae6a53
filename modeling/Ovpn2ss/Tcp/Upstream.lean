/-
  The upstream queue: the payload between the client and `tcp_write`.

  `Ledger`: what was accepted from the client is what `tcp_write` took, in order, followed by
  what is still queued; the 16-bit length argument of `tcp_write` never cuts a chunk. `Paced`:
  on a connection that has been made, payload waits only while the client is paused, and a
  session that is paused with a read outstanding has payload waiting. Both hold between any two
  events of any run (`ledger_run`, `paced_run`).
-/
import Ovpn2ss.Tcp.Reads

namespace Ovpn2ss.Tcp

open Ovpn2ss.Aead Ovpn2ss.Lib Ovpn2ss.Lwip

@[simp] theorem accepted_map_accept (ps : List Bytes) : accepted (ps.map .accept) = ps.flatten := by
  induction ps with
  | nil => rfl
  | cons p ps ih => exact congrArg (p ++ ·) ih

@[simp] theorem written_map_accept (ps : List Bytes) : written (ps.map .accept) = [] := by
  induction ps with
  | nil => rfl
  | cons p ps ih => exact ih

@[simp] theorem accepted_map_tcpWrite (ps : List Bytes) : accepted (ps.map .tcpWrite) = [] := by
  induction ps with
  | nil => rfl
  | cons p ps ih => exact ih

@[simp] theorem written_map_tcpWrite (ps : List Bytes) : written (ps.map .tcpWrite) = ps.flatten := by
  induction ps with
  | nil => rfl
  | cons p ps ih => exact congrArg (p ++ ·) ih

namespace TcpRelaySession

variable {P : Platform} {lw : Answers} {W : List Piece} {s s' : TcpRelaySession}

/-! ## Work that moves no payload -/

/-- Nothing was accepted, queued or written between `s` and `s'`. -/
structure Untouched (s s' : TcpRelaySession) : Prop where
  queue : s'.pendingLwip = s.pendingLwip
  taken : accepted s'.trace = accepted s.trace
  wrote : written s'.trace = written s.trace

theorem Keeps.untouched (h : Keeps W s s') (hW : ∀ p ∈ [Piece.queue, .accept, .write], p ∉ W) :
    Untouched s s' :=
  ⟨h.pieces .queue (hW _ (by decide)), h.accepted (hW _ (by decide)), h.written (hW _ (by decide))⟩

/-! ## Where the payload is -/

/-- What was accepted has been written or is queued, in order, in chunks `tcp_write` can take. -/
structure Ledger (s : TcpRelaySession) : Prop where
  chunks : ∀ p ∈ s.pendingLwip, p ≠ [] ∧ p.length ≤ 0x3fff
  bytes : accepted s.trace = written s.trace ++ s.pendingLwip.flatten

theorem Ledger.untouched (h : Ledger s) (hu : Untouched s s') : Ledger s' := by
  refine ⟨?_, ?_⟩
  · rw [hu.queue]
    exact h.chunks
  · rw [hu.queue, hu.taken, hu.wrote]
    exact h.bytes

/-- The cast to 16 bits keeps the length of a chunk. -/
theorem u16Sized_chunk {p : Bytes} (h : p.length ≤ 0x3fff) : u16Sized p = p := by
  rw [u16Sized, Nat.mod_eq_of_lt (by omega), List.take_length]

theorem Ledger.flushed (h : Ledger s) (pcb : TcpPcb) {sent rest : List Bytes}
    (hsplit : s.pendingLwip = sent ++ rest) : Ledger (s.flushed pcb sent rest) := by
  have hmem (p : Bytes) (hp : p ∈ sent) : p ∈ s.pendingLwip := by
    rw [hsplit]
    exact List.mem_append_left rest hp
  have hsent : sent.map u16Sized = sent :=
    (List.map_congr_left fun p hp => u16Sized_chunk (h.chunks p (hmem p hp)).2).trans
      (List.map_id sent)
  refine ⟨?_, ?_⟩
  · intro p hp
    refine h.chunks p ?_
    rw [hsplit]
    exact List.mem_append_right sent hp
  · unfold TcpRelaySession.flushed
    dsimp only
    rw [hsent, accepted_append, written_append, accepted_map_tcpWrite, written_map_tcpWrite,
      List.append_nil, h.bytes, hsplit, List.flatten_append, List.append_assoc]

theorem Ledger.flushToLwip (h : Ledger s) : Ledger (s.flushToLwip lw) := by
  rcases flushToLwip_cases lw s with
    ⟨-, he⟩ | ⟨pcb, pcb', sent, rest, -, -, hsplit, ⟨hnil, he⟩ | ⟨-, he⟩ | ⟨-, he⟩⟩ <;> rw [he]
  · exact h
  · exact h.flushed pcb' (hnil ▸ hsplit)
  · exact (h.flushed pcb' hsplit).untouched ⟨rfl, rfl, rfl⟩
  · exact (h.flushed pcb' hsplit).untouched ((close_frame lw _).untouched (by decide))

theorem Ledger.queueLwip (h : Ledger s) {bytes : Bytes} (hlen : bytes.length ≤ 0x3fff) :
    Ledger (s.queueLwip bytes) := by
  unfold TcpRelaySession.queueLwip
  split
  · exact h
  · rename_i hne
    refine ⟨?_, ?_⟩
    · intro p hp
      rcases List.mem_append.mp hp with hp | hp
      · exact h.chunks p hp
      · rw [List.mem_singleton.mp hp]
        exact ⟨fun hnil => hne (List.isEmpty_iff.mpr hnil), hlen⟩
    · show accepted (s.trace ++ [.accept bytes]) = written (s.trace ++ [.accept bytes]) ++ _
      rw [accepted_append, written_append, h.bytes]
      simp [accepted, written]

theorem Ledger.processDecryptedChunk (h : Ledger s) {chunk : Bytes} (hlen : chunk.length ≤ 0x3fff) :
    Ledger (s.processDecryptedChunk P lw chunk).2 := by
  refine processDecryptedChunk_inv Ledger ?_ (h.untouched ((close_frame lw s).untouched (by decide)))
    ?_ h
  · intro t bytes hle ht
    exact ht.queueLwip (hle.trans hlen)
  · intro _ target
    have hgot : Ledger { s with gotTarget := true } := h.untouched ⟨rfl, rfl, rfl⟩
    exact hgot.untouched ((connectTarget_frame P lw _ target).untouched (by decide))

theorem Ledger.onClientData (h : Ledger s) (bytes : Bytes) : Ledger (s.onClientData P lw bytes) := by
  refine onClientData_inv P Ledger Ledger ?_ ?_ (processAll_inv P Ledger _
    (fun _ _ hc h => h.processDecryptedChunk (chunksOf_le P hc)) h)
  · intro t c rest ht
    have hin : Ledger (t.withInput c rest) := ht.untouched ⟨rfl, rfl, rfl⟩
    exact hin.flushToLwip.untouched ((readEncryptedStream_frame _).untouched (by decide))
  · intro t c rest ht
    have hin : Ledger (t.withInput c rest) := ht.untouched ⟨rfl, rfl, rfl⟩
    exact hin.untouched ((close_frame lw _).untouched (by decide))

theorem Ledger.maybeResumeClientRead (h : Ledger s) : Ledger (s.maybeResumeClientRead lw) := by
  rcases maybeResumeClientRead_cases lw s with he | ⟨pcb, -, -, -, he⟩ <;> rw [he]
  · exact h
  · have hgo : Ledger { s with clientReadPaused := false } := h.untouched ⟨rfl, rfl, rfl⟩
    exact hgo.flushToLwip.untouched ((readEncryptedStream_frame _).untouched (by decide))

theorem ledger_step {i : Input} (h : Ledger s) (hs : s.step P i = some s') : Ledger s' := by
  have hf := fires_of_step hs
  have hkeeps := (fires_keeps hf).1
  cases hf with
  | clientData =>
    have hread : Ledger { s with reads := s.reads - 1 } := h.untouched ⟨rfl, rfl, rfl⟩
    exact hread.onClientData _
  | clientEof _ hr => rcases hr with rfl | rfl <;> exact h.untouched (hkeeps.untouched (by simp [footprint]))
  | @connected lw err queuelen pcb =>
    have hest : Ledger { s with pcb := some { pcb with state := .ESTABLISHED,
                                                       sndQueuelen := queuelen } } :=
      h.untouched ⟨rfl, rfl, rfl⟩
    exact onConnected_inv Ledger (hest.untouched ((close_frame lw _).untouched (by decide)))
      hest.flushToLwip
  | recvError => exact h.untouched ((close_frame _ s).untouched (by decide))
  | @sent lw acked queuelen pcb =>
    have hack : Ledger { s with pcb := some { pcb with sndBuf := pcb.sndBuf + acked,
                                                       sndQueuelen := queuelen } } :=
      h.untouched ⟨rfl, rfl, rfl⟩
    exact hack.maybeResumeClientRead
  | _ => exact h.untouched (hkeeps.untouched (by simp [footprint]))

theorem ledger_run {crypto : ShadowsocksAeadSession} {is : List Input} (h : Reaches P crypto is s) :
    Ledger s :=
  run_inv Ledger (fun _ _ _ h hs => ledger_step h hs) ⟨fun _ hp => (by cases hp), rfl⟩ h

/-! ## When payload waits -/

/-- An open session that is paused with a read outstanding has payload waiting; one that is not
    paused has none waiting for a connection that has been made. -/
structure Paced (s : TcpRelaySession) : Prop where
  stalled : s.closing = false → s.clientReadPaused = true → 0 < s.reads → s.pendingLwip ≠ []
  running : s.closing = false → s.clientReadPaused = false → ∀ pcb, s.pcb = some pcb →
    pcb.state ≠ .SYN_SENT → s.pendingLwip = []

theorem Paced.of_closing (h : s.closing = true) : Paced s :=
  ⟨fun hc => absurd h (Bool.eq_false_iff.mp hc), fun hc => absurd h (Bool.eq_false_iff.mp hc)⟩

theorem Paced.close (lw : Answers) (s : TcpRelaySession) : Paced (s.close lw) :=
  .of_closing (close_closing lw s)

/-- Flushing restores the pace, if no read is outstanding in a session already paused. -/
theorem Paced.flushToLwip (hidle : s.clientReadPaused = true → s.reads = 0) :
    Paced (s.flushToLwip lw) := by
  rcases flushToLwip_cases lw s with
    ⟨hp, he⟩ | ⟨pcb, pcb', sent, rest, -, -, -, ⟨-, he⟩ | ⟨hne, he⟩ | ⟨-, he⟩⟩ <;> rw [he]
  · refine ⟨fun _ hpause hr => absurd (hidle hpause) hr.ne', fun _ _ pcb hpcb => ?_⟩
    rw [hp] at hpcb
    cases hpcb
  · exact ⟨fun _ hpause hr => absurd (hidle hpause) hr.ne', fun _ _ _ _ _ => rfl⟩
  · exact ⟨fun _ _ _ => hne, fun _ hpause => by cases hpause⟩
  · exact .close lw _

theorem Paced.readEncryptedStream (h : Paced s) : Paced s.readEncryptedStream := by
  by_cases hheld : s.closing = true ∨ s.clientReadPaused = true
  · rwa [readEncryptedStream_of_held hheld]
  · rw [not_or, Bool.not_eq_true, Bool.not_eq_true] at hheld
    rw [readEncryptedStream_of_open hheld.1 hheld.2]
    exact ⟨fun _ hpause => absurd hpause (Bool.eq_false_iff.mp hheld.2), h.running⟩

theorem Paced.onClientData (hidle : s.clientReadPaused = true → s.reads = 0) (bytes : Bytes) :
    Paced (s.onClientData P lw bytes) := by
  have hsame := (processAll_frame P lw s (s.chunksOf P bytes)).sameReads (by decide) (by decide)
  rcases onClientData_cases P lw s bytes with ⟨t, hp, -, he⟩ | ⟨r, t, c, hp, -, -, he⟩ <;>
    rw [hp] at hsame <;> rw [he]
  · refine (Paced.flushToLwip fun hpause => ?_).readEncryptedStream
    exact hsame.reads.trans (hidle (hsame.paused ▸ hpause))
  · exact .close lw _

/-- The connection of an open session goes on to wait for what it waited for. -/
theorem Paced.connectIp (h : Paced s) (ip : IpAddr) (port : Nat) : Paced (s.connectIp lw ip port) := by
  rcases connectIp_cases lw s ip port with he | he | he <;> rw [he]
  · refine ⟨h.stalled, fun _ _ pcb hp hst => ?_⟩
    obtain rfl := Option.some.inj hp
    exact absurd rfl hst
  · exact .close lw _
  · exact .close lw _

theorem canShutdown_ne_synSent {st : TcpState} (h : st.canShutdown = true) : st ≠ .SYN_SENT := by
  rintro rfl
  cases h

theorem Paced.handleClientEof (h : Paced s) : Paced (s.handleClientEof lw) := by
  rcases handleClientEof_cases lw s with
    ⟨-, he⟩ | ⟨pcb, hp, ⟨hst, -, he⟩ | ⟨-, acts, -, -, he⟩⟩ <;> rw [he]
  · exact .close lw _
  · dsimp only
    split
    · exact .close lw _
    · exact ⟨h.stalled, fun hc hpause _ _ _ => h.running hc hpause pcb hp (canShutdown_ne_synSent hst)⟩
  · exact .close lw _

theorem Paced.handleRemoteFin (h : Paced s) {pcb : TcpPcb} (hp : s.pcb = some pcb) :
    Paced (s.handleRemoteFin lw) := by
  rw [handleRemoteFin_eq hp]
  split
  · exact .close lw _
  · exact ⟨h.stalled, fun _ _ _ hpcb => by cases hpcb⟩

theorem Paced.maybeResumeClientRead (h : Paced s) : Paced (s.maybeResumeClientRead lw) := by
  rcases maybeResumeClientRead_cases lw s with he | ⟨pcb, -, -, -, he⟩ <;> rw [he]
  · exact h
  · exact (Paced.flushToLwip fun hpause => by cases hpause).readEncryptedStream

theorem Paced.downstream (h : Paced s) (hd : Downstream s s') : Paced s' := by
  rcases hd.closing_or_same with ⟨hc, hp, -⟩ | ⟨hc, -⟩
  · have hqueue : s'.pendingLwip = s.pendingLwip := hd.keeps.pieces .queue (by decide)
    have hpause : s'.clientReadPaused = s.clientReadPaused := hd.keeps.pieces .pause (by decide)
    have hreads : s'.reads = s.reads := hd.keeps.pieces .reads (by decide)
    refine ⟨?_, ?_⟩
    · rw [hc, hqueue, hpause, hreads]
      exact h.stalled
    · rw [hc, hqueue, hpause, hp]
      exact h.running
  · exact .of_closing hc

theorem paced_step {i : Input} (hR : Reading 0 s) (h : Paced s) (hs : s.step P i = some s') :
    Paced s' := by
  -- a read that completes leaves fewer outstanding
  have hread : Paced { s with reads := s.reads - 1 } :=
    ⟨fun hc hpause hr => h.stalled hc hpause (hr.trans_le (Nat.sub_le _ _)), h.running⟩
  cases fires_of_step hs with
  | saltRead =>
    rcases onSaltRead_cases P _ { s with saltPending := false } _ with he | ⟨key, he⟩ <;> rw [he]
    · exact .close _ _
    · have hkey : Paced ({ s with saltPending := false }.keyed key) := ⟨h.stalled, h.running⟩
      exact hkey.readEncryptedStream
  | clientData hpos =>
    refine Paced.onClientData (fun hpause => ?_) _
    have hr := hR.paused hpause
    show s.reads - 1 = 0
    omega
  | clientEof => exact hread.handleClientEof
  | clientError => exact .close _ _
  | @clientWrote lw ok buf writes =>
    have hpop : Paced { s with writes := writes } := ⟨h.stalled, h.running⟩
    exact hpop.downstream (onClientWrote_downstream _ _ _ _)
  | resolved =>
    have hdone : Paced { s with resolving := none } := ⟨h.stalled, h.running⟩
    exact onResolved_inv Paced (.close _ _) fun _ ip => hdone.connectIp ip _
  | unheard => exact ⟨h.stalled, h.running⟩
  | @connected lw err queuelen pcb hp hst =>
    exact onConnected_inv Paced (.close _ _) (Paced.flushToLwip (hR.connecting pcb hp hst).2)
  | recvError => exact .close _ s
  | remoteFin hp => exact h.handleRemoteFin hp
  | recvData => exact h.downstream (onRecv_downstream P _ s _ _)
  | @sent lw acked queuelen pcb hp hst =>
    have hack : Paced { s with pcb := some { pcb with sndBuf := pcb.sndBuf + acked,
                                                      sndQueuelen := queuelen } } :=
      ⟨h.stalled, fun hc hpause _ _ _ => h.running hc hpause pcb hp (synchronised_ne_synSent hst)⟩
    exact hack.maybeResumeClientRead
  | err =>
    rw [onErr_eq]
    exact .of_closing rfl

theorem paced_run {crypto : ShadowsocksAeadSession} {is : List Input} (h : Reaches P crypto is s) :
    Paced s := by
  have hinv := run_inv (fun s => Reading 0 s ∧ Paced s)
    (fun _ _ _ hI hs => ⟨reading_step hI.1 hs, paced_step hI.1 hI.2 hs⟩)
    ⟨reading_start crypto, fun _ hpause => (by cases hpause), fun _ _ _ hp => (by cases hp)⟩ h
  exact hinv.2

end TcpRelaySession

end Ovpn2ss.Tcp
