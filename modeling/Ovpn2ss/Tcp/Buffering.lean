/-
  How much a session buffers from its client.

  Backpressure is raised in one place: `flush_to_lwip` pauses the client when lwIP cannot take
  the queue, and does nothing without a pcb. So the bound of `buffered_le` needs that no read
  completes with data while an open session has a target but no pcb. It comes from three facts:
  what a read leaves in `encrypted_in_` is less than a chunk, a read can add no more than the
  buffered bytes and its own, and at most one read is outstanding in a paused session
  (`Reading`). While a name is being resolved, and after the remote's FIN, there is no bound
  (`buffered_unbounded`).
-/
import Ovpn2ss.Tcp.HalfClose

namespace Ovpn2ss.Tcp.TcpRelaySession

open Ovpn2ss.Aead Ovpn2ss.Lib Ovpn2ss.Lwip

variable {P : Platform} {lw : Answers} {W : List Piece} {s s' : TcpRelaySession}

/-- The bytes in `pending_lwip_`. -/
def queuedBytes (s : TcpRelaySession) : Nat := s.pendingLwip.flatten.length

/-- The bytes in `pending_lwip_` and `encrypted_in_`. -/
def buffered (s : TcpRelaySession) : Nat := s.queuedBytes + s.encryptedIn.length

/-! ## What a read adds -/

theorem Keeps.queuedBytes (h : Keeps W s s') (hW : .queue ∉ W) : s'.queuedBytes = s.queuedBytes :=
  congrArg (fun ps => ps.flatten.length) (h.pieces .queue hW)

theorem queued_bytes (s : TcpRelaySession) (ps : List Bytes) :
    (s.queued ps).queuedBytes = s.queuedBytes + ps.flatten.length := by
  unfold queuedBytes queued
  rw [List.flatten_append, List.length_append]

theorem processDecryptedChunk_bytes (P : Platform) (lw : Answers) (s : TcpRelaySession)
    (chunk : Bytes) :
    (s.processDecryptedChunk P lw chunk).2.queuedBytes ≤ s.queuedBytes + chunk.length := by
  have hqueue (t : TcpRelaySession) (bytes : Bytes) :
      (t.queueLwip bytes).queuedBytes = t.queuedBytes + bytes.length := by
    rw [queueLwip_eq, queued_bytes, flatten_payloads]
    simp
  unfold processDecryptedChunk
  split
  · exact (hqueue s chunk).le
  · split
    · rw [(close_frame lw s).queuedBytes (by decide)]
      exact Nat.le_add_right _ _
    · rename_i target bytes haddr
      have hlen := parseSsAddress_length haddr
      have hc : ({ s with gotTarget := true }.connectTarget P lw target).2.queuedBytes =
          s.queuedBytes := (connectTarget_frame P lw _ target).queuedBytes (by decide)
      split
      · rename_i he
        rw [he] at hc
        dsimp only at hc ⊢
        omega
      · rename_i he
        rw [he] at hc
        dsimp only at hc ⊢
        rw [hqueue]
        omega

theorem processAll_bytes (P : Platform) (lw : Answers) (s : TcpRelaySession) (chunks : List Bytes) :
    (processAll P lw s chunks).2.queuedBytes ≤ s.queuedBytes + chunks.flatten.length := by
  induction chunks generalizing s with
  | nil => exact Nat.le_add_right _ _
  | cons chunk chunks ih =>
    have hchunk := processDecryptedChunk_bytes P lw s chunk
    rw [processAll, List.flatten_cons, List.length_append]
    rcases hp : s.processDecryptedChunk P lw chunk with ⟨e | _, t⟩ <;> rw [hp] at hchunk
    · dsimp only at hchunk ⊢
      omega
    · have hrest := ih t
      dsimp only at hchunk ⊢
      omega

/-- The chunks of a read and what it leaves are no more than what was buffered and read. -/
theorem chunksOf_bytes (P : Platform) (s : TcpRelaySession) (bytes : Bytes) :
    (s.chunksOf P bytes).flatten.length + (s.decrypted P bytes).rest.length ≤
      s.encryptedIn.length + bytes.length := by
  obtain ⟨consumed, hcut, hsum⟩ : ∃ consumed,
      s.encryptedIn ++ bytes = consumed ++ (s.decrypted P bytes).rest ∧
      ((s.chunksOf P bytes).map (34 + List.length ·)).sum = consumed.length :=
    drain_decrypt_lengths P _ s.crypto (s.encryptedIn ++ bytes)
  have hframes (chunks : List Bytes) :
      chunks.flatten.length ≤ (chunks.map (34 + List.length ·)).sum := by
    induction chunks with
    | nil => exact le_refl _
    | cons chunk chunks ih =>
      rw [List.flatten_cons, List.length_append, List.map_cons, List.sum_cons]
      omega
  have hlen := congrArg List.length hcut
  rw [List.length_append, List.length_append] at hlen
  have hitems := hframes (s.chunksOf P bytes)
  omega

/-! ## The bounds -/

/-- What an open session buffers, and what a closed one can still come to buffer from the reads
    that are outstanding. -/
structure Bounded (s : TcpRelaySession) : Prop where
  input : s.closing = false → s.encryptedIn.length ≤ 16416
  running : s.closing = false → s.clientReadPaused = false → s.queuedBytes ≤ 24608
  paused : s.closing = false → s.clientReadPaused = true → s.queuedBytes + 24608 * s.reads ≤ 73824
  closedInput : s.closing = true → s.encryptedIn.length + 8192 * s.reads ≤ 32800
  closedQueue : s.closing = true → s.queuedBytes + 32800 * s.reads ≤ 139424

theorem Bounded.of_closing (hc : s.closing = true)
    (hin : s.encryptedIn.length + 8192 * s.reads ≤ 32800)
    (hq : s.queuedBytes + 32800 * s.reads ≤ 139424) : Bounded s := by
  have hopen {q : Prop} (hc' : s.closing = false) : q := absurd hc (Bool.eq_false_iff.mp hc')
  exact ⟨hopen, hopen, hopen, fun _ => hin, fun _ => hq⟩

/-- Buffering no more, and at most ending the session. -/
theorem Bounded.mono (h : Bounded s) (hreads : s.reads ≤ 2) (hr : s'.reads ≤ s.reads)
    (he : s'.encryptedIn.length ≤ s.encryptedIn.length) (hq : s'.queuedBytes ≤ s.queuedBytes)
    (hp : s'.closing = false → s'.clientReadPaused = s.clientReadPaused)
    (hc : s.closing = true → s'.closing = true) : Bounded s' := by
  have hopen (hc' : s'.closing = false) : s.closing = false :=
    Bool.eq_false_iff.mpr fun hs => absurd (hc hs) (Bool.eq_false_iff.mp hc')
  refine ⟨fun hc' => ?_, fun hc' hp' => ?_, fun hc' hp' => ?_, fun _ => ?_, fun _ => ?_⟩
  · have := h.input (hopen hc')
    omega
  · have := h.running (hopen hc') (hp hc' ▸ hp')
    omega
  · have := h.paused (hopen hc') (hp hc' ▸ hp')
    omega
  · cases hs : s.closing with
    | false =>
      have := h.input hs
      omega
    | true =>
      have := h.closedInput hs
      omega
  · cases hs : s.closing with
    | false =>
      cases hpause : s.clientReadPaused with
      | false =>
        have := h.running hs hpause
        omega
      | true =>
        have := h.paused hs hpause
        omega
    | true =>
      have := h.closedQueue hs
      omega

/-- Work on other pieces keeps the bounds. -/
theorem Bounded.keeps (h : Bounded s) (hreads : s.reads ≤ 2) (hk : Keeps W s s')
    (hW : ∀ p ∈ [Piece.input, .queue, .pause, .reads], p ∉ W) : Bounded s' := by
  have hin : s'.encryptedIn = s.encryptedIn := hk.pieces .input (hW _ (by decide))
  have hr : s'.reads = s.reads := hk.pieces .reads (hW _ (by decide))
  exact h.mono hreads hr.le (congrArg List.length hin).le (hk.queuedBytes (hW _ (by decide))).le
    (fun _ => hk.pieces .pause (hW _ (by decide))) fun hc => (hk.closed hc).1

theorem Bounded.close (h : Bounded s) (hreads : s.reads ≤ 2) : Bounded (s.close lw) :=
  h.keeps hreads (close_frame lw s).toKeeps (by decide)

theorem Bounded.readEncryptedStream (h : Bounded s) : Bounded s.readEncryptedStream := by
  by_cases hheld : s.closing = true ∨ s.clientReadPaused = true
  · rwa [readEncryptedStream_of_held hheld]
  · rw [not_or, Bool.not_eq_true, Bool.not_eq_true] at hheld
    rw [readEncryptedStream_of_open hheld.1 hheld.2]
    have hc {q : Prop} (hc' : s.closing = true) : q := absurd hc' (Bool.eq_false_iff.mp hheld.1)
    exact ⟨h.input, h.running, fun _ hp => absurd hp (Bool.eq_false_iff.mp hheld.2), hc, hc⟩

/-- Flushing: with a pcb the queue is emptied, or the client is paused and one read at most can
    still add to it; without a pcb the bound has to hold as it is. -/
theorem Bounded.flushToLwip (hr : s.reads ≤ 1)
    (hin : s.closing = false → s.encryptedIn.length ≤ 16416)
    (hopen : s.closing = false → s.queuedBytes + 24608 * s.reads ≤ 73824)
    (hnone : s.closing = false → s.pcb = none →
      s.clientReadPaused = false ∧ s.queuedBytes ≤ 24608)
    (hcin : s.closing = true → s.encryptedIn.length + 8192 * s.reads ≤ 32800)
    (hcq : s.closing = true → s.queuedBytes + 32800 * s.reads ≤ 139424) :
    Bounded (s.flushToLwip lw) := by
  rcases flushToLwip_cases lw s with ⟨hp, he⟩ | ⟨pcb, pcb', sent, rest, -, -, hsplit, hres⟩
  · rw [he]
    refine ⟨hin, fun hc _ => (hnone hc hp).2, fun hc hpause => ?_, hcin, hcq⟩
    rw [(hnone hc hp).1] at hpause
    cases hpause
  · -- what is left of the queue is no more than it was
    have hle : rest.flatten.length ≤ s.queuedBytes := by
      unfold queuedBytes
      rw [hsplit, List.flatten_append, List.length_append]
      exact Nat.le_add_left _ _
    have hpaused : Bounded { s.flushed pcb' sent rest with clientReadPaused := true } :=
      ⟨hin, fun _ hpause => (by cases hpause),
        fun hc _ => (Nat.add_le_add_right hle _).trans (hopen hc), hcin,
        fun hc => (Nat.add_le_add_right hle _).trans (hcq hc)⟩
    rcases hres with ⟨-, he⟩ | ⟨-, he⟩ | ⟨-, he⟩ <;> rw [he]
    · refine ⟨hin, fun _ _ => Nat.zero_le _, fun _ _ => ?_, hcin,
        fun hc => (Nat.add_le_add_right (Nat.zero_le _) _).trans (hcq hc)⟩
      show 0 + 24608 * s.reads ≤ 73824
      omega
    · exact hpaused
    · have hclose := close_frame lw (s.flushed pcb' sent rest)
      have hreads : ((s.flushed pcb' sent rest).close lw).reads = s.reads :=
        hclose.pieces .reads (by decide)
      have hinput : ((s.flushed pcb' sent rest).close lw).encryptedIn = s.encryptedIn :=
        hclose.pieces .input (by decide)
      refine hpaused.mono (hr.trans (by decide)) hreads.le (congrArg List.length hinput).le
        (hclose.queuedBytes (by decide)).le (fun hc => ?_) fun _ => close_closing lw _
      rw [close_closing] at hc
      cases hc

/-- A read completes with data only in a session that is closed, has a pcb or waits for its
    target. -/
def ReadsConnected (s : TcpRelaySession) (i : Input) : Prop :=
  ∀ bytes, i.event = .clientRead (.data bytes) → s.closing = false → s.gotTarget = true →
    s.pcb ≠ none

/-- The queue of a session that stays open over a read. -/
theorem Bounded.roomOpen (h : Bounded s) (hreads : s.reads ≤ 2) (hpos : 0 < s.reads) {n : Nat}
    (hn : n ≤ 8192) (hc : s.closing = false) :
    s.queuedBytes + (s.encryptedIn.length + n) + 24608 * (s.reads - 1) ≤ 73824 := by
  have h1 := h.input hc
  cases hp : s.clientReadPaused with
  | true =>
    have h2 := h.paused hc hp
    omega
  | false =>
    have h2 := h.running hc hp
    omega

/-- What a closed session has room for is what a read can still bring. -/
theorem Bounded.room (h : Bounded s) (hreads : s.reads ≤ 2) (hpos : 0 < s.reads) {n : Nat}
    (hn : n ≤ 8192) :
    s.encryptedIn.length + n + 8192 * (s.reads - 1) ≤ 32800 ∧
      s.queuedBytes + (s.encryptedIn.length + n) + 32800 * (s.reads - 1) ≤ 139424 := by
  cases hc : s.closing with
  | true =>
    have h1 := h.closedInput hc
    have h2 := h.closedQueue hc
    omega
  | false =>
    have h1 := h.input hc
    have h2 := h.roomOpen hreads hpos hn hc
    omega

/-- Before the target is known nothing is queued. -/
theorem Bounded.roomFresh (h : Bounded s) (hR : Reading 0 s) (hg : s.gotTarget = false)
    (hc : s.closing = false) {n : Nat} (hn : n ≤ ReadBufSize) :
    s.clientReadPaused = false ∧ s.queuedBytes + (s.encryptedIn.length + n) ≤ 24608 := by
  obtain ⟨-, hpend, hpause, -⟩ := hR.fresh hg
  have hin := h.input hc
  have hempty : s.queuedBytes = 0 := by
    unfold queuedBytes
    rw [hpend]
    rfl
  rw [ReadBufSize] at hn
  exact ⟨hpause, by omega⟩

/-- The read handler of a session that has a pcb or does not know its target yet. -/
theorem Bounded.onClientData (h : Bounded s) (hR : Reading 0 s) (hpos : 0 < s.reads)
    {bytes : Bytes} (hn : bytes.length ≤ ReadBufSize)
    (hconn : s.closing = false → s.gotTarget = true → s.pcb ≠ none) :
    Bounded ({ s with reads := s.reads - 1 }.onClientData P lw bytes) := by
  have hreads : s.reads ≤ 2 := hR.reads
  have hkey : s.crypto.haveRecvKey = true := hR.key (Or.inr hpos)
  obtain ⟨hroom, hroomQueue⟩ := h.room hreads hpos hn
  have hread : (chunksOf P { s with reads := s.reads - 1 } bytes).flatten.length +
      (decrypted P { s with reads := s.reads - 1 } bytes).rest.length ≤
      s.encryptedIn.length + bytes.length := chunksOf_bytes P { s with reads := s.reads - 1 } bytes
  have hbytes : (processAll P lw { s with reads := s.reads - 1 }
        (chunksOf P { s with reads := s.reads - 1 } bytes)).2.queuedBytes ≤
      s.queuedBytes + (chunksOf P { s with reads := s.reads - 1 } bytes).flatten.length :=
    processAll_bytes P lw { s with reads := s.reads - 1 } _
  have hsame := (processAll_frame P lw { s with reads := s.reads - 1 }
    (chunksOf P { s with reads := s.reads - 1 } bytes)).sameReads (by decide) (by decide)
  rcases onClientData_cases P lw { s with reads := s.reads - 1 } bytes with
    ⟨t, hp, herr, he⟩ | ⟨r, t, c, hp, -, -, he⟩ <;> rw [hp] at hbytes hsame <;> rw [he]
  · have hr : t.reads = s.reads - 1 := hsame.reads
    have hopen (hc : t.closing = false) : s.closing = false :=
      Bool.eq_false_iff.mpr fun hs => absurd (hsame.closing hs) (Bool.eq_false_iff.mp hc)
    refine (Bounded.flushToLwip ?_ ?_ ?_ ?_ ?_ ?_).readEncryptedStream
    · show t.reads ≤ 1
      omega
    · intro _
      exact decrypted_rest P (s := { s with reads := s.reads - 1 }) hkey herr
    · intro hc
      have hq := h.roomOpen hreads hpos hn (hopen hc)
      show t.queuedBytes + 24608 * t.reads ≤ 73824
      dsimp only at hbytes
      omega
    · intro hc hnone
      -- without a pcb the target was not known before, so the queue was empty
      cases hg : s.gotTarget with
      | true =>
        rw [processAll_of_target P (s := { s with reads := s.reads - 1 }) hg] at hp
        obtain ⟨-, rfl⟩ := Prod.mk.inj hp
        exact absurd hnone (hconn (hopen hc) hg)
      | false =>
        obtain ⟨hpause, hq⟩ := h.roomFresh hR hg (hopen hc) hn
        refine ⟨hsame.paused.trans hpause, ?_⟩
        show t.queuedBytes ≤ 24608
        dsimp only at hbytes
        omega
    · intro _
      show (decrypted P { s with reads := s.reads - 1 } bytes).rest.length + 8192 * t.reads ≤ 32800
      omega
    · intro _
      show t.queuedBytes + 32800 * t.reads ≤ 139424
      dsimp only at hbytes
      omega
  · have hclose := close_frame lw (t.withInput c (s.encryptedIn ++ bytes))
    have hreads' : ((t.withInput c (s.encryptedIn ++ bytes)).close lw).reads = t.reads :=
      hclose.pieces .reads (by decide)
    have hinput : ((t.withInput c (s.encryptedIn ++ bytes)).close lw).encryptedIn =
        s.encryptedIn ++ bytes := hclose.pieces .input (by decide)
    refine .of_closing (close_closing lw _) ?_ ?_
    · rw [hinput, hreads', List.length_append, hsame.reads]
      exact hroom
    · rw [hclose.queuedBytes (by decide), hreads']
      show t.queuedBytes + 32800 * t.reads ≤ 139424
      rw [hsame.reads]
      dsimp only at hbytes ⊢
      omega

/-! ## Runs -/

/-- A pcb takes the whole bound of the queue, paused or not. -/
theorem Bounded.flushOpen (h : Bounded s) (hr : s.reads ≤ 1) {pcb : TcpPcb} (hp : s.pcb = some pcb)
    (paused : Bool) : Bounded ({ s with clientReadPaused := paused }.flushToLwip lw) := by
  refine Bounded.flushToLwip hr h.input (fun hc => ?_) (fun _ hnone => ?_) h.closedInput
    h.closedQueue
  · show s.queuedBytes + 24608 * s.reads ≤ 73824
    cases hpause : s.clientReadPaused with
    | true => exact h.paused hc hpause
    | false =>
      have := h.running hc hpause
      omega
  · rw [show s.pcb = none from hnone] at hp
    cases hp

theorem bounded_step {i : Input} (hR : Reading 0 s) (h : Bounded s) (hG : ReadsConnected s i)
    (hs : s.step P i = some s') : Bounded s' := by
  have hreads : s.reads ≤ 2 := hR.reads
  have hread : Bounded { s with reads := s.reads - 1 } :=
    h.mono hreads (Nat.sub_le _ _) (le_refl _) (le_refl _) (fun _ => rfl) id
  have hpcb (pcb : TcpPcb) : Bounded { s with pcb := some pcb } :=
    ⟨h.input, h.running, h.paused, h.closedInput, h.closedQueue⟩
  have hf := fires_of_step hs
  have hkeeps := (fires_keeps hf).1
  cases hf with
  | saltRead =>
    have hsalt : Bounded { s with saltPending := false } :=
      ⟨h.input, h.running, h.paused, h.closedInput, h.closedQueue⟩
    rcases onSaltRead_cases P _ { s with saltPending := false } _ with he | ⟨key, he⟩ <;> rw [he]
    · exact hsalt.close hreads
    · have hkey : Bounded ({ s with saltPending := false }.keyed key) :=
        ⟨h.input, h.running, h.paused, h.closedInput, h.closedQueue⟩
      exact hkey.readEncryptedStream
  | @clientData lw bytes hpos _ hn => exact h.onClientData hR hpos hn (hG bytes rfl)
  | clientEof =>
    exact hread.keeps ((Nat.sub_le _ _).trans hreads) (handleClientEof_frame _ _).toKeeps (by decide)
  | clientError => exact hread.close ((Nat.sub_le _ _).trans hreads)
  | connected hp hst =>
    refine onConnected_inv Bounded ((hpcb _).close hreads) ?_
    exact (hpcb _).flushOpen (hR.connecting _ hp hst).1 rfl s.clientReadPaused
  | recvError => exact h.close hreads
  | @sent lw acked queuelen pcb =>
    unfold onSent
    rcases maybeResumeClientRead_cases lw { s with
        pcb := some { pcb with sndBuf := pcb.sndBuf + acked, sndQueuelen := queuelen } } with
      he | ⟨q, hq, hpause, -, he⟩ <;> rw [he]
    · exact hpcb _
    · exact ((hpcb _).flushOpen (hR.paused hpause) rfl false).readEncryptedStream
  | _ => exact h.keeps hreads hkeeps (by simp [footprint])

/-- Bounded buffering: in every run in which no read completes with data while the session is
    open, has its target and has no pcb, never more than 172224 bytes are held. -/
theorem buffered_le {crypto : ShadowsocksAeadSession} {is : List Input}
    (hG : Along (step P) ReadsConnected (start crypto) is) (h : Reaches P crypto is s) :
    s.buffered ≤ 172224 := by
  have hstart : Bounded (start crypto) :=
    ⟨fun _ => Nat.zero_le _, fun _ _ => Nat.zero_le _, fun _ hp => (by cases hp),
      fun hc => (by cases hc), fun hc => (by cases hc)⟩
  obtain ⟨hR, hB⟩ := run_guarded_inv (fun s => Reading 0 s ∧ Bounded s)
    (fun _ _ _ hI hG hs => ⟨reading_step hI.1 hs, bounded_step hI.1 hI.2 hG hs⟩)
    ⟨reading_start crypto, hstart⟩ hG h
  unfold buffered
  cases hc : s.closing with
  | true =>
    have h1 := hB.closedInput hc
    have h2 := hB.closedQueue hc
    omega
  | false =>
    have h1 := hB.input hc
    cases hp : s.clientReadPaused with
    | true =>
      have h2 := hB.paused hc hp
      omega
    | false =>
      have h2 := hB.running hc hp
      omega

/-- A paused client, with a byte in the queue. -/
theorem buffered_le_demo :
    Along (step demoPlatform) ReadsConnected (start demoCrypto) demoPaused ∧
    ∃ s, Reaches demoPlatform demoCrypto demoPaused s ∧ s.clientReadPaused = true ∧ s.buffered = 1 ∧
      s.buffered ≤ 172224 := by
  have hG : Along (step demoPlatform) ReadsConnected (start demoCrypto) demoPaused := by
    refine ⟨fun _ hev => (by cases hev), fun s1 h1 => ⟨fun _ _ _ htarget => ?_, fun s2 h2 =>
      ⟨fun _ hev => (by cases hev), fun _ _ => trivial⟩⟩⟩
    obtain rfl := Option.some.inj h1
    cases htarget
  obtain ⟨s, h, hpaused, hone⟩ : ∃ s, Reaches demoPlatform demoCrypto demoPaused s ∧
      s.clientReadPaused = true ∧ s.buffered = 1 := ⟨_, rfl, rfl, rfl⟩
  exact ⟨hG, s, h, hpaused, hone, buffered_le hG h⟩

/-- While a name is being resolved the client is read without end: no bound holds. -/
theorem buffered_unbounded :
    ¬ ∃ B, ∀ is s, Reaches demoPlatform demoCrypto is s → s.buffered ≤ B := by
  rintro ⟨B, hB⟩
  obtain ⟨client, s, h, hw, hs, hp, -⟩ := waiting_demo
  obtain ⟨is, t, -, hrun, -, hp', -⟩ := waiting_run (P := demoPlatform) standIn_seals standIn_inverts
    willing (List.replicate (B + 1) [7]) (by
      intro p hmem
      rw [List.eq_of_mem_replicate hmem]
      exact ⟨by simp, by decide⟩) hw hs
  have hle := hB _ t (run_append.mpr ⟨s, h, hrun⟩)
  rw [hp, List.nil_append] at hp'
  have hlen : t.queuedBytes = B + 1 := by
    unfold queuedBytes
    rw [hp', List.length_flatten, List.map_replicate, List.sum_replicate]
    simp
  unfold buffered at hle
  omega

end Ovpn2ss.Tcp.TcpRelaySession
