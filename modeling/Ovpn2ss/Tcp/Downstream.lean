/-
  Downstream: the queue to the client and the FIN of the remote end.

  While a session is open, one write is in flight exactly if the queue is not empty, and it is
  that of the front buffer; and the buffers written and those still queued are one for each
  data callback so far and one more for the salt (`Outbox`, kept by every step). A FIN makes
  `handle_remote_fin` shut the sending side of the client socket down at once, whatever is
  queued. So the queue has been delivered at that moment exactly if the environment happened to
  complete every write before it delivered the FIN (`remoteFin_drained_iff`); a FIN that comes
  with the data truncates it (`remoteFin_truncates`).
-/
import Ovpn2ss.Tcp.Client

namespace Ovpn2ss.Tcp

open Ovpn2ss.Aead Ovpn2ss.Lib Ovpn2ss.Lwip

/-! ## Counting callbacks -/

def Action.isReceived : Action → Bool
  | .received _ => true
  | _ => false

def Action.isWrote : Action → Bool
  | .wrote _ => true
  | _ => false

theorem countP_of_piece {acts : List Action} {p : Action → Bool}
    (hp : ∀ a, p a = true → a.piece = .client)
    (h : ∀ a ∈ acts, a.piece ≠ .client) : acts.countP p = 0 := by
  rw [List.countP_eq_zero]
  intro a ha hpa
  exact h a ha (hp a hpa)

theorem isReceived_piece (a : Action) (h : a.isReceived = true) : a.piece = .client := by
  cases a <;> first | rfl | cases h

theorem isWrote_piece (a : Action) (h : a.isWrote = true) : a.piece = .client := by
  cases a <;> first | rfl | cases h

namespace TcpRelaySession

variable {P : Platform} {lw : Answers} {s s' : TcpRelaySession} {bytes buf : Bytes}

/-- The data callbacks so far. -/
def receivedCount (s : TcpRelaySession) : Nat := s.trace.countP Action.isReceived

/-- The client writes completed so far. -/
def wroteCount (s : TcpRelaySession) : Nat := s.trace.countP Action.isWrote

theorem Upstream.receivedCount (h : Upstream s s') : s'.receivedCount = s.receivedCount := by
  obtain ⟨acts, ht, ha⟩ := h.trace
  rw [TcpRelaySession.receivedCount, TcpRelaySession.receivedCount, ht, List.countP_append,
    countP_of_piece isReceived_piece ha, Nat.add_zero]

theorem Upstream.wroteCount (h : Upstream s s') : s'.wroteCount = s.wroteCount := by
  obtain ⟨acts, ht, ha⟩ := h.trace
  rw [TcpRelaySession.wroteCount, TcpRelaySession.wroteCount, ht, List.countP_append,
    countP_of_piece isWrote_piece ha, Nat.add_zero]

/-! ## The queue -/

/-- One write is in flight if anything is queued, and it is that of the front buffer. -/
def InFlight (s : TcpRelaySession) : Prop :=
  s.writes = s.pendingClient.take 1 ∧ s.writingClient = !s.pendingClient.isEmpty

/-- How many buffers `n` data callbacks make: one each, and the salt before the first. -/
def buffersFor (n : Nat) : Nat := if n = 0 then 0 else n + 1

/-- The queue of an open session. -/
structure Outbox (s : TcpRelaySession) : Prop where
  inFlight : s.InFlight
  salted : s.sentResponseSalt = decide (s.receivedCount ≠ 0)
  count : s.wroteCount + s.pendingClient.length = buffersFor s.receivedCount

/-- Starting the write of the front buffer when nothing is being written. -/
theorem flushToClient_of_idle (hw : s.writes = []) (hi : s.writingClient = false) :
    s.flushToClient.InFlight := by
  unfold flushToClient InFlight
  cases hp : s.pendingClient with
  | nil => simp [hp, hw, hi]
  | cons front rest => simp [log, hp, hw, hi]

/-- Appending to a queue whose front is being written starts nothing. -/
theorem flushToClient_of_inFlight (h : s.InFlight) (bufs : List Bytes) (q : Nat) :
    ({ s with pendingClient := s.pendingClient ++ bufs,
              clientQueueBytes := q }.flushToClient).InFlight := by
  obtain ⟨hw, hi⟩ := h
  cases hp : s.pendingClient with
  | nil =>
    rw [hp] at hw hi
    exact flushToClient_of_idle hw hi
  | cons front rest =>
    rw [hp] at hw hi
    have hbusy : s.writingClient = true := hi
    simp [flushToClient, InFlight, hbusy, hw]

@[simp] theorem flushToClient_pendingClient (s : TcpRelaySession) :
    s.flushToClient.pendingClient = s.pendingClient := by
  unfold flushToClient
  split
  · rfl
  · split <;> rfl

@[simp] theorem flushToClient_sentResponseSalt (s : TcpRelaySession) :
    s.flushToClient.sentResponseSalt = s.sentResponseSalt := by
  unfold flushToClient
  split
  · rfl
  · split <;> rfl

@[simp] theorem flushToClient_receivedCount (s : TcpRelaySession) :
    s.flushToClient.receivedCount = s.receivedCount := by
  unfold flushToClient
  split
  · rfl
  · split
    · rfl
    · simp [receivedCount, log, Action.isReceived]

@[simp] theorem flushToClient_wroteCount (s : TcpRelaySession) :
    s.flushToClient.wroteCount = s.wroteCount := by
  unfold flushToClient
  split
  · rfl
  · split
    · rfl
    · simp [wroteCount, log, Action.isWrote]

/-- A payload that is enqueued appends its chunk, behind the salt if it is the first. -/
theorem enqueueClientPayload_ok {rng : Option Salt} (hne : bytes ≠ [])
    (h : s.enqueueClientPayload P rng bytes = (.ok (), s')) :
    ∃ bufs c q, bufs.length = (if s.sentResponseSalt then 1 else 2) ∧
      s' = { s with crypto := c, sentResponseSalt := true, pendingClient := s.pendingClient ++ bufs,
                    clientQueueBytes := q }.flushToClient := by
  have hemp : ¬ bytes.isEmpty = true := by simpa using hne
  rw [enqueueClientPayload, if_neg hemp] at h
  cases hs : s.sentResponseSalt with
  | true =>
    rw [queueSalt, if_pos hs] at h
    dsimp only at h
    rcases he : s.crypto.encryptTcpChunk P.mbedtls bytes with ⟨_ | encrypted, c⟩ <;> rw [he] at h
    · cases h
    · obtain ⟨-, rfl⟩ := Prod.mk.inj h
      exact ⟨[encrypted], c, _, rfl, by rw [← hs]; rfl⟩
  | false =>
    rw [queueSalt, if_neg (by rw [hs]; decide)] at h
    rcases hsalt : s.crypto.clientSalt P.mbedtls rng with ⟨_ | salt, c⟩ <;> rw [hsalt] at h
    · cases h
    · dsimp only [pushClient] at h
      rcases he : c.encryptTcpChunk P.mbedtls bytes with ⟨_ | encrypted, c'⟩ <;> rw [he] at h
      · cases h
      · obtain ⟨-, rfl⟩ := Prod.mk.inj h
        exact ⟨[salt, encrypted], c', _, rfl, by rw [List.append_assoc]; rfl⟩

theorem outbox_start (crypto : ShadowsocksAeadSession) : (start crypto).Outbox :=
  ⟨⟨rfl, rfl⟩, rfl, rfl⟩

theorem Outbox.upstream (h : s.Outbox) (hu : Upstream s s') : s'.Outbox := by
  have hp : s'.pendingClient = s.pendingClient := congrArg DownstreamView.pendingClient hu.view
  have hw : s'.writes = s.writes := congrArg DownstreamView.writes hu.view
  have hi : s'.writingClient = s.writingClient := congrArg DownstreamView.writingClient hu.view
  have hs : s'.sentResponseSalt = s.sentResponseSalt :=
    congrArg DownstreamView.sentResponseSalt hu.view
  refine ⟨?_, ?_, ?_⟩
  · rw [InFlight, hw, hp, hi]
    exact h.inFlight
  · rw [hs, hu.receivedCount]
    exact h.salted
  · rw [hu.wroteCount, hp, hu.receivedCount]
    exact h.count

theorem buffersFor_succ (n : Nat) :
    buffersFor (n + 1) = buffersFor n + if decide (n ≠ 0) then 1 else 2 := by
  cases n <;> simp [buffersFor]

/-- A payload that leaves the session open adds its buffers to the queue. -/
theorem Outbox.onRecv (h : s.Outbox) {rng : Option Salt} (hne : bytes ≠ [])
    (hopen : (s.onRecv P lw (some bytes) .ERR_OK rng).closing = false) :
    (s.onRecv P lw (some bytes) .ERR_OK rng).Outbox := by
  have hrecv : (s.log (.received bytes)).receivedCount = s.receivedCount + 1 := by
    simp [receivedCount, log, Action.isReceived]
  have hwrote : (s.log (.received bytes)).wroteCount = s.wroteCount := by
    simp [wroteCount, log, Action.isWrote]
  rcases onRecv_cases P lw s bytes rng with ⟨e, t, -, he⟩ | ⟨t, h', hcredit⟩
  · rw [he, close_closing] at hopen
    cases hopen
  · have ht : t.Outbox := by
      obtain ⟨bufs, c, q, hlen, rfl⟩ := enqueueClientPayload_ok hne h'
      refine ⟨?_, ?_, ?_⟩
      · exact flushToClient_of_inFlight
          (s := { s.log (.received bytes) with crypto := c, sentResponseSalt := true })
          h.inFlight bufs q
      · rw [flushToClient_sentResponseSalt, flushToClient_receivedCount]
        show true = decide ((s.log (.received bytes)).receivedCount ≠ 0)
        rw [hrecv]
        simp
      · rw [flushToClient_wroteCount, flushToClient_pendingClient, flushToClient_receivedCount]
        show (s.log (.received bytes)).wroteCount + (s.pendingClient ++ bufs).length =
          buffersFor (s.log (.received bytes)).receivedCount
        rw [hrecv, hwrote, List.length_append, hlen, buffersFor_succ, ← h.count, ← h.salted]
        exact (Nat.add_assoc _ _ _).symm
    rcases hcredit with ⟨-, he⟩ | ⟨-, he⟩ <;> rw [he]
    · exact ⟨ht.inFlight, ht.salted, ht.count⟩
    · refine ⟨ht.inFlight, ?_, ?_⟩
      · simpa [receivedCount, log, Action.isReceived] using ht.salted
      · simpa [receivedCount, wroteCount, log, Action.isReceived, Action.isWrote] using ht.count

@[simp] theorem creditDeferred_fields (s : TcpRelaySession) :
    s.creditDeferred.writes = s.writes ∧ s.creditDeferred.writingClient = s.writingClient ∧
    s.creditDeferred.pendingClient = s.pendingClient ∧
    s.creditDeferred.sentResponseSalt = s.sentResponseSalt := by
  unfold creditDeferred
  split <;> exact ⟨rfl, rfl, rfl, rfl⟩

theorem creditDeferred_counts (s : TcpRelaySession) :
    s.creditDeferred.receivedCount = s.receivedCount ∧ s.creditDeferred.wroteCount = s.wroteCount := by
  unfold creditDeferred
  split
  · simp [receivedCount, wroteCount, Function.comp_def, Action.isReceived, Action.isWrote]
  · exact ⟨rfl, rfl⟩

/-- A completed write takes its buffer from the queue and starts the next. -/
theorem Outbox.onClientWrote (h : s.Outbox) {writes : List Bytes} {ok : Bool}
    (hw : s.writes = buf :: writes)
    (hopen : ({ s with writes := writes }.onClientWrote lw buf ok).closing = false) :
    ({ s with writes := writes }.onClientWrote lw buf ok).Outbox := by
  unfold TcpRelaySession.onClientWrote at hopen ⊢
  cases ok with
  | false => simp at hopen
  | true =>
    obtain ⟨hin, -⟩ := h.inFlight
    rw [hw] at hin
    have hne : s.pendingClient ≠ [] := by
      rintro hnil
      rw [hnil] at hin
      cases hin
    obtain ⟨front, rest, hp⟩ := List.exists_cons_of_ne_nil hne
    rw [hp] at hin
    obtain ⟨rfl, hnil⟩ := List.cons.inj hin
    have hcount := h.count
    rw [hp, List.length_cons] at hcount
    dsimp only [Bool.not_true]
    rw [if_neg (by decide)]
    obtain ⟨f1, f2, f3, f4⟩ := creditDeferred_fields
      ({ s with writes := writes, writingClient := false }.popClient buf)
    obtain ⟨k1, k2⟩ := creditDeferred_counts
      ({ s with writes := writes, writingClient := false }.popClient buf)
    refine ⟨flushToClient_of_idle (f1.trans hnil) f2, ?_, ?_⟩
    · rw [flushToClient_sentResponseSalt, f4, flushToClient_receivedCount, k1]
      simpa [receivedCount, popClient, log, Action.isReceived] using h.salted
    · rw [flushToClient_wroteCount, k2, flushToClient_pendingClient, f3,
        flushToClient_receivedCount, k1]
      simp only [receivedCount, wroteCount, popClient, log, List.countP_append, List.countP_singleton,
        Action.isReceived, Action.isWrote, hp, List.tail_cons] at hcount ⊢
      simp only [Bool.false_eq_true, if_true, if_false, Nat.add_zero]
      omega

/-- Every step of an open session that leaves it open keeps its queue in order. -/
theorem outbox_step {i : Input} (h : s.closing = false → s.Outbox) (hs : s.step P i = some s') :
    s'.closing = false → s'.Outbox := by
  intro hopen
  have hc := open_of_step hs hopen
  rcases fires_direction (fires_of_step hs) with
    ⟨-, -, hu⟩ | ⟨-, bytes, rng, -, h0, rfl⟩ | ⟨buf, writes, ok, hw, -, rfl⟩
  · exact (h hc).upstream hu
  · exact (h hc).onRecv (List.ne_nil_of_length_pos h0) hopen
  · exact (h hc).onClientWrote hw hopen

/-- The queue of an open session, at the end of any run. -/
theorem outbox_run {crypto : ShadowsocksAeadSession} {is : List Input} (h : Reaches P crypto is s)
    (hopen : s.closing = false) : s.Outbox :=
  run_inv (fun s => s.closing = false → s.Outbox) (fun _ _ _ h hs => outbox_step h hs)
    (fun _ => outbox_start crypto) h hopen

/-! ## Counting events -/

theorem enqueueClientPayload_counts (P : Platform) (s : TcpRelaySession) (rng : Option Salt)
    (bytes : Bytes) :
    (s.enqueueClientPayload P rng bytes).2.receivedCount = s.receivedCount ∧
    (s.enqueueClientPayload P rng bytes).2.wroteCount = s.wroteCount := by
  have hsalt : (s.queueSalt P rng).2.trace = s.trace := by
    unfold queueSalt
    split
    · rfl
    · split <;> rfl
  unfold enqueueClientPayload
  split
  · exact ⟨rfl, rfl⟩
  · split
    · rename_i h
      rw [h] at hsalt
      dsimp only at hsalt
      simp only [receivedCount, wroteCount, hsalt, and_self]
    · rename_i h
      rw [h] at hsalt
      dsimp only at hsalt
      split
      · simp only [receivedCount, wroteCount, hsalt, and_self]
      · dsimp only
        rw [flushToClient_receivedCount, flushToClient_wroteCount]
        simp only [receivedCount, wroteCount, pushClient, hsalt, and_self]

theorem onRecv_counts (P : Platform) (lw : Answers) (s : TcpRelaySession) (bytes : Bytes)
    (rng : Option Salt) :
    (s.onRecv P lw (some bytes) .ERR_OK rng).receivedCount = s.receivedCount + 1 ∧
    (s.onRecv P lw (some bytes) .ERR_OK rng).wroteCount = s.wroteCount := by
  have henq := enqueueClientPayload_counts P (s.log (.received bytes)) rng bytes
  have hr : (s.log (.received bytes)).receivedCount = s.receivedCount + 1 := by
    simp [receivedCount, log, Action.isReceived]
  have hw : (s.log (.received bytes)).wroteCount = s.wroteCount := by
    simp [wroteCount, log, Action.isWrote]
  rw [hr, hw] at henq
  rcases onRecv_cases P lw s bytes rng with ⟨e, t, h, he⟩ | ⟨t, h, ⟨-, he⟩ | ⟨-, he⟩⟩ <;>
    rw [h] at henq <;> rw [he]
  · have hu : Upstream t (t.close lw) := (close_frame lw t).upstream (by decide)
    rw [hu.receivedCount, hu.wroteCount]
    exact henq
  · exact henq
  · simpa [receivedCount, wroteCount, log, Action.isReceived, Action.isWrote] using henq

theorem onClientWrote_counts (lw : Answers) (s : TcpRelaySession) (buf : Bytes) (ok : Bool) :
    (s.onClientWrote lw buf ok).receivedCount = s.receivedCount ∧
    (s.onClientWrote lw buf ok).wroteCount = s.wroteCount + if ok then 1 else 0 := by
  unfold onClientWrote
  cases ok with
  | false =>
    have hu := (close_frame lw { s with writingClient := false }).upstream (by decide)
    exact ⟨hu.receivedCount, hu.wroteCount⟩
  | true =>
    obtain ⟨k1, k2⟩ := creditDeferred_counts ({ s with writingClient := false }.popClient buf)
    dsimp only [Bool.not_true]
    rw [if_neg (by decide), flushToClient_receivedCount, flushToClient_wroteCount, k1, k2]
    simp [receivedCount, wroteCount, popClient, log, Action.isReceived, Action.isWrote]

theorem step_counts {i : Input} (hs : s.step P i = some s') :
    s'.receivedCount = s.receivedCount + (if i.isData then 1 else 0) ∧
    s'.wroteCount = s.wroteCount + if i.isWriteDone then 1 else 0 := by
  rcases fires_direction (fires_of_step hs) with
    ⟨hd, hw, hu⟩ | ⟨-, bytes, rng, he, -, rfl⟩ | ⟨buf, writes, ok, -, he, rfl⟩
  · rw [hd, hw]
    exact ⟨hu.receivedCount, hu.wroteCount⟩
  · rw [Input.isData, Input.isWriteDone, he]
    exact onRecv_counts P i.lw s bytes rng
  · rw [Input.isData, Input.isWriteDone, he]
    exact onClientWrote_counts i.lw { s with writes := writes } buf ok

theorem run_counts {is : List Input} (h : run (step P) s is = some s') :
    s'.receivedCount = s.receivedCount + is.countP Input.isData ∧
    s'.wroteCount = s.wroteCount + is.countP Input.isWriteDone := by
  induction is generalizing s with
  | nil =>
    obtain rfl := Option.some.inj h
    exact ⟨rfl, rfl⟩
  | cons i is ih =>
    obtain ⟨m, hm, h⟩ := run_cons.mp h
    obtain ⟨h1, h2⟩ := ih h
    obtain ⟨k1, k2⟩ := step_counts hm
    rw [h1, h2, k1, k2, List.countP_cons, List.countP_cons]
    constructor <;> omega

/-- On a FIN the sending side of an open client socket is shut down before anything else. -/
theorem handleRemoteFin_shutdown {pcb : TcpPcb} (h : s.pcb = some pcb) (hopen : s.closing = false) :
    ∃ acts, (s.handleRemoteFin lw).trace = s.trace ++ .shutdownSend :: acts := by
  have hc : (s.severed lw).closing = false := hopen
  have ht : (s.severed lw).trace = s.trace ++ .shutdownSend :: closeActs lw s.pcb := by
    simp [severed, hopen]
  rw [handleRemoteFin_eq h]
  split
  · rw [close_of_open hc]
    dsimp only
    rw [ht, List.append_assoc]
    exact ⟨_, rfl⟩
  · exact ⟨_, ht⟩

/-- The remote's FIN and what is left for the client. In every run, when the FIN of the remote
    end makes the relay shut the sending side of the client socket down (which it does at
    once, if the socket is still open), nothing is queued or being written exactly if the
    environment has completed one write for each data callback and one for the salt. -/
theorem remoteFin_drained_iff {crypto : ShadowsocksAeadSession} {is : List Input} {rng : Option Salt}
    (h : Reaches P crypto is s) (hopen : s.closing = false)
    (hfin : s.step P ⟨.recv none .ERR_OK rng, lw⟩ = some s') :
    (∃ acts, s'.trace = s.trace ++ .shutdownSend :: acts) ∧
    ((s.pendingClient = [] ∧ s.writes = []) ↔
      is.countP Input.isWriteDone = buffersFor (is.countP Input.isData)) := by
  constructor
  · cases fires_of_step hfin with
    | recvError _ herr => exact absurd rfl herr
    | remoteFin hpcb => exact handleRemoteFin_shutdown hpcb hopen
  · have hbox := outbox_run h hopen
    obtain ⟨h1, h2⟩ := run_counts h
    have hr : s.receivedCount = is.countP Input.isData := h1.trans (Nat.zero_add _)
    have hw : s.wroteCount = is.countP Input.isWriteDone := h2.trans (Nat.zero_add _)
    have hcount := hbox.count
    rw [hr, hw] at hcount
    have hwrites := hbox.inFlight.1
    constructor
    · rintro ⟨hp, -⟩
      rwa [hp] at hcount
    · intro hdone
      have hp : s.pendingClient = [] := by
        rw [← List.length_eq_zero_iff]
        omega
      rw [hp] at hwrites
      exact ⟨hp, hwrites⟩

/-- The session is connected to its target and one byte has come back. -/
def demoReply : List Input :=
  demoOpening [ipTarget] ++
    [⟨.connected .ERR_OK 0, willing⟩, ⟨.recv (some [7]) .ERR_OK (some (zeroBlock SaltSize)), willing⟩]

/-- Both writes of that reply complete before the FIN. -/
theorem remoteFin_drained_demo :
    ∃ s s', Reaches demoPlatform demoCrypto
        (demoReply ++ [⟨.clientWrote true, willing⟩, ⟨.clientWrote true, willing⟩]) s ∧
      s.closing = false ∧ s.step demoPlatform ⟨.recv none .ERR_OK none, willing⟩ = some s' ∧
      (∃ acts, s'.trace = s.trace ++ .shutdownSend :: acts) ∧
      s.pendingClient = [] ∧ s.writes = [] := by
  have hrun : ∃ s s', Reaches demoPlatform demoCrypto
        (demoReply ++ [⟨.clientWrote true, willing⟩, ⟨.clientWrote true, willing⟩]) s ∧
      s.closing = false ∧ s.step demoPlatform ⟨.recv none .ERR_OK none, willing⟩ = some s' :=
    ⟨_, _, rfl, rfl, rfl⟩
  obtain ⟨s, s', h, hopen, hfin⟩ := hrun
  obtain ⟨hshut, hdrained⟩ := remoteFin_drained_iff h hopen hfin
  exact ⟨s, s', h, hopen, hfin, hshut, hdrained.mpr rfl⟩

/-- The FIN comes right after the data: the salt is being written, the chunk is queued behind
    it, and the socket is shut down. -/
theorem remoteFin_truncates :
    ∃ s s', Reaches demoPlatform demoCrypto demoReply s ∧ s.closing = false ∧
      s.step demoPlatform ⟨.recv none .ERR_OK none, willing⟩ = some s' ∧
      .shutdownSend ∈ s'.trace ∧ s.pendingClient.length = 2 ∧ s.writes.length = 1 :=
  ⟨_, _, rfl, rfl, rfl, by decide +kernel, rfl, rfl⟩

end TcpRelaySession

end Ovpn2ss.Tcp
