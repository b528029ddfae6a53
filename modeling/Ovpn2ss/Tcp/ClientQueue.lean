/-
  The queue to the client, in every state a session can reach.

  `Queued` is what the counter, the deque and the flag have to do with each other: the counter is
  the sum of the sizes, and the write in flight, if any, is that of the front buffer. It holds even
  in the middle of `on_recv`, where `enqueue_client_payload` may throw with the salt already
  pushed; a session that is open also has a write in flight whenever something is queued.

  What the queue holds is said without the queue: `response` encrypts the payloads of the data
  callbacks one after the other, behind a salt. The buffers written and those queued are the
  response to the callbacks so far (`client_queue`).
-/
import Ovpn2ss.Tcp.Downstream
import Ovpn2ss.Tcp.ReadLoop

namespace Ovpn2ss.Tcp

open Ovpn2ss.Aead Ovpn2ss.Lib Ovpn2ss.Lwip
open Ovpn2ss.Aead.ShadowsocksAeadSession (SameSend encryptTcpChunk_sameSend)

/-! ## The buffers of a trace -/

/-- The buffers whose write completed. -/
def delivered (trace : List Action) : List Bytes :=
  trace.filterMap fun | .wrote buf => some buf | _ => none

@[simp] theorem delivered_append (t u : List Action) :
    delivered (t ++ u) = delivered t ++ delivered u :=
  List.filterMap_append

theorem delivered_of_piece {acts : List Action} (h : ∀ a ∈ acts, a.piece ≠ .client) :
    delivered acts = [] := by
  rw [delivered, List.filterMap_eq_nil_iff]
  intro a ha
  have := h a ha
  cases a <;> first | rfl | exact absurd rfl this

/-- The payload and the random bytes of a data callback. -/
def Input.callback (i : Input) : List (Bytes × Option Salt) :=
  match i.event with
  | .recv (some bytes) .ERR_OK rng => [(bytes, rng)]
  | _ => []

theorem callback_of_not_data {i : Input} (h : i.isData = false) : i.callback = [] := by
  unfold Input.isData at h
  unfold Input.callback
  split
  · next he => simp [he] at h
  · rfl

/-! ## The response -/

/-- What the client is sent: a salt, once one could be drawn, and the chunks behind it. -/
structure Responder where
  cipher : ShadowsocksAeadSession
  salt : Option Bytes
  chunks : List Bytes

namespace Responder

variable (M : Mbedtls)

/-- The buffers of the response: nothing, or the salt and the chunks. -/
def buffers (r : Responder) : List Bytes :=
  match r.salt with
  | none => []
  | some salt => salt :: r.chunks

def drawSalt (r : Responder) (rng : Option Salt) : Responder :=
  if r.salt.isSome then r
  else
    match r.cipher.clientSalt M rng with
    | (.error _, c) => { r with cipher := c }
    | (.ok salt, c) => { r with cipher := c, salt := some salt }

/-- A payload that `encrypt_tcp_chunk` accepts becomes the next chunk. -/
def encrypt (r : Responder) (payload : Bytes) : Responder :=
  match r.cipher.encryptTcpChunk M payload with
  | (.error _, c) => { r with cipher := c }
  | (.ok chunk, c) => { r with cipher := c, chunks := r.chunks ++ [chunk] }

def answer (r : Responder) (d : Bytes × Option Salt) : Responder :=
  let r := r.drawSalt M d.2
  if r.salt.isSome then r.encrypt M d.1 else r

end Responder

/-- The response to a list of data callbacks. -/
def respond (M : Mbedtls) (crypto : ShadowsocksAeadSession) (ds : List (Bytes × Option Salt)) :
    Responder :=
  ds.foldl (Responder.answer M) ⟨crypto, none, []⟩

namespace TcpRelaySession

variable {P : Platform} {lw : Answers} {s s' : TcpRelaySession} {bytes buf : Bytes}

/-! ## Counter, queue and flag -/

structure Queued (s : TcpRelaySession) : Prop where
  count : s.clientQueueBytes = s.pendingClient.flatten.length
  writes : s.writes = if s.writingClient then s.pendingClient.take 1 else []
  front : s.writingClient = true → s.pendingClient ≠ []

theorem Queued.of_view (h : s.Queued) (hv : s'.downstreamView = s.downstreamView) : s'.Queued := by
  have hp : s'.pendingClient = s.pendingClient := congrArg DownstreamView.pendingClient hv
  have hq : s'.clientQueueBytes = s.clientQueueBytes := congrArg DownstreamView.clientQueueBytes hv
  have hw : s'.writingClient = s.writingClient := congrArg DownstreamView.writingClient hv
  have hws : s'.writes = s.writes := congrArg DownstreamView.writes hv
  refine ⟨?_, ?_, ?_⟩
  · rw [hq, hp]
    exact h.count
  · rw [hws, hw, hp]
    exact h.writes
  · rw [hw, hp]
    exact h.front

theorem Queued.pushClient (h : s.Queued) (buf : Bytes) : (s.pushClient buf).Queued := by
  refine ⟨?_, ?_, fun _ => ?_⟩
  · simp only [TcpRelaySession.pushClient, List.flatten_append, List.flatten_singleton,
      List.length_append, h.count]
  · show s.writes = if s.writingClient then (s.pendingClient ++ [buf]).take 1 else []
    rw [h.writes]
    split
    · next hw =>
      obtain ⟨front, rest, hp⟩ := List.exists_cons_of_ne_nil (h.front hw)
      simp [hp]
    · rfl
  · simp [TcpRelaySession.pushClient]

/-- Flushing puts the front buffer in flight. -/
theorem Queued.flushToClient (h : s.Queued) :
    s.flushToClient.Queued ∧ (s.pendingClient ≠ [] → s.flushToClient.writingClient = true) := by
  unfold TcpRelaySession.flushToClient
  split
  · next hp => exact ⟨h, fun hne => absurd hp hne⟩
  · next front rest hp =>
    split
    · next hw => exact ⟨h, fun _ => hw⟩
    · next hw =>
      refine ⟨⟨h.count, ?_, fun _ => ?_⟩, fun _ => rfl⟩
      · have hidle : s.writes = [] := h.writes.trans (if_neg hw)
        simp [log, hidle, hp]
      · simp [log, hp]

/-- The buffer in flight is the front one, no other is, and the counter covers it. -/
theorem Queued.inFlight (h : s.Queued) {writes : List Bytes} (hw : s.writes = buf :: writes) :
    writes = [] ∧ s.pendingClient = buf :: s.pendingClient.tail ∧
    s.clientQueueBytes = buf.length + s.pendingClient.tail.flatten.length := by
  have hwrites := h.writes
  rw [hw] at hwrites
  split at hwrites
  · obtain ⟨front, rest, hp⟩ := List.exists_cons_of_ne_nil (h.front ‹_›)
    rw [hp] at hwrites
    obtain ⟨rfl, rfl⟩ := List.cons.inj hwrites
    have hcount := h.count
    rw [hp, List.flatten_cons, List.length_append] at hcount
    rw [hp]
    exact ⟨rfl, rfl, hcount⟩
  · cases hwrites

/-- The subtraction of a completed write does not wrap. -/
theorem Queued.popClient (h : s.Queued) {writes : List Bytes} (hw : s.writes = buf :: writes) :
    ({ s with writes := writes, writingClient := false }.popClient buf).Queued := by
  obtain ⟨hnil, -, hcount⟩ := h.inFlight hw
  refine ⟨?_, hnil, fun hw => by cases hw⟩
  show sizeSub s.clientQueueBytes buf.length = s.pendingClient.tail.flatten.length
  rw [sizeSub, if_pos (by omega)]
  omega

theorem Queued.creditDeferred (h : s.Queued) : s.creditDeferred.Queued := by
  unfold TcpRelaySession.creditDeferred
  split
  · exact ⟨h.count, h.writes, h.front⟩
  · exact h

theorem Queued.close (h : s.Queued) : (s.close lw).Queued :=
  h.of_view ((close_frame lw s).pieces .client (by decide))

/-! ## The content of the queue -/

/-- The buffers written and those queued are the response `r`. -/
structure Responded (r : Responder) (s : TcpRelaySession) : Prop where
  salted : s.sentResponseSalt = r.salt.isSome
  cipher : SameSend r.cipher s.crypto
  content : delivered s.trace ++ s.pendingClient = r.buffers
  bare : r.salt = none → r.chunks = []
  size : ∀ salt, r.salt = some salt → salt.length = SaltSize

variable {r : Responder}

theorem Responded.of_same (h : Responded r s) (hs : s'.sentResponseSalt = s.sentResponseSalt)
    (hc : SameSend s.crypto s'.crypto) (hp : s'.pendingClient = s.pendingClient)
    (ht : delivered s'.trace = delivered s.trace) : Responded r s' :=
  ⟨hs.trans h.salted, h.cipher.trans hc, by rw [ht, hp, h.content], h.bare, h.size⟩

theorem Responded.upstream (h : Responded r s) (hu : Upstream s s')
    (hm : s'.crypto.masterKey = s.crypto.masterKey) : Responded r s' := by
  obtain ⟨acts, ht, ha⟩ := hu.trace
  have hsend : SameSend s.crypto s'.crypto :=
    ⟨hm, congrArg DownstreamView.sendKey hu.view, congrArg DownstreamView.sendNonce hu.view,
      congrArg DownstreamView.sentSalt hu.view⟩
  refine h.of_same (congrArg DownstreamView.sentResponseSalt hu.view) hsend
    (congrArg DownstreamView.pendingClient hu.view) ?_
  rw [ht, delivered_append, delivered_of_piece ha, List.append_nil]

theorem Responded.close (h : Responded r s) : Responded r (s.close lw) :=
  h.upstream ((close_frame lw s).upstream (by decide)) (congrArg (·.masterKey) (close_crypto lw s))

/-- The salt is queued exactly if the responder draws it. -/
theorem Responded.queueSalt (h : Responded r s) (hq : s.Queued) (rng : Option Salt) :
    Responded (r.drawSalt P.mbedtls rng) (s.queueSalt P rng).2 ∧ (s.queueSalt P rng).2.Queued ∧
    ((s.queueSalt P rng).1 = .ok () ↔ (r.drawSalt P.mbedtls rng).salt.isSome = true) := by
  have hsame := ShadowsocksAeadSession.clientSalt_sameSend (M := P.mbedtls) h.cipher rng
  unfold Responder.drawSalt
  rcases queueSalt_cases P s rng with ⟨hs, he⟩ | ⟨hs, ⟨e, hc⟩, e', he⟩ | ⟨salt, c, hs, hc, -, he⟩ <;>
    rw [he] <;> rw [h.salted] at hs
  · rw [if_pos hs]
    exact ⟨h, hq, by simp [hs]⟩
  · rw [if_neg (Bool.eq_false_iff.mp hs)]
    rw [hc] at hsame
    rcases hr : r.cipher.clientSalt P.mbedtls rng with ⟨e'' | salt, c⟩ <;> rw [hr] at hsame
    · exact ⟨⟨h.salted, hsame.2, h.content, h.bare, h.size⟩, hq, by simp [hs]⟩
    · cases hsame.1
  · rw [if_neg (Bool.eq_false_iff.mp hs)]
    rw [hc] at hsame
    rcases hr : r.cipher.clientSalt P.mbedtls rng with ⟨e | salt', c'⟩ <;> rw [hr] at hsame
    · cases hsame.1
    · obtain rfl := Except.ok.inj hsame.1
      have hnone : r.salt = none := by simpa using hs
      have hcontent := h.content
      rw [Responder.buffers, hnone] at hcontent
      refine ⟨⟨rfl, hsame.2, ?_, fun hn => (by cases hn), fun b hb => ?_⟩, ?_, by simp⟩
      · show delivered s.trace ++ (s.pendingClient ++ [salt.val]) = salt.val :: r.chunks
        rw [← List.append_assoc, hcontent, h.bare hnone]
        rfl
      · cases hb
        exact salt.property
      · have hpush := hq.pushClient salt.val
        exact ⟨hpush.count, hpush.writes, hpush.front⟩

theorem Responded.flushToClient (h : Responded r s) : Responded r s.flushToClient := by
  unfold TcpRelaySession.flushToClient
  split
  · exact h
  · split
    · exact h
    · exact h.of_same rfl ⟨rfl, rfl, rfl, rfl⟩ rfl (by simp [log, delivered])

theorem Responded.creditDeferred (h : Responded r s) : Responded r s.creditDeferred := by
  unfold TcpRelaySession.creditDeferred
  split
  · refine h.of_same rfl ⟨rfl, rfl, rfl, rfl⟩ rfl ?_
    simp [delivered, List.filterMap_map]
  · exact h

/-- A payload is answered as the responder answers it, whether the call throws or not; if it does
    not, a write is in flight. -/
theorem Responded.enqueueClientPayload (h : Responded r s) (hq : s.Queued) (hne : bytes ≠ [])
    (rng : Option Salt) :
    Responded (r.answer P.mbedtls (bytes, rng)) (s.enqueueClientPayload P rng bytes).2 ∧
    (s.enqueueClientPayload P rng bytes).2.Queued ∧
    ((s.enqueueClientPayload P rng bytes).1 = .ok () →
      (s.enqueueClientPayload P rng bytes).2.writingClient = true) := by
  have hemp : ¬ bytes.isEmpty = true := by simpa using hne
  obtain ⟨hr, ht, hiff⟩ := h.queueSalt (P := P) hq rng
  unfold TcpRelaySession.enqueueClientPayload Responder.answer
  rw [if_neg hemp]
  dsimp only
  generalize r.drawSalt P.mbedtls rng = r at hr hiff ⊢
  generalize s.queueSalt P rng = q at hr ht hiff ⊢
  rcases q with ⟨e | _, t⟩
  · rw [if_neg fun hsome => by cases hiff.mpr hsome]
    exact ⟨hr, ht, nofun⟩
  · have hsome : r.salt.isSome = true := hiff.mp rfl
    have hsame := encryptTcpChunk_sameSend (M := P.mbedtls) hr.cipher bytes
    rw [if_pos hsome]
    unfold Responder.encrypt
    dsimp only at hr ht hsame ⊢
    rcases he : t.crypto.encryptTcpChunk P.mbedtls bytes with ⟨e | chunk, c⟩ <;> rw [he] at hsame <;>
      rcases her : r.cipher.encryptTcpChunk P.mbedtls bytes with ⟨e' | chunk', c'⟩ <;> rw [her] at hsame
    · exact ⟨⟨hr.salted, hsame.2, hr.content, hr.bare, hr.size⟩, ⟨ht.count, ht.writes, ht.front⟩, nofun⟩
    · cases hsame.1
    · cases hsame.1
    · obtain rfl := Except.ok.inj hsame.1
      obtain ⟨salt, hsalt⟩ := Option.isSome_iff_exists.mp hsome
      have hpush := ht.pushClient chunk
      have hq' : ({ t with crypto := c }.pushClient chunk).Queued :=
        ⟨hpush.count, hpush.writes, hpush.front⟩
      have hr' : Responded { r with cipher := c', chunks := r.chunks ++ [chunk] }
          ({ t with crypto := c }.pushClient chunk) := by
        refine ⟨hr.salted, hsame.2, ?_, fun hn => ?_, hr.size⟩
        · have hcontent := hr.content
          rw [Responder.buffers, hsalt] at hcontent
          show delivered t.trace ++ (t.pendingClient ++ [chunk]) = _
          rw [← List.append_assoc, hcontent, Responder.buffers, hsalt]
          rfl
        · rw [hsalt] at hn
          cases hn
      obtain ⟨hflush, hbusy⟩ := hq'.flushToClient
      exact ⟨hr'.flushToClient, hflush, fun _ => hbusy (by simp [TcpRelaySession.pushClient])⟩

/-! ## Runs -/

/-- The queue of a session that has answered the callbacks `ds`. -/
structure ClientQueue (P : Platform) (crypto : ShadowsocksAeadSession)
    (ds : List (Bytes × Option Salt)) (s : TcpRelaySession) : Prop where
  queued : s.Queued
  busy : s.closing = false → s.pendingClient ≠ [] → s.writingClient = true
  responded : Responded (respond P.mbedtls crypto ds) s

variable {crypto : ShadowsocksAeadSession} {ds : List (Bytes × Option Salt)}

theorem ClientQueue.upstream (h : ClientQueue P crypto ds s) (hu : Upstream s s')
    (hm : s'.crypto.masterKey = s.crypto.masterKey) (hopen : s'.closing = false → s.closing = false) :
    ClientQueue P crypto ds s' := by
  have hp : s'.pendingClient = s.pendingClient := congrArg DownstreamView.pendingClient hu.view
  have hw : s'.writingClient = s.writingClient := congrArg DownstreamView.writingClient hu.view
  refine ⟨h.queued.of_view hu.view, fun hc => ?_, h.responded.upstream hu hm⟩
  rw [hp, hw]
  exact h.busy (hopen hc)

theorem ClientQueue.onRecv (h : ClientQueue P crypto ds s) (hne : bytes ≠ []) (rng : Option Salt) :
    ClientQueue P crypto (ds ++ [(bytes, rng)]) (s.onRecv P lw (some bytes) .ERR_OK rng) := by
  have hlog : Responded (respond P.mbedtls crypto ds) (s.log (.received bytes)) :=
    h.responded.of_same rfl ⟨rfl, rfl, rfl, rfl⟩ rfl (by simp [log, delivered])
  have hqlog : (s.log (.received bytes)).Queued :=
    ⟨h.queued.count, h.queued.writes, h.queued.front⟩
  obtain ⟨hr, hq, hbusy⟩ := hlog.enqueueClientPayload (P := P) hqlog hne rng
  have hsnoc : respond P.mbedtls crypto (ds ++ [(bytes, rng)]) =
      (respond P.mbedtls crypto ds).answer P.mbedtls (bytes, rng) := by
    rw [respond, List.foldl_append]
    rfl
  rw [← hsnoc] at hr
  rcases onRecv_cases P lw s bytes rng with ⟨e, t, h', he⟩ | ⟨t, h', hcredit⟩ <;>
    rw [h'] at hr hq hbusy
  · rw [he]
    refine ⟨hq.close, fun hc => ?_, hr.close⟩
    rw [close_closing] at hc
    cases hc
  · rcases hcredit with ⟨-, he⟩ | ⟨-, he⟩ <;> rw [he]
    · exact ⟨⟨hq.count, hq.writes, hq.front⟩, fun _ _ => hbusy rfl,
        hr.of_same rfl ⟨rfl, rfl, rfl, rfl⟩ rfl rfl⟩
    · exact ⟨⟨hq.count, hq.writes, hq.front⟩, fun _ _ => hbusy rfl,
        hr.of_same rfl ⟨rfl, rfl, rfl, rfl⟩ rfl (by simp [log, delivered])⟩

/-- A write that completes moves its buffer from the queue to those delivered; one that fails
    closes the session and leaves the queue. -/
theorem ClientQueue.onClientWrote (h : ClientQueue P crypto ds s) {writes : List Bytes}
    (hw : s.writes = buf :: writes) (ok : Bool) :
    ClientQueue P crypto ds ({ s with writes := writes }.onClientWrote lw buf ok) := by
  obtain ⟨hnil, hp, -⟩ := h.queued.inFlight hw
  have hpop := h.queued.popClient hw
  cases ok with
  | false =>
    rw [onClientWrote_failed]
    have hidle : Queued { s with writes := writes, writingClient := false } :=
      ⟨h.queued.count, hnil, fun hw => by cases hw⟩
    have hr : Responded (respond P.mbedtls crypto ds)
        { s with writes := writes, writingClient := false } :=
      h.responded.of_same rfl ⟨rfl, rfl, rfl, rfl⟩ rfl rfl
    refine ⟨hidle.close, fun hc => ?_, hr.close⟩
    rw [close_closing] at hc
    cases hc
  | true =>
    rw [onClientWrote_ok]
    have hcontent := h.responded.content
    rw [hp] at hcontent
    have hr : Responded (respond P.mbedtls crypto ds)
        ({ s with writes := writes, writingClient := false }.popClient buf) := by
      refine ⟨h.responded.salted, h.responded.cipher, ?_, h.responded.bare, h.responded.size⟩
      rw [← hcontent]
      simp [popClient, log, delivered]
    obtain ⟨hflush, hbusy⟩ := hpop.creditDeferred.flushToClient
    refine ⟨hflush, fun _ hne => hbusy ?_, hr.creditDeferred.flushToClient⟩
    rwa [flushToClient_pendingClient] at hne

theorem clientQueue_step {i : Input} (h : ClientQueue P crypto ds s) (hs : s.step P i = some s') :
    ClientQueue P crypto (ds ++ i.callback) s' := by
  have hm := step_masterKey hs
  have hopen := open_of_step hs
  rcases fires_direction (fires_of_step hs) with
    ⟨hd, -, hu⟩ | ⟨-, bytes, rng, he, h0, rfl⟩ | ⟨buf, writes, ok, hw, he, rfl⟩
  · rw [callback_of_not_data hd, List.append_nil]
    exact h.upstream hu hm hopen
  · rw [Input.callback, he]
    exact h.onRecv (List.ne_nil_of_length_pos h0) rng
  · rw [Input.callback, he, List.append_nil]
    exact h.onClientWrote hw ok

theorem clientQueue_run {is : List Input} (h : Reaches P crypto is s) :
    ClientQueue P crypto (is.flatMap Input.callback) s := by
  rw [← collect_events h]
  refine run_collect_inv _ (ClientQueue P crypto) (fun _ _ _ _ h hs => clientQueue_step h hs) ?_ h
  refine ⟨⟨rfl, rfl, fun hw => (by cases hw)⟩, fun _ hne => absurd rfl hne, ?_⟩
  exact ⟨rfl, ⟨rfl, rfl, rfl, rfl⟩, rfl, fun _ => rfl, fun _ hs => by cases hs⟩

/-- The queue to the client, in every state a session can reach. The counter is the sum of the sizes
    of the queued buffers. At most one write is in flight; it is that of the front buffer, and
    the counter covers it. In an open session a write is in flight whenever something is queued.
    The buffers delivered and those queued are nothing at all, or a salt of 32 bytes and the
    encryption, in order, of each payload that `encrypt_tcp_chunk` accepted. -/
theorem client_queue {is : List Input} (h : Reaches P crypto is s) :
    s.clientQueueBytes = (s.pendingClient.map List.length).sum ∧
    (s.writes = [] ∨ ∃ front rest, s.pendingClient = front :: rest ∧ s.writes = [front] ∧
      front.length ≤ s.clientQueueBytes) ∧
    (s.closing = false → s.pendingClient ≠ [] → s.writes ≠ []) ∧
    let r := respond P.mbedtls crypto (is.flatMap Input.callback)
    (r.salt = none ∧ delivered s.trace ++ s.pendingClient = []) ∨
      ∃ salt, r.salt = some salt ∧ salt.length = 32 ∧
        delivered s.trace ++ s.pendingClient = salt :: r.chunks := by
  obtain ⟨hq, hbusy, hr⟩ := clientQueue_run h
  refine ⟨by rw [hq.count, List.length_flatten], ?_, fun hc hne => ?_, ?_⟩
  · cases hw : s.writes with
    | nil => exact Or.inl rfl
    | cons buf writes =>
      obtain ⟨rfl, hp, hcount⟩ := hq.inFlight hw
      exact Or.inr ⟨buf, _, hp, rfl, by omega⟩
  · obtain ⟨front, rest, hp⟩ := List.exists_cons_of_ne_nil hne
    rw [hq.writes, if_pos (hbusy hc hne), hp]
    exact List.cons_ne_nil _ _
  · have hcontent := hr.content
    dsimp only
    cases hsalt : (respond P.mbedtls crypto (is.flatMap Input.callback)).salt with
    | none =>
      rw [Responder.buffers, hsalt] at hcontent
      exact Or.inl ⟨rfl, hcontent⟩
    | some salt =>
      rw [Responder.buffers, hsalt] at hcontent
      exact Or.inr ⟨salt, rfl, hr.size salt hsalt, hcontent⟩

/-- One byte comes back: the salt is being written and the chunk is queued behind it. -/
theorem client_queue_demo :
    ∃ s, Reaches demoPlatform demoCrypto demoReply s ∧ s.closing = false ∧ s.pendingClient ≠ [] ∧
      s.clientQueueBytes = (s.pendingClient.map List.length).sum ∧ s.writes ≠ [] := by
  have hrun : ∃ s, Reaches demoPlatform demoCrypto demoReply s ∧ s.closing = false ∧
      s.pendingClient ≠ [] := ⟨_, rfl, rfl, List.cons_ne_nil _ _⟩
  obtain ⟨s, h, hopen, hne⟩ := hrun
  obtain ⟨hcount, -, hbusy, -⟩ := client_queue h
  exact ⟨s, h, hopen, hne, hcount, hbusy hopen hne⟩

end TcpRelaySession

end Ovpn2ss.Tcp
