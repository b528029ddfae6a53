/-
  The receive window: what `on_recv` takes from lwIP is credited back with `tcp_recved`, at once or
  when the queue to the client has drained.

  `Credit` balances the bytes received against those credited and those withheld. A window is
  withheld above the high water mark and released below the low one, and the release asks for a
  pcb; so the no-stall half (`held`) is about sessions with a pcb, and needs that a session whose
  remote end has sent its FIN never gets another one (`lost`). `window_credit` is the result for
  every run, with the writes that release what is withheld.
-/
import Ovpn2ss.Tcp.ClientQueue
import Ovpn2ss.Tcp.HalfClose

namespace Ovpn2ss.Tcp

open Ovpn2ss.Aead Ovpn2ss.Lib Ovpn2ss.Lwip

/-! ## Sums over a trace -/

/-- The bytes received from lwIP. -/
def receivedBytes (trace : List Action) : Nat :=
  (trace.map fun | .received payload => payload.length | _ => 0).sum

/-- The bytes credited back with `tcp_recved`. -/
def credited (trace : List Action) : Nat :=
  (trace.map fun | .tcpRecved len => len | _ => 0).sum

@[simp] theorem receivedBytes_append (t u : List Action) :
    receivedBytes (t ++ u) = receivedBytes t + receivedBytes u := by
  simp [receivedBytes]

@[simp] theorem credited_append (t u : List Action) : credited (t ++ u) = credited t + credited u := by
  simp [credited]

theorem receivedBytes_map_tcpRecved (ns : List Nat) : receivedBytes (ns.map .tcpRecved) = 0 := by
  simp [receivedBytes, Function.comp_def]

theorem credited_map_tcpRecved (ns : List Nat) : credited (ns.map .tcpRecved) = ns.sum := by
  simp [credited, Function.comp_def]

namespace TcpRelaySession

variable {P : Platform} {lw : Answers} {s s' : TcpRelaySession} {bytes buf : Bytes}

/-! ## Releasing -/

/-- The loop credits all that was withheld, in steps that fit the argument of `tcp_recved`. -/
theorem creditLoop_spec (fuel deferred : Nat) (h : deferred ≤ fuel) :
    (creditLoop fuel deferred).1.sum = deferred ∧ (creditLoop fuel deferred).2 = 0 ∧
    ∀ n ∈ (creditLoop fuel deferred).1, n ≤ 0xffff := by
  induction fuel generalizing deferred with
  | zero =>
    obtain rfl := Nat.le_zero.mp h
    exact ⟨rfl, rfl, fun n hn => by cases hn⟩
  | succ fuel ih =>
    rw [creditLoop]
    split
    · have hpos : 0 < min deferred 0xffff := by omega
      obtain ⟨h1, h2, h3⟩ := ih (deferred - min deferred 0xffff) (by omega)
      refine ⟨?_, h2, fun n hn => ?_⟩
      · dsimp only
        rw [List.sum_cons, h1]
        omega
      · rcases List.mem_cons.mp hn with rfl | hn
        · exact Nat.min_le_right _ _
        · exact h3 n hn
    · next hz => exact ⟨(not_not.mp hz).symm, not_not.mp hz, fun n hn => by cases hn⟩

/-- Below the low water mark everything is released; otherwise nothing is. -/
theorem creditDeferred_cases (s : TcpRelaySession) :
    (s.pcb.isSome ∧ s.clientQueueBytes < ClientQueueLowWater ∧ ∃ ns : List Nat,
      ns.sum = s.deferredTcpRecved ∧ (∀ n ∈ ns, n ≤ 0xffff) ∧
      s.creditDeferred = { s with deferredTcpRecved := 0, trace := s.trace ++ ns.map .tcpRecved }) ∨
    ((s.pcb ≠ none → s.deferredTcpRecved ≠ 0 → ClientQueueLowWater ≤ s.clientQueueBytes) ∧
      s.creditDeferred = s) := by
  unfold creditDeferred
  split
  · next h =>
    obtain ⟨hsum, hzero, hfits⟩ := creditLoop_spec s.deferredTcpRecved s.deferredTcpRecved le_rfl
    refine Or.inl ⟨h.1, h.2.1, _, hsum, hfits, ?_⟩
    dsimp only
    rw [hzero]
  · next h =>
    refine Or.inr ⟨fun hp hd => ?_, rfl⟩
    by_contra hlow
    exact h ⟨Option.isSome_iff_ne_none.mpr hp, by omega, hd⟩

/-! ## Enqueueing credits nothing -/

/-- The window was left alone, the queue has not shrunk, and nothing was done but start writes. -/
structure Withheld (s s' : TcpRelaySession) : Prop where
  deferred : s'.deferredTcpRecved = s.deferredTcpRecved
  queue : s.clientQueueBytes ≤ s'.clientQueueBytes
  trace : ∃ bufs : List Bytes, s'.trace = s.trace ++ bufs.map .asyncWrite

theorem Withheld.of_same (hd : s'.deferredTcpRecved = s.deferredTcpRecved)
    (hq : s.clientQueueBytes ≤ s'.clientQueueBytes) (ht : s'.trace = s.trace) : Withheld s s' :=
  ⟨hd, hq, [], ht.trans (List.append_nil _).symm⟩

theorem Withheld.trans {s'' : TcpRelaySession} (h : Withheld s s') (h' : Withheld s' s'') :
    Withheld s s'' := by
  obtain ⟨bufs, ht⟩ := h.trace
  obtain ⟨bufs', ht'⟩ := h'.trace
  refine ⟨h'.deferred.trans h.deferred, h.queue.trans h'.queue, bufs ++ bufs', ?_⟩
  rw [ht', ht, List.map_append, List.append_assoc]

theorem flushToClient_withheld (s : TcpRelaySession) : Withheld s s.flushToClient := by
  unfold flushToClient
  split
  · exact .of_same rfl le_rfl rfl
  · split
    · exact .of_same rfl le_rfl rfl
    · exact ⟨rfl, le_rfl, [_], rfl⟩

theorem queueSalt_withheld (P : Platform) (s : TcpRelaySession) (rng : Option Salt) :
    Withheld s (s.queueSalt P rng).2 := by
  rcases queueSalt_cases P s rng with ⟨-, h⟩ | ⟨-, -, e, h⟩ | ⟨salt, c, -, -, -, h⟩ <;> rw [h]
  · exact .of_same rfl le_rfl rfl
  · exact .of_same rfl le_rfl rfl
  · exact .of_same rfl (Nat.le_add_right _ _) rfl

theorem enqueueClientPayload_withheld (P : Platform) (s : TcpRelaySession) (rng : Option Salt)
    (bytes : Bytes) : Withheld s (s.enqueueClientPayload P rng bytes).2 := by
  have hsalt := queueSalt_withheld P s rng
  unfold enqueueClientPayload
  split
  · exact .of_same rfl le_rfl rfl
  · generalize s.queueSalt P rng = q at hsalt ⊢
    rcases q with ⟨e | _, t⟩
    · exact hsalt
    · dsimp only
      rcases t.crypto.encryptTcpChunk P.mbedtls bytes with ⟨e | encrypted, c⟩
      · exact hsalt.trans (.of_same rfl le_rfl rfl)
      · refine Withheld.trans ?_ (flushToClient_withheld _)
        exact hsalt.trans (.of_same rfl (Nat.le_add_right _ _) rfl)

/-! ## The balance -/

/-- The trace balances what was received with what was credited, in 16-bit steps, and `deferred`. -/
structure Balanced (trace : List Action) (deferred : Nat) : Prop where
  sum : receivedBytes trace = credited trace + deferred
  fits : ∀ n, .tcpRecved n ∈ trace → n ≤ 0xffff

theorem Balanced.append {trace acts : List Action} {deferred : Nat} (h : Balanced trace deferred)
    (ha : ∀ a ∈ acts, (∀ p, a ≠ .received p) ∧ ∀ n, a ≠ .tcpRecved n) :
    Balanced (trace ++ acts) deferred := by
  have hr : receivedBytes acts = 0 := by
    refine List.sum_eq_zero fun n hn => ?_
    obtain ⟨a, hmem, rfl⟩ := List.mem_map.mp hn
    have := (ha a hmem).1
    cases a <;> first | rfl | exact absurd rfl (this _)
  have hc : credited acts = 0 := by
    refine List.sum_eq_zero fun n hn => ?_
    obtain ⟨a, hmem, rfl⟩ := List.mem_map.mp hn
    have := (ha a hmem).2
    cases a <;> first | rfl | exact absurd rfl (this _)
  refine ⟨?_, fun n hn => ?_⟩
  · rw [receivedBytes_append, credited_append, hr, hc]
    exact h.sum
  · rcases List.mem_append.mp hn with hn | hn
    · exact h.fits n hn
    · exact absurd rfl ((ha _ hn).2 n)

/-- A payload is received and withheld. -/
theorem Balanced.received {trace : List Action} {deferred : Nat} (h : Balanced trace deferred)
    (bytes : Bytes) : Balanced (trace ++ [.received bytes]) (deferred + bytes.length) := by
  refine ⟨?_, fun n hn => ?_⟩
  · rw [receivedBytes_append, credited_append, h.sum]
    simp [receivedBytes, credited]
    omega
  · rcases List.mem_append.mp hn with hn | hn
    · exact h.fits n hn
    · simp at hn

/-- What was withheld is credited. -/
theorem Balanced.credited {trace : List Action} {deferred : Nat} {ns : List Nat}
    (h : Balanced trace (deferred + ns.sum)) (hns : ∀ n ∈ ns, n ≤ 0xffff) :
    Balanced (trace ++ ns.map .tcpRecved) deferred := by
  refine ⟨?_, fun n hn => ?_⟩
  · rw [receivedBytes_append, credited_append, h.sum, receivedBytes_map_tcpRecved,
      credited_map_tcpRecved]
    omega
  · rcases List.mem_append.mp hn with hn | hn
    · exact h.fits n hn
    · obtain ⟨m, hm, heq⟩ := List.mem_map.mp hn
      cases heq
      exact hns n hm

/-- The window of an open session. -/
structure Credit (s : TcpRelaySession) : Prop where
  balance : Balanced s.trace s.deferredTcpRecved
  held : s.pcb ≠ none → s.deferredTcpRecved ≠ 0 → ClientQueueLowWater ≤ s.clientQueueBytes
  lost : s.pcb = none → s.deferredTcpRecved ≠ 0 → Gone s

/-- Upstream work does not touch the window; a pcb it makes is the first. -/
theorem Credit.upstream (h : Credit s) (hu : Upstream s s')
    (hgone : Gone s → Gone s') (hlost : s'.pcb = none → s.pcb = none ∨ Gone s') : Credit s' := by
  obtain ⟨acts, ht, ha⟩ := hu.trace
  have hd : s'.deferredTcpRecved = s.deferredTcpRecved :=
    congrArg DownstreamView.deferredTcpRecved hu.view
  have hq : s'.clientQueueBytes = s.clientQueueBytes :=
    congrArg DownstreamView.clientQueueBytes hu.view
  refine ⟨?_, fun hp hne => ?_, fun hp hne => ?_⟩
  · rw [ht, hd]
    refine h.balance.append fun a hmem => ⟨fun p heq => ?_, fun n heq => ?_⟩ <;>
      exact ha a hmem (by rw [heq]; rfl)
  · rw [hd] at hne
    rw [hq]
    refine h.held (fun hnone => ?_) hne
    exact hp (hgone (h.lost hnone hne)).noPcb
  · rw [hd] at hne
    rcases hlost hp with hnone | hg
    · exact hgone (h.lost hnone hne)
    · exact hg

/-- What `on_recv` takes is credited, or withheld above the high water mark. -/
theorem Credit.onRecv (h : Credit s) (hp : s.pcb ≠ none) (hn : bytes.length ≤ 0xffff)
    {rng : Option Salt} (hopen : (s.onRecv P lw (some bytes) .ERR_OK rng).closing = false) :
    Credit (s.onRecv P lw (some bytes) .ERR_OK rng) := by
  have hpcb : (s.onRecv P lw (some bytes) .ERR_OK rng).pcb ≠ none := by
    rcases (onRecv_downstream P lw s bytes rng).closing_or_same with ⟨-, hpcb, -⟩ | ⟨hc, -⟩
    · rwa [hpcb]
    · rw [hc] at hopen
      cases hopen
  have hw := enqueueClientPayload_withheld P (s.log (.received bytes)) rng bytes
  have hrecv := h.balance.received bytes
  rcases onRecv_cases P lw s bytes rng with ⟨e, t, -, he⟩ | ⟨t, h', hcredit⟩
  · rw [he, close_closing] at hopen
    cases hopen
  · rw [h'] at hw
    obtain ⟨bufs, ht⟩ := hw.trace
    have hd : t.deferredTcpRecved = s.deferredTcpRecved := hw.deferred
    have hbal : Balanced t.trace (s.deferredTcpRecved + bytes.length) := by
      have ht' : t.trace = s.trace ++ [.received bytes] ++ bufs.map .asyncWrite := ht
      rw [ht']
      refine hrecv.append fun a ha => ?_
      obtain ⟨buf, -, rfl⟩ := List.mem_map.mp ha
      exact ⟨nofun, nofun⟩
    rcases hcredit with ⟨hhigh, he⟩ | ⟨-, he⟩ <;> rw [he] at hpcb ⊢
    · refine ⟨?_, fun _ _ => ?_, fun hnone => absurd hnone hpcb⟩
      · show Balanced t.trace (t.deferredTcpRecved + bytes.length)
        rwa [hd]
      · -- above the high water mark is above the low one
        have hmarks : ClientQueueLowWater ≤ ClientQueueHighWater := by decide
        exact hmarks.trans hhigh.le
    · refine ⟨?_, fun _ hne => ?_, fun hnone => absurd hnone hpcb⟩
      · show Balanced (t.trace ++ [bytes.length].map .tcpRecved) t.deferredTcpRecved
        rw [hd]
        refine Balanced.credited (by simpa using hbal) fun n hmem => ?_
        rw [List.mem_singleton.mp hmem]
        exact hn
      · exact (h.held hp (hd ▸ hne)).trans hw.queue

theorem Credit.flushToClient (h : Credit s) : Credit s.flushToClient := by
  have hlost (t : TcpRelaySession) (hg : t.gotTarget = s.gotTarget) (hp : t.pcb = s.pcb)
      (hr : t.resolving = s.resolving) (hd : t.deferredTcpRecved = s.deferredTcpRecved) :
      t.pcb = none → t.deferredTcpRecved ≠ 0 → Gone t := by
    intro hnone hne
    obtain ⟨h1, h2, h3⟩ := h.lost (hp.symm.trans hnone) (hd ▸ hne)
    exact ⟨hg.trans h1, hp.trans h2, hr.trans h3⟩
  unfold TcpRelaySession.flushToClient
  split
  · exact h
  · split
    · exact h
    · exact ⟨h.balance.append (by simp), h.held, hlost _ rfl rfl rfl rfl⟩

/-- A completed write releases the window once the queue is below the low water mark. -/
theorem Credit.onClientWrote (h : Credit s) {writes : List Bytes} {ok : Bool}
    (hopen : ({ s with writes := writes }.onClientWrote lw buf ok).closing = false) :
    Credit ({ s with writes := writes }.onClientWrote lw buf ok) := by
  cases ok with
  | false =>
    rw [onClientWrote_failed, close_closing] at hopen
    cases hopen
  | true =>
    rw [onClientWrote_ok]
    refine Credit.flushToClient ?_
    have hbal : Balanced (s.trace ++ [.wrote buf]) s.deferredTcpRecved :=
      h.balance.append (by simp)
    have hlost : s.pcb = none → s.deferredTcpRecved ≠ 0 →
        Gone ({ s with writes := writes, writingClient := false }.popClient buf) := by
      intro hp hne
      obtain ⟨h1, h2, h3⟩ := h.lost hp hne
      exact ⟨h1, h2, h3⟩
    rcases creditDeferred_cases ({ s with writes := writes, writingClient := false }.popClient buf) with
      ⟨-, -, ns, hsum, hfits, he⟩ | ⟨hheld, he⟩ <;> rw [he]
    · refine ⟨?_, fun _ hne => absurd rfl hne, fun _ hne => absurd rfl hne⟩
      refine Balanced.credited ?_ hfits
      rw [Nat.zero_add, hsum]
      exact hbal
    · exact ⟨hbal, hheld, hlost⟩

/-- The pbuf of a data callback has a 16-bit length. -/
theorem data_length_le {i : Input} {rng : Option Salt} (hs : s.step P i = some s')
    (he : i.event = .recv (some bytes) .ERR_OK rng) : bytes.length ≤ 0xffff := by
  obtain ⟨event, lw⟩ := i
  cases he
  cases fires_of_step hs with
  | recvError _ herr => exact absurd rfl herr
  | recvData _ _ _ hn => exact hn

theorem gone_of_isFin {i : Input} (hR : Reading 0 s) (hfin : i.isFin = true)
    (hs : s.step P i = some s') : Gone s' := by
  obtain ⟨event, lw⟩ := i
  unfold Input.isFin at hfin
  split at hfin
  · next he =>
    cases he
    exact gone_of_fin hR hs
  · cases hfin

theorem credit_step {i : Input} (hR : Reading 0 s) (h : s.closing = false → Credit s)
    (hs : s.step P i = some s') : s'.closing = false → Credit s' := by
  intro hopen
  have hc := h (open_of_step hs hopen)
  rcases fires_direction (fires_of_step hs) with
    ⟨-, -, hu⟩ | ⟨hp, bytes, rng, he, -, rfl⟩ | ⟨buf, writes, ok, -, -, rfl⟩
  · refine hc.upstream hu (fun hg => (gone_step hg hs).1) fun hnone => ?_
    cases hfin : i.isFin with
    | true => exact Or.inr (gone_of_isFin hR hfin hs)
    | false => exact Or.inl (unconnected_step hfin hs hopen hnone).2.1
  · exact hc.onRecv hp (data_length_le hs he) hopen
  · exact hc.onClientWrote hopen

theorem credit_run {crypto : ShadowsocksAeadSession} {is : List Input} (h : Reaches P crypto is s)
    (hopen : s.closing = false) : Credit s := by
  have hinv := run_inv (fun s => Reading 0 s ∧ (s.closing = false → Credit s))
    (fun _ _ _ hI hs => ⟨reading_step hI.1 hs, credit_step hI.1 hI.2 hs⟩)
    ⟨reading_start crypto, fun _ => ⟨⟨rfl, fun _ hn => (by cases hn)⟩, fun _ hne => absurd rfl hne,
      fun _ hne => absurd rfl hne⟩⟩ h
  exact hinv.2 hopen

/-! ## No stall -/

/-- A completed write leaves one buffer less, and the next one in flight. -/
theorem Queued.onClientWrote (h : s.Queued) {front : Bytes} {rest : List Bytes}
    (hp : s.pendingClient = front :: rest) (hw : s.writes = [front]) (lw : Answers) :
    let t := { s with writes := [] }.onClientWrote lw front true
    t.Queued ∧ (t.pendingClient ≠ [] → t.writingClient = true) ∧ t.pendingClient = rest ∧
      t.closing = s.closing ∧ t.pcb = s.pcb := by
  have hpop := h.popClient hw
  obtain ⟨hflush, hbusy⟩ := hpop.creditDeferred.flushToClient
  obtain ⟨-, -, hpend, -⟩ := creditDeferred_fields
    ({ s with writes := [], writingClient := false }.popClient front)
  obtain ⟨hc, hpcb, -⟩ := ((creditDeferred_frame
    ({ s with writes := [], writingClient := false }.popClient front)).trans
      (flushToClient_frame _)).conn (by decide)
  dsimp only
  rw [onClientWrote_ok, flushToClient_pendingClient]
  refine ⟨hflush, hbusy, hpend.trans ?_, hc, hpcb⟩
  exact congrArg List.tail hp

/-- The writes of an open session complete one after the other, until nothing is queued. -/
theorem writes_complete (lw : Answers) (hq : s.Queued)
    (hbusy : s.pendingClient ≠ [] → s.writingClient = true) (hopen : s.closing = false) :
    ∃ s', run (step P) s (List.replicate s.pendingClient.length ⟨.clientWrote true, lw⟩) = some s' ∧
      s'.pendingClient = [] ∧ s'.closing = false ∧ s'.pcb = s.pcb ∧ s'.Queued := by
  -- induction on the length of the queue; every completion starts the next write
  generalize hlen : s.pendingClient.length = n
  induction n generalizing s with
  | zero => exact ⟨s, rfl, List.length_eq_zero_iff.mp hlen, hopen, rfl, hq⟩
  | succ n ih =>
    have hne : s.pendingClient ≠ [] := List.ne_nil_of_length_pos (by omega)
    obtain ⟨front, rest, hp⟩ := List.exists_cons_of_ne_nil hne
    have hw : s.writes = [front] := by
      rw [hq.writes, if_pos (hbusy hne), hp]
      rfl
    have hstep : s.step P ⟨.clientWrote true, lw⟩ =
        some ({ s with writes := [] }.onClientWrote lw front true) := by
      simp only [step]
      rw [hw]
    obtain ⟨hq', hbusy', hrest, hc, hpcb⟩ := hq.onClientWrote hp hw lw
    have hlen' : rest.length = n := by
      rw [hp, List.length_cons] at hlen
      omega
    obtain ⟨s', hrun, hnil, hopen', hpcb', hq''⟩ :=
      ih hq' hbusy' (hc.trans hopen) (by rw [hrest, hlen'])
    exact ⟨s', run_cons.mpr ⟨_, hstep, hrun⟩, hnil, hopen', hpcb'.trans hpcb, hq''⟩

/-- The receive window. In every run, in an open session with a pcb: what was received from lwIP is
    what was credited back, in steps of 16 bits, and what is withheld. If anything is withheld the
    queue is at or above the low water mark with a write in flight, and when the queued writes
    have completed nothing is withheld any more. -/
theorem window_credit {crypto : ShadowsocksAeadSession} {is : List Input} (h : Reaches P crypto is s)
    (hp : s.pcb ≠ none) (hopen : s.closing = false) :
    receivedBytes s.trace = credited s.trace + s.deferredTcpRecved ∧
    (∀ n, .tcpRecved n ∈ s.trace → n ≤ 0xffff) ∧
    (s.deferredTcpRecved ≠ 0 → ClientQueueLowWater ≤ s.clientQueueBytes ∧ s.writes ≠ []) ∧
    ∀ lw, ∃ s', run (step P) s
        (List.replicate s.pendingClient.length ⟨.clientWrote true, lw⟩) = some s' ∧
      s'.deferredTcpRecved = 0 := by
  obtain ⟨⟨hsum, hfits⟩, hheld, -⟩ := credit_run h hopen
  obtain ⟨hq, hbusy, -⟩ := clientQueue_run h
  have hmark : 0 < ClientQueueLowWater := by decide
  refine ⟨hsum, hfits, fun hne => ⟨hheld hp hne, fun hnil => ?_⟩, fun lw => ?_⟩
  · have hlow := hheld hp hne
    have hpend : s.pendingClient ≠ [] := by
      intro hpend
      rw [hq.count, hpend] at hlow
      exact absurd (hmark.trans_le hlow) (Nat.lt_irrefl 0)
    obtain ⟨front, rest, hcons⟩ := List.exists_cons_of_ne_nil hpend
    rw [hq.writes, if_pos (hbusy hopen hpend), hcons] at hnil
    cases hnil
  · obtain ⟨s', hrun, hnil, hopen', hpcb, hq'⟩ := writes_complete (P := P) lw hq (hbusy hopen) hopen
    refine ⟨s', hrun, ?_⟩
    by_contra hne
    have hreach : Reaches P crypto (is ++ List.replicate s.pendingClient.length ⟨.clientWrote true, lw⟩)
        s' := run_append.mpr ⟨s, h, hrun⟩
    have hlow := (credit_run hreach hopen').held (hpcb ▸ hp) hne
    rw [hq'.count, hnil] at hlow
    exact absurd (hmark.trans_le hlow) (Nat.lt_irrefl 0)

/-- A session that passes data down: the response salt is queued and the pcb takes data up. -/
structure Replying (s : TcpRelaySession) : Prop where
  isOpen : s.closing = false
  pcb : ∃ pcb, s.pcb = some pcb ∧ synchronised pcb.state = true
  salted : s.sentResponseSalt = true
  keyed : s.crypto.sentSalt = true

/-- Behind the response salt a payload is one more chunk of the queue. -/
theorem enqueueClientPayload_of_salted {out : Bytes} {c : ShadowsocksAeadSession}
    (hsalt : s.sentResponseSalt = true) (hne : bytes ≠ [])
    (henc : s.crypto.encryptTcpChunk P.mbedtls bytes = (.ok out, c)) (rng : Option Salt) :
    s.enqueueClientPayload P rng bytes =
      (.ok (), ({ s with crypto := c }.pushClient out).flushToClient) := by
  have hemp : ¬ bytes.isEmpty = true := by simpa using hne
  rw [enqueueClientPayload, if_neg hemp, queueSalt, if_pos hsalt]
  dsimp only
  rw [henc]

/-- One more pbuf is sealed and queued; above the high water mark its credit is withheld. -/
theorem reply_step (hS : P.mbedtls.Seals) (h : Replying s) (h0 : 0 < bytes.length)
    (hn : bytes.length ≤ 0x3fff) (lw : Answers) :
    ∃ s', s.step P ⟨.recv (some bytes) .ERR_OK none, lw⟩ = some s' ∧ Replying s' ∧
      s'.clientQueueBytes = s.clientQueueBytes + (bytes.length + 34) ∧
      (ClientQueueHighWater < s'.clientQueueBytes → s'.deferredTcpRecved ≠ 0) := by
  obtain ⟨pcb, hp, hst⟩ := h.pcb
  obtain ⟨lc, lt, h1⟩ := hS s.crypto.sendKey s.crypto.sendNonce (be16 bytes.length)
  obtain ⟨pc, pt, h2⟩ := hS s.crypto.sendKey (incrementNonce s.crypto.sendNonce) bytes
  have henc := ShadowsocksAeadSession.encryptTcpChunk_of_seal h.keyed hn h1 h2
  have hlen := ShadowsocksAeadSession.encryptTcpChunk_length henc
  generalize hout : lc ++ lt ++ pc ++ pt = out at henc hlen
  generalize hc : (s.crypto.sealOp (be16 bytes.length) lc lt).sealOp bytes pc pt = c at henc
  have hkeyed : c.sentSalt = true := by
    rw [← hc]
    exact h.keyed
  have hstep : s.step P ⟨.recv (some bytes) .ERR_OK none, lw⟩ =
      some (s.onRecv P lw (some bytes) .ERR_OK none) := by
    have hpbuf : pbufPossible (some bytes) = true := decide_eq_true ⟨h0, by omega⟩
    simp only [step]
    rw [hp]
    exact if_pos ⟨hst, hpbuf⟩
  have hqueued := enqueueClientPayload_of_salted (P := P) (s := s.log (.received bytes)) h.salted
    (List.ne_nil_of_length_pos h0) henc none
  have hpushed : Replying ({ s.log (.received bytes) with crypto := c }.pushClient out).flushToClient ∧
      ({ s.log (.received bytes) with crypto := c }.pushClient out).flushToClient.clientQueueBytes =
        s.clientQueueBytes + (bytes.length + 34) := by
    rw [← hlen]
    unfold flushToClient
    split
    · exact ⟨⟨h.isOpen, h.pcb, h.salted, hkeyed⟩, rfl⟩
    · split <;> exact ⟨⟨h.isOpen, h.pcb, h.salted, hkeyed⟩, rfl⟩
  refine ⟨_, hstep, ?_⟩
  rcases onRecv_cases P lw s bytes none with ⟨e, t, ht, -⟩ | ⟨t, ht, ⟨hhigh, he⟩ | ⟨hlow, he⟩⟩ <;>
    rw [hqueued] at ht <;> cases ht
  · rw [he]
    exact ⟨⟨hpushed.1.isOpen, hpushed.1.pcb, hpushed.1.salted, hpushed.1.keyed⟩, hpushed.2,
      fun _ => (Nat.add_pos_right _ h0).ne'⟩
  · rw [he]
    exact ⟨⟨hpushed.1.isOpen, hpushed.1.pcb, hpushed.1.salted, hpushed.1.keyed⟩, hpushed.2,
      fun hhigh => absurd hhigh (Nat.not_lt.mpr hlow)⟩

theorem reply_run (hS : P.mbedtls.Seals) (h : Replying s) (h0 : 0 < bytes.length)
    (hn : bytes.length ≤ 0x3fff) (lw : Answers) (n : Nat) :
    ∃ s', run (step P) s (List.replicate n ⟨.recv (some bytes) .ERR_OK none, lw⟩) = some s' ∧
      Replying s' ∧ s'.clientQueueBytes = s.clientQueueBytes + n * (bytes.length + 34) := by
  induction n generalizing s with
  | zero => exact ⟨s, rfl, h, by omega⟩
  | succ n ih =>
    obtain ⟨m, hm, hr, hq, -⟩ := reply_step hS h h0 hn lw
    obtain ⟨s', hrun, hr', hq'⟩ := ih hr
    refine ⟨s', run_cons.mpr ⟨m, hm, hrun⟩, hr', ?_⟩
    rw [hq', hq, Nat.succ_mul]
    omega

/-- A pbuf of 16383 bytes comes back 64 times, and the credit of the last is withheld. -/
theorem window_credit_demo :
    ∃ is s, Reaches demoPlatform demoCrypto is s ∧ s.deferredTcpRecved ≠ 0 ∧
      receivedBytes s.trace = credited s.trace + s.deferredTcpRecved ∧
      ClientQueueLowWater ≤ s.clientQueueBytes ∧ s.writes ≠ [] ∧
      ∃ s', run (step demoPlatform) s
          (List.replicate s.pendingClient.length ⟨.clientWrote true, willing⟩) = some s' ∧
        s'.deferredTcpRecved = 0 := by
  obtain ⟨s, hs, hreply, hq⟩ : ∃ s, Reaches demoPlatform demoCrypto demoReply s ∧ Replying s ∧
      s.clientQueueBytes = 67 := ⟨_, rfl, ⟨rfl, ⟨_, rfl, rfl⟩, rfl, rfl⟩, rfl⟩
  have hbig : (List.replicate 16383 (0 : UInt8)).length = 16383 := List.length_replicate
  obtain ⟨t, ht, hreply, hqueue⟩ := reply_run (P := demoPlatform) standIn_seals hreply
    (by rw [hbig]; decide) hbig.le willing 63
  obtain ⟨u, hu, hreply, hqueue', hheld⟩ := reply_step (P := demoPlatform) standIn_seals hreply
    (by rw [hbig]; decide) hbig.le willing
  have hlast : run (step demoPlatform) t
      [⟨.recv (some (List.replicate 16383 0)) .ERR_OK none, willing⟩] = some u :=
    run_cons.mpr ⟨u, hu, rfl⟩
  have hreach := run_append.mpr ⟨s, hs, run_append.mpr ⟨t, ht, hlast⟩⟩
  have hne : u.deferredTcpRecved ≠ 0 := by
    refine hheld ?_
    rw [hqueue', hqueue, hq, hbig]
    decide
  obtain ⟨pcb, hp, -⟩ := hreply.pcb
  obtain ⟨hsum, -, hmark, hdrain⟩ := window_credit hreach (by rw [hp]; exact Option.some_ne_none pcb)
    hreply.isOpen
  exact ⟨_, u, hreach, hne, hsum, (hmark hne).1, (hmark hne).2, hdrain willing⟩

end TcpRelaySession

end Ovpn2ss.Tcp
