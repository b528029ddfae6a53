/-
  What a stopped session still does.

  `stop` clears the mappings, resets the lifetime token, clears `running_` and closes the socket.
  What can run afterwards is the handler of a receive, of a resolution or of a timer. A resolution
  is dropped for its token and an aborted receive is not followed by another one, but the handler
  of a receive that has completed before does not look at `running_`. For a numeric target it sends
  its datagram as ever, over a mapping and a pcb of its own, which nothing removes but the idle timer.
  For a domain it calls `async_resolve`, which allocates a pcb and sends a question unless the domain
  spells an address; only the handler of that call finds the token reset. So the session is inert
  exactly if no datagram that leads to one of the two is waiting for its handler
  (`stopped_inert_iff`).
-/
import Ovpn2ss.Udp.Transparency

namespace Ovpn2ss.Udp

open Ovpn2ss.Aead Ovpn2ss.Lib Ovpn2ss.Lwip

/-- An allocation of a pcb, or a datagram sent into lwIP. -/
def Action.intoLwip : Action → Bool
  | .udpNew _ => true
  | .udpSendto _ _ _ _ => true
  | .asyncResolve _ asks => asks
  | _ => false

namespace UdpRelaySession

variable {P : Platform} {s s' s₀ : UdpRelaySession}

/-- The pcbs allocated and the datagrams sent into lwIP so far. -/
def intoLwip (s : UdpRelaySession) : List Action := s.trace.filter (·.intoLwip)

/-- The handler of a datagram leads into lwIP: its target is an address that can be read, or a domain
    that spells none. -/
def boundForLwip (P : Platform) (crypto : ShadowsocksAeadFactory) (datagram : Bytes) : Bool :=
  match opened P crypto datagram with
  | none => false
  | some (target, _) =>
    if target.type = .Domain then (P.ipaddrAton target.host).isNone
    else (P.ipaddrAton target.host).isSome

/-- Stopped, with nothing left that leads into lwIP, and since `s₀` nothing went there. -/
structure Inert (P : Platform) (s₀ s : UdpRelaySession) : Prop where
  running : s.running = false
  token : s.lifetimeToken = none
  closed : s.socketOpen = false
  mappings : s.mappings = ∅
  crypto : s.crypto = s₀.crypto
  barred : ∀ x ∈ s.arrived, boundForLwip P s₀.crypto x.1 = false
  quiet : s.intoLwip = s₀.intoLwip

theorem stop_intoLwip (s : UdpRelaySession) : s.stop.intoLwip = s.intoLwip := by
  have hremove : (s.mappings.values.map fun m => Action.udpRemove m.pcb).filter (·.intoLwip) = [] := by
    rw [List.filter_eq_nil_iff]
    intro act hact
    obtain ⟨m, -, rfl⟩ := List.mem_map.mp hact
    exact Bool.false_ne_true
  simp only [intoLwip, stop, List.map_map, List.filter_append]
  rw [show (Action.udpRemove ∘ fun m : Mapping => m.pcb) = fun m => Action.udpRemove m.pcb from rfl,
    hremove, List.append_nil]

/-- `stop` leaves such a session, if no waiting datagram is bound for lwIP. -/
theorem inert_stop (h : ∀ x ∈ s.arrived, boundForLwip P s.crypto x.1 = false) : Inert P s s.stop :=
  ⟨rfl, rfl, rfl, rfl, rfl, h, stop_intoLwip s⟩

theorem receiveLoop_of_stopped (h : s.running = false) : s.receiveLoop = s := by
  unfold receiveLoop
  rw [h]
  rfl

/-- A waiting datagram that is not bound for lwIP leads at most to a question that is answered at
    once. -/
theorem Handles.inert {a : UdpAnswers} {datagram : Bytes} {client : Endpoint}
    (hs : Handles P s a datagram client s') (h : Inert P s₀ s)
    (hbarred : boundForLwip P s₀.crypto datagram = false) : Inert P s₀ s' := by
  unfold boundForLwip at hbarred
  rw [← h.crypto] at hbarred
  cases hs with
  | closed | unreadable => exact h
  | asks hopened htype =>
    simp only [hopened, if_pos htype] at hbarred
    refine ⟨h.running, h.token, h.closed, h.mappings, h.crypto, h.barred, ?_⟩
    rw [← h.quiet]
    simp [intoLwip, resolveDomainThenSend, log, Action.intoLwip, hbarred]
  | sends hopened htype hip =>
    simp only [hopened, if_neg htype, hip] at hbarred
    cases hbarred

/-- Whatever was captured by the handler of a resolution, it finds another token. -/
theorem Inert.stale (h : Inert P s₀ s) (r : Resolution) (err : ErrT) : s.Stale r err := by
  unfold Stale
  rw [h.token]
  cases r.token with
  | none => exact Or.inl rfl
  | some token => exact Or.inr (Or.inl (Option.some_ne_none token))

theorem inert_step {e : Event} (h : Inert P s₀ s) (he : e ≠ .start) (hs : s.step P e = some s') :
    Inert P s₀ s' := by
  have hempty : ∀ key mapping, s.mappings.lookup key ≠ some mapping := by
    intro key mapping hl
    rw [h.mappings] at hl
    cases hl
  cases fires_of_step hs with
  | start => exact absurd rfl he
  | stop =>
    refine ⟨rfl, rfl, rfl, rfl, h.crypto, h.barred, ?_⟩
    rw [stop_intoLwip, h.quiet]
  | arrive hopen =>
    rw [h.closed] at hopen
    cases hopen
  | @received t a datagram client arrived harrived ht =>
    have hbarred := h.barred
    rw [harrived] at hbarred
    have hrest : Inert P s₀ { s with arrived := arrived } :=
      ⟨h.running, h.token, h.closed, h.mappings, h.crypto,
        fun x hx => hbarred x (List.mem_cons_of_mem _ hx), h.quiet⟩
    have hdone := ht.inert hrest (hbarred _ List.mem_cons_self)
    rw [receiveLoop_of_stopped hdone.running]
    exact hdone
  | receiveFailed =>
    have hfailed : Inert P s₀ { s with receives := s.receives - 1 } :=
      ⟨h.running, h.token, h.closed, h.mappings, h.crypto, h.barred, h.quiet⟩
    rw [receiveLoop_of_stopped hfailed.running]
    exact hfailed
  | ignored | expire | missed =>
    exact ⟨h.running, h.token, h.closed, h.mappings, h.crypto, h.barred, h.quiet⟩
  | resolved _ hlive => exact absurd (h.stale _ _) hlive
  | noPbuf => exact h
  | udpRecv hl => exact absurd hl (hempty _ _)
  | removed _ hl => exact absurd hl (hempty _ _)

theorem inert_run {fs : List Event} (h : Inert P s₀ s) (hstart : Event.start ∉ fs)
    (hs : run (step P) s fs = some s') : Inert P s₀ s' := by
  refine run_guarded_inv (Inert P s₀) (fun _ _ _ hI he hs => inert_step hI he hs) h ?_ hs
  refine along_of_forall (fun e he _ => ?_) s
  rintro rfl
  exact hstart he

/-- Where a pcb can be had, `send_payload_to_ip` leaves a mapping. -/
theorem Sends.lookup {a : UdpAnswers} {payload : Bytes} {client : Endpoint} {target : TargetAddress}
    {ip : IpAddr} (hs : Sends P s a payload client target ip s') (hnew : a.udpNew = true) :
    ∃ m, s'.mappings.lookup (mappingKey P client target) = some m := by
  cases hs with
  | refused _ hno =>
    rw [hnew] at hno
    cases hno
  | @found mapping hl => exact ⟨mapping, hl⟩
  | made => exact ⟨_, AList.lookup_insert _⟩

/-- With a pcb to be had and a DNS server, the handler of a datagram bound for lwIP makes a mapping or
    asks a question. -/
theorem Handles.not_quiet {datagram : Bytes} {client : Endpoint}
    (hs : Handles P s ⟨true, true, true⟩ datagram client s')
    (hbound : boundForLwip P s.crypto datagram = true) :
    s'.mappings ≠ ∅ ∨ s'.intoLwip ≠ s.intoLwip := by
  unfold boundForLwip at hbound
  cases hs with
  | closed hopened =>
    rw [hopened] at hbound
    cases hbound
  | unreadable hopened htype hip =>
    simp only [hopened, if_neg htype, hip] at hbound
    cases hbound
  | asks hopened htype =>
    simp only [hopened, if_pos htype] at hbound
    right
    simp [intoLwip, resolveDomainThenSend, log, Action.intoLwip, hbound]
  | sends _ _ _ hsends =>
    obtain ⟨m, hl⟩ := hsends.lookup rfl
    refine Or.inl fun hempty => ?_
    rw [hempty] at hl
    cases hl

/-- The handler of a datagram bound for lwIP is not inert after `stop`. -/
theorem received_after_stop {datagram : Bytes} {client : Endpoint}
    (harrived : s.arrived = [(datagram, client)])
    (hbound : boundForLwip P s.crypto datagram = true) :
    ∃ t, s.stop.step P (.received ⟨true, true, true⟩) = some t ∧
      (t.mappings ≠ ∅ ∨ t.intoLwip ≠ s.intoLwip) := by
  obtain ⟨t, ht, hhandles⟩ :=
    handles_sendToLwip P { s.stop with arrived := [] } ⟨true, true, true⟩ datagram client
  refine ⟨t.receiveLoop, ?_, ?_⟩
  · have harrived' : s.stop.arrived = [(datagram, client)] := harrived
    simp only [step, harrived', ht, Option.map_some]
  · have hstopped : t.running = false := by
      have hrunning := hhandles.running
      exact hrunning
    rw [receiveLoop_of_stopped hstopped]
    have hquiet : ({ s.stop with arrived := [] } : UdpRelaySession).intoLwip = s.intoLwip :=
      stop_intoLwip s
    rw [← hquiet]
    exact hhandles.not_quiet hbound

/-- A stopped session is inert, whatever completes later, exactly if no datagram that is bound for
    lwIP was waiting for its handler. -/
theorem stopped_inert_iff {crypto : ShadowsocksAeadFactory} {es : List Event}
    (h : Reaches P crypto es s) :
    (∀ fs t, Event.start ∉ fs → run (step P) s.stop fs = some t →
        t.mappings = ∅ ∧ t.intoLwip = s.intoLwip) ↔
      ∀ x ∈ s.arrived, boundForLwip P s.crypto x.1 = false := by
  constructor
  · intro hinert x hx
    have hone : s.receives + s.arrived.length ≤ 1 := (inbox_run h).one
    have harrived : s.arrived = [x] := by
      obtain ⟨y, hy⟩ := List.length_eq_one_iff.mp
        (by have := List.length_pos_of_mem hx; omega : s.arrived.length = 1)
      rw [hy, List.mem_singleton] at hx
      rw [hy, hx]
    by_contra hbound
    obtain ⟨t, hs, hloud⟩ := received_after_stop harrived (Bool.eq_true_of_not_eq_false hbound)
    have hrun : run (step P) s.stop [.received ⟨true, true, true⟩] = some t := by
      rw [run, hs]
      rfl
    obtain ⟨hempty, hquiet⟩ := hinert _ t (by simp) hrun
    exact hloud.elim (fun hne => hne hempty) fun hne => hne hquiet
  · intro hbarred fs t hstart hs
    have hI := inert_run (inert_stop hbarred) hstart hs
    exact ⟨hI.mappings, hI.quiet⟩

theorem stopped_inert_demo :
    ∃ s, Reaches demoPlatform demoFactory demoAsked s ∧ s.mappings ≠ ∅ ∧
      ∀ fs t, Event.start ∉ fs → run (step demoPlatform) s.stop fs = some t →
        t.mappings = ∅ ∧ t.intoLwip = s.intoLwip := by
  obtain ⟨s, mapping, h, hl, harrived⟩ : ∃ s mapping, Reaches demoPlatform demoFactory demoAsked s ∧
      s.mappings.lookup (mappingKey demoPlatform demoClient demoAddress) = some mapping ∧
      s.arrived = [] := ⟨_, _, rfl, rfl, rfl⟩
  refine ⟨s, h, fun hempty => ?_, (stopped_inert_iff h).mpr ?_⟩
  · rw [hempty] at hl
    cases hl
  · rw [harrived]
    exact fun x hx => (by cases hx)

/-- A second datagram is received and not yet handled when the session is stopped: its handler
    allocates a pcb, makes a mapping and sends. -/
theorem stopped_session_sends :
    ∃ s t, Reaches demoPlatform demoFactory demoQueued s ∧
      run (step demoPlatform) s.stop [.received ⟨true, true, true⟩] = some t ∧
      (t.mappings.lookup (mappingKey demoPlatform demoClient demoAddress)).isSome ∧
      t.intoLwip = s.intoLwip ++ [.udpNew 1, .udpSendto 1 [8] ⟨false, [1, 2, 3, 4]⟩ 53] :=
  ⟨_, _, rfl, rfl, rfl, rfl⟩

-- the same with a datagram for the domain "a": its handler has a pcb allocated and a question sent
example :
    ∃ s t, Reaches demoPlatform demoFactory
        [.start, .arrive (demoDatagram ([3, 1, 0x61, 0, 53] ++ [8])) demoClient] s ∧
      run (step demoPlatform) s.stop [.received ⟨true, true, true⟩] = some t ∧
      t.intoLwip = s.intoLwip ++ [.asyncResolve [0x61] true] :=
  ⟨_, _, rfl, rfl, rfl⟩

end UdpRelaySession

end Ovpn2ss.Udp
