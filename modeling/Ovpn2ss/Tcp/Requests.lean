/-
  What a session asks the resolver.

  A session calls `async_resolve` at most once, when its target becomes known and is a name
  (`requested_run`), and from that call on it waits for the answer until the handler runs
  (`step_requests`).
-/
import Ovpn2ss.Tcp.Target

namespace Ovpn2ss.Tcp.TcpRelaySession

open Ovpn2ss.Aead Ovpn2ss.Lib Ovpn2ss.Lwip

variable {P : Platform} {lw : Answers} {s s' : TcpRelaySession}

/-- The names a trace asks for. -/
def requests (trace : List Action) : List Bytes :=
  trace.filterMap fun | .asyncResolve host _ => some host | _ => none

@[simp] theorem requests_append (t u : List Action) : requests (t ++ u) = requests t ++ requests u :=
  List.filterMap_append

theorem requests_of_aims {acts : List Action} (h : ∀ a ∈ acts, a.aims = false) : requests acts = [] := by
  rw [requests, List.filterMap_eq_nil_iff]
  intro a ha
  have := h a ha
  cases a <;> first | rfl | cases this

theorem Unaimed.requests (h : Unaimed s s') :
    TcpRelaySession.requests s'.trace = TcpRelaySession.requests s.trace := by
  obtain ⟨acts, ht, ha⟩ := h.trace
  rw [ht, requests_append, requests_of_aims ha, List.append_nil]

/-- The session has asked for nothing and waits for nothing, or it has asked for its target. -/
def Requested (s : TcpRelaySession) : Prop :=
  (requests s.trace = [] ∧ s.resolving = none) ∨ (s.gotTarget = true ∧ ∃ host, requests s.trace = [host])

theorem Requested.unaimed (h : Requested s) (hu : Unaimed s s') (hg : s'.gotTarget = s.gotTarget) :
    Requested s' := by
  unfold Requested
  rwa [hu.requests, hu.resolving, hg]

/-- `connect_ip` asks for nothing. -/
theorem connectIp_requests (lw : Answers) (s : TcpRelaySession) (ip : IpAddr) (port : Nat) :
    requests (s.connectIp lw ip port).trace = requests s.trace ∧
      (s.connectIp lw ip port).resolving = s.resolving := by
  have hclose (t : TcpRelaySession) (ht : requests t.trace = requests s.trace)
      (hr : t.resolving = s.resolving) : requests (t.close lw).trace = requests s.trace ∧
        (t.close lw).resolving = s.resolving := by
    have hu := (close_frame lw t).unaimed (by decide)
    exact ⟨hu.requests.trans ht, hu.resolving.trans hr⟩
  have hconnect : requests (s.trace ++ [.tcpConnect ip port]) = requests s.trace := by
    rw [requests_append]
    exact List.append_nil _
  rcases connectIp_cases lw s ip port with he | he | he <;> rw [he]
  · exact ⟨hconnect, rfl⟩
  · exact hclose _ hconnect rfl
  · exact hclose _ rfl rfl

/-! ## The read handler -/

/-- What a read has asked for when it has come to `t`: nothing yet, or the target, which is then
    being resolved. -/
def Asking (t : TcpRelaySession) : Prop :=
  (requests t.trace = [] ∧ t.resolving = none) ∨
    (t.gotTarget = true ∧ ∃ host, requests t.trace = [host] ∧ t.resolving ≠ none)

theorem Asking.unaimed (h : Asking s) (hu : Unaimed s s') (hg : s'.gotTarget = s.gotTarget) :
    Asking s' := by
  unfold Asking
  rwa [hu.requests, hu.resolving, hg]

theorem Asking.processDecryptedChunk (h : Asking s) (chunk : Bytes) :
    Asking (s.processDecryptedChunk P lw chunk).2 := by
  refine processDecryptedChunk_inv Asking ?_ ?_ ?_ h
  · intro t bytes _ ht
    rw [queueLwip_eq]
    exact ht.unaimed ((queued_frame t _).unaimed (by decide)) rfl
  · exact h.unaimed ((close_frame lw s).unaimed (by decide)) ((close_frame lw s).target (by decide))
  · intro hg target
    obtain ⟨hnil, hnone⟩ : requests s.trace = [] ∧ s.resolving = none := by
      rcases h with h | ⟨hg', -⟩
      · exact h
      · rw [hg] at hg'
        cases hg'
    have hgot : Asking { s with gotTarget := true } := Or.inl ⟨hnil, hnone⟩
    refine connectTarget_inv Asking ?_ ?_ hgot target
    · intro host port
      refine Or.inr ⟨rfl, host, ?_, Option.some_ne_none _⟩
      rw [requests_append, hnil]
      rfl
    · intro ip port
      have hc := connectIp_requests lw { s with gotTarget := true } ip port
      exact Or.inl ⟨hc.1.trans hnil, hc.2.trans hnone⟩

theorem Asking.onClientData (h : Asking s) (bytes : Bytes) : Asking (s.onClientData P lw bytes) := by
  refine onClientData_inv P Asking Asking ?_ ?_ (processAll_inv P Asking _
    (fun _ chunk _ hI => hI.processDecryptedChunk chunk) h)
  · intro t c rest ht
    have hin : Unaimed t (t.withInput c rest) := .of_update rfl rfl rfl
    refine ht.unaimed (hin.trans ((flushRead_frame lw _).unaimed (by decide))) ?_
    exact ((flushRead_frame lw (t.withInput c rest)).unread (by decide)).target
  · intro t c rest ht
    have hin : Unaimed t (t.withInput c rest) := .of_update rfl rfl rfl
    refine ht.unaimed (hin.trans ((close_frame lw _).unaimed (by decide))) ?_
    exact (close_frame lw _).target (by decide)

/-- A session that has its target does not ask for it again. -/
theorem onClientData_unaimed (P : Platform) (lw : Answers) (hg : s.gotTarget = true) (bytes : Bytes) :
    Unaimed s (s.onClientData P lw bytes) ∧ (s.onClientData P lw bytes).gotTarget = true := by
  refine onClientData_inv P (fun t => Unaimed s t ∧ t.gotTarget = true)
    (fun t => Unaimed s t ∧ t.gotTarget = true) ?_ ?_ ?_
  · rintro t c rest ⟨ht, hgt⟩
    have hin : Unaimed t (t.withInput c rest) := .of_update rfl rfl rfl
    refine ⟨ht.trans (hin.trans ((flushRead_frame lw _).unaimed (by decide))), ?_⟩
    exact ((flushRead_frame lw (t.withInput c rest)).unread (by decide)).target.trans hgt
  · rintro t c rest ⟨ht, hgt⟩
    have hin : Unaimed t (t.withInput c rest) := .of_update rfl rfl rfl
    refine ⟨ht.trans (hin.trans ((close_frame lw _).unaimed (by decide))), ?_⟩
    exact ((close_frame lw _).target (by decide)).trans hgt
  · rw [processAll_of_target P hg]
    exact ⟨(queued_frame s _).unaimed (by decide), hg⟩

/-! ## Steps and runs -/

/-- Only a read asks the resolver, in a session that has asked for nothing; it then waits. -/
theorem step_requests {i : Input} (h : Requested s) (hs : s.step P i = some s')
    (hr : ∀ err ip, i.event ≠ .resolved err ip) :
    (requests s'.trace = requests s.trace ∧ s'.resolving = s.resolving) ∨
      (requests s.trace = [] ∧ s.resolving = none ∧
        ∃ host, requests s'.trace = [host] ∧ s'.resolving ≠ none) := by
  have hrest (hd : ∀ bytes, i.event ≠ .clientRead (.data bytes)) :
      requests s'.trace = requests s.trace ∧ s'.resolving = s.resolving := by
    have hu := fires_unaimed (fires_of_step hs) hd hr
    exact ⟨hu.requests, hu.resolving⟩
  cases fires_of_step hs with
  | @clientData lw bytes =>
    rcases h with ⟨hnil, hnone⟩ | ⟨hg, -⟩
    · have hasking : Asking { s with reads := s.reads - 1 } := Or.inl ⟨hnil, hnone⟩
      rcases hasking.onClientData bytes with ⟨hnil', hnone'⟩ | ⟨-, hasked⟩
      · exact Or.inl ⟨hnil'.trans hnil.symm, hnone'.trans hnone.symm⟩
      · exact Or.inr ⟨hnil, hnone, hasked⟩
    · have hu := (onClientData_unaimed P lw (s := { s with reads := s.reads - 1 }) hg bytes).1
      exact Or.inl ⟨hu.requests, hu.resolving⟩
  | clientEof _ hev =>
    refine Or.inl (hrest fun _ he => ?_)
    rcases hev with rfl | rfl <;> cases he
  | _ => exact Or.inl (hrest fun _ he => (by cases he))

/-- The answer of the resolver ends the wait, and asks for nothing. -/
theorem resolved_requests {i : Input} {err : ErrT} {ip : Option IpAddr} (he : i.event = .resolved err ip)
    (hs : s.step P i = some s') : requests s'.trace = requests s.trace ∧ s'.resolving = none := by
  obtain ⟨event, lw⟩ := i
  dsimp only at he
  subst he
  cases fires_of_step hs with
  | @resolved _ _ _ port =>
    refine onResolved_inv (fun t => requests t.trace = requests s.trace ∧ t.resolving = none) ?_ ?_
    · have hu := (close_frame lw { s with resolving := none }).unaimed (by decide)
      exact ⟨hu.requests, hu.resolving⟩
    · exact fun _ ip => connectIp_requests lw { s with resolving := none } ip port
  | unheard => exact ⟨rfl, rfl⟩

theorem requested_step {i : Input} (h : Requested s) (hs : s.step P i = some s') : Requested s' := by
  by_cases hd : ∃ bytes, i.event = .clientRead (.data bytes)
  · obtain ⟨event, lw⟩ := i
    obtain ⟨bytes, he⟩ := hd
    dsimp only at he
    subst he
    cases fires_of_step hs with
    | clientData =>
      rcases h with hnone | ⟨hg, host, hreq⟩
      · have hasking : Asking { s with reads := s.reads - 1 } := Or.inl hnone
        exact (hasking.onClientData bytes).imp_right fun ⟨hg, host, hreq, _⟩ => ⟨hg, host, hreq⟩
      · obtain ⟨hu, hg'⟩ := onClientData_unaimed P lw (s := { s with reads := s.reads - 1 }) hg bytes
        exact Or.inr ⟨hg', host, hu.requests.trans hreq⟩
    | clientEof _ hev => rcases hev with hev | hev <;> cases hev
  · have hd : ∀ bytes, i.event ≠ .clientRead (.data bytes) := fun bytes he => hd ⟨bytes, he⟩
    have hgot := step_gotTarget hs hd
    by_cases hr : ∃ err ip, i.event = .resolved err ip
    · obtain ⟨err, ip, he⟩ := hr
      obtain ⟨hreq, hnone⟩ := resolved_requests he hs
      unfold Requested
      rw [hreq, hnone, hgot]
      exact h.imp_left fun hnil => ⟨hnil.1, rfl⟩
    · exact h.unaimed (fires_unaimed (fires_of_step hs) hd fun err ip he => hr ⟨err, ip, he⟩) hgot

theorem requested_run {crypto : ShadowsocksAeadSession} {is : List Input} (h : Reaches P crypto is s) :
    Requested s :=
  run_inv Requested (fun _ _ _ hI hs => requested_step hI hs) (Or.inl ⟨rfl, rfl⟩) h

end Ovpn2ss.Tcp.TcpRelaySession
