/-
  An instance: the TCP sessions and UDP relays that share the resolver of one `LwipRuntime`
  (`async_resolve` in `src/LwipRuntime.cpp`, its callers in `src/TcpRelaySession.cpp` and
  `src/UdpRelaySession.cpp`, which `src/ShadowsocksInbound.cpp` makes).

  Each of them is the machine of its own module, with the events it has seen. They meet in two
  places. A handler of a session or a relay may call `async_resolve`: then the resolver takes its
  step in the same event, and whether the call throws is what the client sees. And the resolver
  posts handlers to the io_context, which runs them in the order they were posted, between whatever
  else it runs: then the client that made the call takes its step. All of it is on one thread.

  A relay that was stopped stays, as the handlers it has registered do.
-/
import Ovpn2ss.Lib.History
import Ovpn2ss.Dns.Origin
import Ovpn2ss.Tcp.Requests
import Ovpn2ss.Udp.Relayed

namespace Ovpn2ss

open Ovpn2ss.Aead Ovpn2ss.Lib Ovpn2ss.Lwip
open Ovpn2ss.Dns (LwipRuntime DnsAnswers)
open Ovpn2ss.Tcp (TcpRelaySession)
open Ovpn2ss.Tcp.TcpRelaySession (requests)
open Ovpn2ss.Udp (UdpRelaySession UdpAnswers)

/-- The libraries below the TCP sessions are those below the UDP relays. -/
def Udp.Platform.tcp (P : Udp.Platform) : Tcp.Platform := ⟨P.mbedtls, P.ipaddrAton⟩

namespace Udp.UdpRelaySession

variable {P : Platform} {s s' : UdpRelaySession}

theorem Sends.resolving {a : UdpAnswers} {payload : Bytes} {client : Endpoint} {target : TargetAddress}
    {ip : IpAddr} (hs : Sends P s a payload client target ip s') : s'.resolving = s.resolving := by
  cases hs <;> rfl

/-- A relay registers one handler at a time, and unregisters none of its own accord. -/
theorem step_resolving {e : Event} (hs : s.step P e = some s') (hr : ∀ r err ip a, e ≠ .resolved r err ip a) :
    s'.resolving = s.resolving ∨ ∃ r, s'.resolving = s.resolving ++ [r] := by
  cases fires_of_step hs with
  | start | stop | arrive | noPbuf | expire | missed | removed => exact Or.inl rfl
  | received _ ht =>
    rw [receiveLoop_eq]
    cases ht with
    | closed | unreadable => exact Or.inl rfl
    | asks => exact Or.inr ⟨_, rfl⟩
    | sends _ _ _ hsends => exact Or.inl hsends.resolving
  | receiveFailed =>
    rw [receiveLoop_eq]
    exact Or.inl rfl
  | ignored | resolved => exact absurd rfl (hr _ _ _ _)
  | udpRecv _ _ hsend =>
    obtain ⟨datagram, rfl⟩ := sendToClient_logs hsend
    exact Or.inl rfl

theorem resolved_resolving {r : Resolution} {err : ErrT} {ip : Option IpAddr} {a : UdpAnswers}
    (hs : s.step P (.resolved r err ip a) = some s') : s'.resolving = s.resolving.erase r := by
  cases fires_of_step hs with
  | ignored => rfl
  | resolved _ _ hsends => exact hsends.resolving

/-- The handler of a resolution starts and stops nothing. -/
theorem resolved_stale {r r' : Resolution} {err err' : ErrT} {ip : Option IpAddr} {a : UdpAnswers}
    (hs : s.step P (.resolved r err ip a) = some s') : s'.Stale r' err' ↔ s.Stale r' err' := by
  unfold Stale
  cases fires_of_step hs with
  | ignored => exact Iff.rfl
  | resolved _ _ hsends => cases hsends <;> exact Iff.rfl

theorem resolved_drop {r : Resolution} {err : ErrT} {ip : Option IpAddr} {a : UdpAnswers}
    (hs : s.step P (.resolved r err ip a) = some s') : s'.resolving.drop s.resolving.length = [] := by
  rw [List.drop_eq_nil_iff, resolved_resolving hs]
  exact List.length_erase_le

end Udp.UdpRelaySession

/-- Whose handler a call of `async_resolve` was given. -/
inductive Caller where
  | session (k : Nat)
  | relay (k : Nat) (r : Udp.Resolution)
  deriving DecidableEq

structure Instance (P : Udp.Platform) (config : Dns.TunConfig) (factory : ShadowsocksAeadFactory) where
  lwip : History (LwipRuntime.step P.ipaddrAton) (LwipRuntime.new config)
  sessions : List (History (TcpRelaySession.step P.tcp) (TcpRelaySession.start factory.makeSession))
  relays : List (History (UdpRelaySession.step P) (UdpRelaySession.new factory))
  /-- The callers of `async_resolve`, in the order of the calls. -/
  callers : List Caller
  /-- How many of the posted handlers have run. -/
  ran : Nat

namespace Instance

variable {P : Udp.Platform} {config : Dns.TunConfig} {factory : ShadowsocksAeadFactory}

def new : Instance P config factory := ⟨.initial, [], [], [], 0⟩

/-- What `async_resolve` throws. -/
def throws (t : Instance P config factory) (a : DnsAnswers) (host : Bytes) : Option String :=
  match (t.lwip.state.asyncResolve P.ipaddrAton a host).1 with
  | .error e => some e
  | .ok () => none

/-- A call of `async_resolve`. -/
def ask (t : Instance P config factory) (a : DnsAnswers) (caller : Caller) (host : Bytes) :
    Option (Instance P config factory) :=
  match t.lwip.extend (.resolve host a) with
  | none => none
  | some lwip => some { t with lwip := lwip, callers := t.callers ++ [caller] }

/-- A step of a session. It asks for one name at most (`TcpRelaySession.step_requests`). -/
def onSession (t : Instance P config factory) (k : Nat) (i : Tcp.Input) (a : DnsAnswers) :
    Option (Instance P config factory) :=
  match t.sessions[k]? with
  | none => none
  | some h =>
    match h.extend i with
    | none => none
    | some h' =>
      let t' := { t with sessions := t.sessions.set k h' }
      match (requests h'.state.trace).drop (requests h.state.trace).length with
      | [] => some t'
      | host :: _ => if t.throws a host = i.lw.resolveThrows then t'.ask a (.session k) host else none

/-- A step of a relay. It registers one handler at most (`step_resolving`). -/
def onRelay (t : Instance P config factory) (k : Nat) (e : UdpRelaySession.Event) (a : DnsAnswers) :
    Option (Instance P config factory) :=
  match t.relays[k]? with
  | none => none
  | some h =>
    match h.extend e with
    | none => none
    | some h' =>
      let t' := { t with relays := t.relays.set k h' }
      match h'.state.resolving.drop h.state.resolving.length with
      | [] => some t'
      | r :: _ => t'.ask a (.relay k r) r.target.host

inductive Event where
  | accept
  /-- `ShadowsocksInbound::start` makes a `UdpRelaySession`. -/
  | makeRelay
  | session (k : Nat) (i : Tcp.Input) (a : DnsAnswers)
  | relay (k : Nat) (e : UdpRelaySession.Event) (a : DnsAnswers)
  | resolver (e : LwipRuntime.Event)
  /-- The io_context runs the next handler that the resolver has posted. -/
  | handler (lw : Lwip.Answers) (b : UdpAnswers) (a : DnsAnswers)

/-- The answers of the resolver come through `handler` only, and its calls from the clients. -/
def Event.own : Event → Bool
  | .session _ ⟨.resolved _ _, _⟩ _ => false
  | .relay _ (.resolved _ _ _ _) _ => false
  | .resolver (.resolve _ _) => false
  | _ => true

def runHandler (t : Instance P config factory) (lw : Lwip.Answers) (b : UdpAnswers) (a : DnsAnswers) :
    Option (Instance P config factory) :=
  match t.lwip.state.posted[t.ran]? with
  | none => none
  | some p =>
    let t : Instance P config factory := { t with ran := t.ran + 1 }
    match t.callers[p.call]? with
    | none => none
    | some (.session k) => t.onSession k ⟨.resolved p.err p.ip, lw⟩ a
    | some (.relay k r) => t.onRelay k (.resolved r p.err p.ip b) a

def step (t : Instance P config factory) (e : Event) : Option (Instance P config factory) :=
  if !e.own then none
  else
    match e with
    | .accept => some { t with sessions := t.sessions ++ [.initial] }
    | .makeRelay => some { t with relays := t.relays ++ [.initial] }
    | .session k i a => t.onSession k i a
    | .relay k e a => t.onRelay k e a
    | .resolver e =>
      match t.lwip.extend e with
      | none => none
      | some lwip => some { t with lwip := lwip }
    | .handler lw b a => t.runHandler lw b a

/-! ## What a client's step does -/

variable {t t' : Instance P config factory} {k : Nat} {a : DnsAnswers}

theorem ask_eq_some {caller : Caller} {host : Bytes} (h : t.ask a caller host = some t') :
    ∃ lwip, t.lwip.extend (.resolve host a) = some lwip ∧
      t' = { t with lwip := lwip, callers := t.callers ++ [caller] } := by
  unfold ask at h
  split at h
  · cases h
  · exact ⟨_, ‹_›, (Option.some.inj h).symm⟩

/-- A session goes on by itself, and may ask for its target. -/
theorem onSession_own {i : Tcp.Input} (hi : ∀ err ip, i.event ≠ .resolved err ip)
    (hs : t.onSession k i a = some t') :
    ∃ h h', t.sessions[k]? = some h ∧ h.extend i = some h' ∧
      ((requests h'.state.trace = requests h.state.trace ∧ h'.state.resolving = h.state.resolving ∧
          t' = { t with sessions := t.sessions.set k h' }) ∨
        ∃ host lwip, requests h.state.trace = [] ∧ h.state.resolving = none ∧
          requests h'.state.trace = [host] ∧ h'.state.resolving ≠ none ∧
          t.lwip.extend (.resolve host a) = some lwip ∧
          t' = { t with sessions := t.sessions.set k h', lwip := lwip,
                        callers := t.callers ++ [.session k] }) := by
  unfold onSession at hs
  split at hs
  · cases hs
  · rename_i h hk
    split at hs
    · cases hs
    · rename_i h' hext
      refine ⟨h, h', hk, hext, ?_⟩
      rcases TcpRelaySession.step_requests (TcpRelaySession.requested_run h.reached)
        (History.extend_eq_some.mp hext).1 hi with ⟨hreq, hres⟩ | ⟨hnil, hnone, host, hreq, hres⟩
      · rw [hreq, List.drop_length] at hs
        exact Or.inl ⟨hreq, hres, (Option.some.inj hs).symm⟩
      · rw [hnil, hreq, List.length_nil, List.drop_zero] at hs
        dsimp only at hs
        split at hs
        · obtain ⟨lwip, hlwip, rfl⟩ := ask_eq_some hs
          exact Or.inr ⟨host, lwip, hnil, hnone, hreq, hres, hlwip, rfl⟩
        · cases hs

/-- A session hears the resolver's answer. -/
theorem onSession_resolved {err : ErrT} {ip : Option IpAddr} {lw : Lwip.Answers}
    (hs : t.onSession k ⟨.resolved err ip, lw⟩ a = some t') :
    ∃ h h', t.sessions[k]? = some h ∧ h.extend ⟨.resolved err ip, lw⟩ = some h' ∧
      requests h'.state.trace = requests h.state.trace ∧
      t' = { t with sessions := t.sessions.set k h' } := by
  unfold onSession at hs
  split at hs
  · cases hs
  · rename_i h hk
    split at hs
    · cases hs
    · rename_i h' hext
      have hreq := (TcpRelaySession.resolved_requests rfl (History.extend_eq_some.mp hext).1).1
      rw [hreq, List.drop_length] at hs
      exact ⟨h, h', hk, hext, hreq, (Option.some.inj hs).symm⟩

/-- A relay goes on by itself, and may ask for the target of a datagram. -/
theorem onRelay_own {e : UdpRelaySession.Event} (he : ∀ r err ip b, e ≠ .resolved r err ip b)
    (hs : t.onRelay k e a = some t') :
    ∃ h h', t.relays[k]? = some h ∧ h.extend e = some h' ∧
      ((h'.state.resolving = h.state.resolving ∧ t' = { t with relays := t.relays.set k h' }) ∨
        ∃ r lwip, h'.state.resolving = h.state.resolving ++ [r] ∧
          t.lwip.extend (.resolve r.target.host a) = some lwip ∧
          t' = { t with relays := t.relays.set k h', lwip := lwip,
                        callers := t.callers ++ [.relay k r] }) := by
  unfold onRelay at hs
  split at hs
  · cases hs
  · rename_i h hk
    split at hs
    · cases hs
    · rename_i h' hext
      refine ⟨h, h', hk, hext, ?_⟩
      rcases UdpRelaySession.step_resolving (History.extend_eq_some.mp hext).1 he with hres | ⟨r, hres⟩
      · rw [hres, List.drop_length] at hs
        exact Or.inl ⟨hres, (Option.some.inj hs).symm⟩
      · rw [hres, List.drop_left] at hs
        obtain ⟨lwip, hlwip, rfl⟩ := ask_eq_some hs
        exact Or.inr ⟨r, lwip, hres, hlwip, rfl⟩

/-- A relay hears the resolver's answer. -/
theorem onRelay_resolved {r : Udp.Resolution} {err : ErrT} {ip : Option IpAddr} {b : UdpAnswers}
    (hs : t.onRelay k (.resolved r err ip b) a = some t') :
    ∃ h h', t.relays[k]? = some h ∧ h.extend (.resolved r err ip b) = some h' ∧
      h'.state.resolving = h.state.resolving.erase r ∧
      t' = { t with relays := t.relays.set k h' } := by
  unfold onRelay at hs
  split at hs
  · cases hs
  · rename_i h hk
    split at hs
    · cases hs
    · rename_i h' hext
      rw [UdpRelaySession.resolved_drop (History.extend_eq_some.mp hext).1] at hs
      exact ⟨h, h', hk, hext, UdpRelaySession.resolved_resolving (History.extend_eq_some.mp hext).1,
        (Option.some.inj hs).symm⟩

end Instance

end Ovpn2ss
