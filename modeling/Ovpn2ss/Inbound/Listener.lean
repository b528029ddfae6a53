/-
  The listener of an instance (`src/ShadowsocksInbound.cpp`).

  The acceptor is described by how far it has been opened. `async_accept` leaves an operation
  outstanding; when it completes, its handler is queued with the result, and closing the acceptor
  completes what is outstanding with `operation_aborted`. What asio's calls throw is given from
  outside; an exception leaves the members as they are at that point.

  `start` sets `started_` before it opens anything and never resets it, so an exception leaves a
  listener that counts as started: no later `start` does anything
  (`start_throws_never_restores`). How far the acceptor was opened depends on the call that failed.
-/
import Ovpn2ss.Tcp.Session
import Ovpn2ss.Udp.Session
import Ovpn2ss.Lib.Machine

namespace Ovpn2ss.Inbound

open Ovpn2ss.Aead Ovpn2ss.Lib Ovpn2ss.Tcp Ovpn2ss.Udp

structure ShadowsocksConfig where
  listenHost : Bytes
  tcpPort : Nat
  udpPort : Nat
  deriving DecidableEq

/-- `tcp_acceptor_`: how far it was opened, and where. -/
inductive Acceptor where
  | closed
  | opened
  | bound (host : Bytes) (port : Nat)
  | listening (host : Bytes) (port : Nat)
  deriving DecidableEq

def Acceptor.isOpen : Acceptor → Bool
  | .closed => false
  | _ => true

/-- The result an accept handler is called with. -/
inductive AcceptResult where
  | accepted
  | aborted
  | failed
  deriving DecidableEq

/-- What the calls of `start` throw, if they do. -/
structure ListenAnswers where
  makeAddress : Option String
  acceptorOpen : Option String
  setOption : Option String
  bind : Option String
  listen : Option String
  /-- The constructor of `UdpRelaySession`. -/
  udpSocket : Option String
  deriving DecidableEq

structure ShadowsocksInbound where
  config : ShadowsocksConfig
  crypto : ShadowsocksAeadFactory
  acceptor : Acceptor
  udp : Option UdpRelaySession
  started : Bool
  /-- The number of `async_accept` that have not completed. -/
  accepts : Nat
  /-- The handlers that are queued. -/
  handlers : List AcceptResult
  /-- The sessions of the clients accepted so far. -/
  sessions : List TcpRelaySession
  /-- The relays that were stopped; their handlers may keep them. -/
  retired : List UdpRelaySession

namespace ShadowsocksInbound

/-- The constructor. -/
def new (config : ShadowsocksConfig) (crypto : ShadowsocksAeadFactory) : ShadowsocksInbound where
  config := config
  crypto := crypto
  acceptor := .closed
  udp := none
  started := false
  accepts := 0
  handlers := []
  sessions := []
  retired := []

def openTcpAcceptor (a : ListenAnswers) (s : ShadowsocksInbound) :
    Except String Unit × ShadowsocksInbound :=
  if s.acceptor.isOpen then (.ok (), s)
  else
    match a.makeAddress, a.acceptorOpen with
    | some e, _ => (.error e, s)
    | none, some e => (.error e, s)
    | none, none =>
      let s := { s with acceptor := .opened }
      match a.setOption, a.bind with
      | some e, _ => (.error e, s)
      | none, some e => (.error e, s)
      | none, none =>
        let s := { s with acceptor := .bound s.config.listenHost s.config.tcpPort }
        match a.listen with
        | some e => (.error e, s)
        | none =>
          (.ok (), { s with acceptor := .listening s.config.listenHost s.config.tcpPort })

def acceptLoop (s : ShadowsocksInbound) : ShadowsocksInbound := { s with accepts := s.accepts + 1 }

/-- The handler of `accept_loop`. -/
def onAccept (s : ShadowsocksInbound) (r : AcceptResult) : ShadowsocksInbound :=
  let s :=
    if r = .accepted then
      { s with sessions := s.sessions ++ [TcpRelaySession.start s.crypto.makeSession] }
    else s
  if s.acceptor.isOpen then s.acceptLoop else s

def start (a : ListenAnswers) (s : ShadowsocksInbound) : Except String Unit × ShadowsocksInbound :=
  if s.started then (.ok (), s)
  else
    match { s with started := true }.openTcpAcceptor a with
    | (.error e, s) => (.error e, s)
    | (.ok (), s) =>
      let s := s.acceptLoop
      if s.config.udpPort ≠ 0 ∧ s.udp.isNone then
        match a.udpSocket with
        | some e => (.error e, s)
        | none => (.ok (), { s with udp := some (UdpRelaySession.new s.crypto).start })
      else (.ok (), { s with udp := s.udp.map UdpRelaySession.start })

/-- `stop`: closing the acceptor aborts what is outstanding. -/
def stop (s : ShadowsocksInbound) : ShadowsocksInbound :=
  { s with
    started := false
    acceptor := .closed
    accepts := 0
    handlers := s.handlers ++ List.replicate s.accepts .aborted
    udp := none
    retired := s.retired ++ (s.udp.map UdpRelaySession.stop).toList }

/-! ## What `start` leaves -/

variable {s t : ShadowsocksInbound} {a : ListenAnswers}

/-- `open_tcp_acceptor` changes the acceptor alone, and leaves it open unless it throws. -/
theorem openTcpAcceptor_cases (a : ListenAnswers) (s : ShadowsocksInbound) :
    (∃ acceptor, acceptor.isOpen = true ∧
      s.openTcpAcceptor a = (.ok (), { s with acceptor := acceptor })) ∨
    ∃ e acceptor, s.openTcpAcceptor a = (.error e, { s with acceptor := acceptor }) := by
  unfold openTcpAcceptor
  split
  · next hopen => exact Or.inl ⟨s.acceptor, hopen, rfl⟩
  · cases a.makeAddress with
    | some e => exact Or.inr ⟨e, s.acceptor, rfl⟩
    | none =>
      cases a.acceptorOpen with
      | some e => exact Or.inr ⟨e, s.acceptor, rfl⟩
      | none =>
        cases a.setOption with
        | some e => exact Or.inr ⟨e, .opened, rfl⟩
        | none =>
          cases a.bind with
          | some e => exact Or.inr ⟨e, .opened, rfl⟩
          | none =>
            cases a.listen with
            | some e => exact Or.inr ⟨e, .bound s.config.listenHost s.config.tcpPort, rfl⟩
            | none => exact Or.inl ⟨.listening s.config.listenHost s.config.tcpPort, rfl, rfl⟩

/-- The first `start` opens the acceptor and accepts, or it throws before it accepts; in either
    case it counts as started. -/
theorem start_cases (a : ListenAnswers) (h : s.started = false) :
    (∃ r acceptor udp, acceptor.isOpen = true ∧
      ({ s with started := true }.openTcpAcceptor a).1 = .ok () ∧
      s.start a = (r, { s with started := true, acceptor := acceptor, accepts := s.accepts + 1,
                               udp := udp })) ∨
    ∃ e acceptor, ({ s with started := true }.openTcpAcceptor a).1 = .error e ∧
      s.start a = (.error e, { s with started := true, acceptor := acceptor }) := by
  unfold start
  rw [if_neg (Bool.eq_false_iff.mp h)]
  rcases openTcpAcceptor_cases a { s with started := true } with
    ⟨acceptor, hopen, he⟩ | ⟨e, acceptor, he⟩ <;> rw [he]
  · left
    dsimp only [acceptLoop]
    split
    · cases a.udpSocket with
      | some e => exact ⟨.error e, acceptor, s.udp, hopen, rfl, rfl⟩
      | none => exact ⟨.ok (), acceptor, some (UdpRelaySession.new s.crypto).start, hopen, rfl, rfl⟩
    · exact ⟨.ok (), acceptor, s.udp.map UdpRelaySession.start, hopen, rfl, rfl⟩
  · exact Or.inr ⟨e, acceptor, rfl, rfl⟩

theorem start_of_started (a : ListenAnswers) (h : s.started = true) : s.start a = (.ok (), s) := by
  rw [start, if_pos h]

/-- Whatever `start` does, the listener counts as started. -/
theorem start_started (a : ListenAnswers) (s : ShadowsocksInbound) : (s.start a).2.started = true := by
  cases h : s.started with
  | true => rw [start_of_started a h, h]
  | false =>
    rcases start_cases a h with ⟨r, acceptor, udp, -, -, he⟩ | ⟨e, acceptor, -, he⟩ <;> rw [he]

/-- A listener that has not been started, or was stopped. -/
structure Idle (s : ShadowsocksInbound) : Prop where
  started : s.started = false
  acceptor : s.acceptor = .closed
  accepts : s.accepts = 0
  udp : s.udp = none

/-- A `start` that throws leaves a listener that is neither idle nor as it was, and on which every
    later `start` returns without opening anything. -/
theorem start_throws_never_restores {e : String} (h : s.start a = (.error e, t)) :
    ¬ t.Idle ∧ t ≠ s ∧ ∀ b, t.start b = (.ok (), t) := by
  have hstarted : t.started = true := by
    have hs := start_started a s
    rwa [h] at hs
  have hidle : s.started = false := by
    cases hs : s.started with
    | false => rfl
    | true =>
      rw [start_of_started a hs] at h
      cases h
  refine ⟨fun hidle' => ?_, fun heq => ?_, fun b => start_of_started b hstarted⟩
  · exact Bool.false_ne_true (hidle'.started.symm.trans hstarted)
  · rw [heq, hidle] at hstarted
    cases hstarted

def demoConfig : ShadowsocksConfig := ⟨[0x31], 8388, 8388⟩

def demoInbound : ShadowsocksInbound := .new demoConfig ⟨zeroKey⟩

/-- Every call of `start` succeeds. -/
def listens : ListenAnswers := ⟨none, none, none, none, none, none⟩

theorem openTcpAcceptor_listens (s : ShadowsocksInbound) :
    (s.openTcpAcceptor listens).1 = .ok () := by
  unfold openTcpAcceptor
  split <;> rfl

theorem start_listens (s : ShadowsocksInbound) : (s.start listens).1 = .ok () := by
  have hopen := openTcpAcceptor_listens { s with started := true }
  unfold start
  split
  · rfl
  · rcases ho : { s with started := true }.openTcpAcceptor listens with ⟨r, t⟩
    rw [ho] at hopen
    obtain rfl : r = .ok () := hopen
    rw [ho]
    dsimp only
    split <;> rfl

/-- The port is in use. -/
def portTaken : ListenAnswers := { listens with bind := some "bind: Address already in use" }

theorem start_throws_demo :
    ∃ t, demoInbound.start { listens with udpSocket := some "bind: Address already in use" } =
        (.error "bind: Address already in use", t) ∧ t.accepts = 1 ∧ ¬ t.Idle ∧ t ≠ demoInbound ∧
      ∀ b, t.start b = (.ok (), t) := by
  obtain ⟨t, h, haccepts⟩ : ∃ t, demoInbound.start
      { listens with udpSocket := some "bind: Address already in use" } =
        (.error "bind: Address already in use", t) ∧ t.accepts = 1 := ⟨_, rfl, rfl⟩
  exact ⟨t, h, haccepts, start_throws_never_restores h⟩

/-- `bind` fails: the acceptor stays open without a port, and the next `start`, with the port free,
    does nothing. -/
theorem start_after_failed_bind :
    demoInbound.Idle ∧ ∃ t, demoInbound.start portTaken = (.error "bind: Address already in use", t) ∧
      t.started = true ∧ t.acceptor = .opened ∧ t.start listens = (.ok (), t) :=
  ⟨⟨rfl, rfl, rfl, rfl⟩, _, rfl, rfl, rfl, rfl⟩

/-! ## Events -/

inductive Event where
  | start (a : ListenAnswers)
  | stop
  /-- A client connects and the oldest accept completes. -/
  | connection
  /-- An accept completes with an error. -/
  | acceptError
  /-- A queued handler runs. -/
  | handler (r : AcceptResult)

/-- One step of the listener. The caller of `start` deals with what it throws. -/
def step (s : ShadowsocksInbound) : Event → Option ShadowsocksInbound
  | .start a => some (s.start a).2
  | .stop => some s.stop
  | .connection =>
    match s.acceptor with
    | .listening _ _ =>
      if 0 < s.accepts then
        some { s with accepts := s.accepts - 1, handlers := s.handlers ++ [.accepted] }
      else none
    | _ => none
  | .acceptError =>
    if 0 < s.accepts then some { s with accepts := s.accepts - 1, handlers := s.handlers ++ [.failed] }
    else none
  | .handler r =>
    if r ∈ s.handlers then some ({ s with handlers := s.handlers.erase r }.onAccept r) else none

/-- What a step does, with the guard that let it happen. -/
inductive Fires : ShadowsocksInbound → Event → ShadowsocksInbound → Prop
  | start {s : ShadowsocksInbound} (a : ListenAnswers) : Fires s (.start a) (s.start a).2
  | stop {s : ShadowsocksInbound} : Fires s .stop s.stop
  | connection {s : ShadowsocksInbound} {host : Bytes} {port : Nat}
      (hl : s.acceptor = .listening host port) (h : 0 < s.accepts) :
      Fires s .connection { s with accepts := s.accepts - 1, handlers := s.handlers ++ [.accepted] }
  | acceptError {s : ShadowsocksInbound} (h : 0 < s.accepts) :
      Fires s .acceptError { s with accepts := s.accepts - 1, handlers := s.handlers ++ [.failed] }
  | handler {s : ShadowsocksInbound} {r : AcceptResult} (h : r ∈ s.handlers) :
      Fires s (.handler r) ({ s with handlers := s.handlers.erase r }.onAccept r)

/-- The inversion of `step`. -/
theorem fires_of_step {s' : ShadowsocksInbound} {e : Event} (hs : s.step e = some s') :
    Fires s e s' := by
  cases e with
  | start a =>
    obtain rfl := Option.some.inj hs
    exact .start a
  | stop =>
    obtain rfl := Option.some.inj hs
    exact .stop
  | connection =>
    simp only [step] at hs
    split at hs
    · next hl =>
      split at hs
      · next h =>
        obtain rfl := Option.some.inj hs
        exact .connection hl h
      · cases hs
    · cases hs
  | acceptError =>
    simp only [step] at hs
    split at hs
    · next h =>
      obtain rfl := Option.some.inj hs
      exact .acceptError h
    · cases hs
  | handler r =>
    simp only [step] at hs
    split at hs
    · next h =>
      obtain rfl := Option.some.inj hs
      exact .handler h
    · cases hs

/-- Only `start` and `stop` change whether the listener is started and how far it is open. -/
theorem step_keeps {s' : ShadowsocksInbound} {e : Event} (hs : s.step e = some s')
    (hstart : ∀ a, e ≠ .start a) (hstop : e ≠ .stop) :
    s'.started = s.started ∧ s'.acceptor = s.acceptor := by
  cases fires_of_step hs with
  | start a => exact absurd rfl (hstart a)
  | stop => exact absurd rfl hstop
  | connection hl h => exact ⟨rfl, rfl⟩
  | acceptError h => exact ⟨rfl, rfl⟩
  | @handler r h =>
    unfold onAccept
    by_cases hr : r = .accepted
    · rw [if_pos hr]
      dsimp only
      split <;> exact ⟨rfl, rfl⟩
    · rw [if_neg hr]
      dsimp only
      split <;> exact ⟨rfl, rfl⟩

end ShadowsocksInbound

end Ovpn2ss.Inbound
