/-
  The session as an event machine: one step is one completion handler or one lwIP callback.

  An event has a step in a state only if the operation it completes is outstanding there, or
  lwIP can make that callback on the pcb. Nothing else is assumed about the environment: reads
  and writes may still complete with success after the socket was closed (their handlers may
  have been queued before), lwIP's answers are arbitrary, and so is the order of the events.
  `sent` and `connected` first bring the pcb to what lwIP made of it before the callback.

  A handler is one piece here. Where `on_err` can divide one of the io thread's is in `Sections`.
-/
import Ovpn2ss.Tcp.Session
import Ovpn2ss.Lib.Machine

namespace Ovpn2ss.Tcp

open Ovpn2ss.Aead Ovpn2ss.Lib Ovpn2ss.Lwip

/-- The completion of an `async_read_some`. -/
inductive ReadResult where
  | data (bytes : Bytes)
  | eof
  | connectionReset
  | error

inductive Event where
  /-- The read of the salt completes, `none` with an error code. -/
  | saltRead (salt : Option Salt)
  | clientRead (result : ReadResult)
  /-- The oldest write completes, with or without an error code. -/
  | clientWrote (ok : Bool)
  | resolved (err : ErrT) (ip : Option IpAddr)
  | connected (err : ErrT) (queuelen : Nat)
  | recv (p : Option Bytes) (err : ErrT) (rng : Option Salt)
  /-- An ACK of `acked` new bytes leaves `queuelen` buffers in the send queue. -/
  | sent (acked queuelen : Nat)
  | err (err : ErrT)

/-- An event and what lwIP answers to the calls its handler makes. -/
structure Input where
  event : Event
  lw : Answers

/-- The states in which lwIP passes data and ACKs up. -/
def synchronised : TcpState → Bool
  | .ESTABLISHED | .FIN_WAIT_1 | .FIN_WAIT_2 => true
  | _ => false

/-- A read returns at most what fits `read_buf_`, and at least one byte unless it fails. -/
def ReadResult.possible : ReadResult → Bool
  | .data bytes => decide (0 < bytes.length ∧ bytes.length ≤ ReadBufSize)
  | _ => true

/-- A data pbuf is not empty and its `tot_len` has 16 bits. -/
def pbufPossible : Option Bytes → Bool
  | some bytes => decide (0 < bytes.length ∧ bytes.length ≤ 0xffff)
  | none => true

namespace TcpRelaySession

/-- Somebody holds a `shared_ptr` to the session: `weak.lock()` succeeds. -/
def alive (s : TcpRelaySession) : Bool :=
  s.activeSelf || s.saltPending || decide (0 < s.reads) || !s.writes.isEmpty

variable (P : Platform)

/-- The handler of `async_read_some`. -/
def onClientRead (lw : Answers) (s : TcpRelaySession) : ReadResult → TcpRelaySession
  | .data bytes => s.onClientData P lw bytes
  | .eof => s.handleClientEof lw
  | .connectionReset => s.handleClientEof lw
  | .error => s.close lw

def step (s : TcpRelaySession) (i : Input) : Option TcpRelaySession :=
  match i.event with
  | .saltRead salt =>
    if s.saltPending then some ({ s with saltPending := false }.onSaltRead P i.lw salt) else none
  | .clientRead result =>
    if 0 < s.reads ∧ result.possible then
      some ({ s with reads := s.reads - 1 }.onClientRead P i.lw result)
    else none
  | .clientWrote ok =>
    match s.writes with
    | [] => none
    | buf :: writes => some ({ s with writes := writes }.onClientWrote i.lw buf ok)
  | .resolved err ip =>
    match s.resolving with
    | none => none
    | some port =>
      let s := { s with resolving := none }
      some (if s.alive then s.onResolved i.lw err ip port else s)
  | .connected err queuelen =>
    match s.pcb with
    | none => none
    | some pcb =>
      if pcb.state = .SYN_SENT then
        let pcb := { pcb with state := .ESTABLISHED, sndQueuelen := queuelen }
        some ({ s with pcb := some pcb }.onConnected i.lw err)
      else none
  | .recv p err rng =>
    match s.pcb with
    | none => none
    | some pcb =>
      if synchronised pcb.state ∧ pbufPossible p then some (s.onRecv P i.lw p err rng) else none
  | .sent acked queuelen =>
    match s.pcb with
    | none => none
    | some pcb =>
      if synchronised pcb.state ∧ pcb.sndBuf + acked ≤ TCP_SND_BUF then
        let pcb := { pcb with sndBuf := pcb.sndBuf + acked, sndQueuelen := queuelen }
        some ({ s with pcb := some pcb }.onSent i.lw)
      else none
  | .err _ => if s.pcb.isSome then some s.onErr else none

/-- What a step can do, one constructor for each handler that can run. -/
inductive Fires : TcpRelaySession → Input → TcpRelaySession → Prop
  | saltRead {s : TcpRelaySession} {lw : Answers} {salt : Option Salt} (h : s.saltPending = true) :
      Fires s ⟨.saltRead salt, lw⟩ ({ s with saltPending := false }.onSaltRead P lw salt)
  | clientData {s : TcpRelaySession} {lw : Answers} {bytes : Bytes} (h : 0 < s.reads)
      (h0 : 0 < bytes.length) (hn : bytes.length ≤ ReadBufSize) :
      Fires s ⟨.clientRead (.data bytes), lw⟩
        ({ s with reads := s.reads - 1 }.onClientData P lw bytes)
  | clientEof {s : TcpRelaySession} {lw : Answers} {r : ReadResult} (h : 0 < s.reads)
      (hr : r = .eof ∨ r = .connectionReset) :
      Fires s ⟨.clientRead r, lw⟩ ({ s with reads := s.reads - 1 }.handleClientEof lw)
  | clientError {s : TcpRelaySession} {lw : Answers} (h : 0 < s.reads) :
      Fires s ⟨.clientRead .error, lw⟩ ({ s with reads := s.reads - 1 }.close lw)
  | clientWrote {s : TcpRelaySession} {lw : Answers} {ok : Bool} {buf : Bytes} {writes : List Bytes}
      (h : s.writes = buf :: writes) :
      Fires s ⟨.clientWrote ok, lw⟩ ({ s with writes := writes }.onClientWrote lw buf ok)
  | resolved {s : TcpRelaySession} {lw : Answers} {err : ErrT} {ip : Option IpAddr} {port : Nat}
      (h : s.resolving = some port) :
      Fires s ⟨.resolved err ip, lw⟩ ({ s with resolving := none }.onResolved lw err ip port)
  | unheard {s : TcpRelaySession} {lw : Answers} {err : ErrT} {ip : Option IpAddr} {port : Nat}
      (h : s.resolving = some port) (hdead : s.alive = false) :
      Fires s ⟨.resolved err ip, lw⟩ { s with resolving := none }
  | connected {s : TcpRelaySession} {lw : Answers} {err : ErrT} {queuelen : Nat} {pcb : TcpPcb}
      (h : s.pcb = some pcb) (hst : pcb.state = .SYN_SENT) :
      Fires s ⟨.connected err queuelen, lw⟩
        ({ s with pcb := some { pcb with state := .ESTABLISHED, sndQueuelen := queuelen } }.onConnected
          lw err)
  | recvError {s : TcpRelaySession} {lw : Answers} {p : Option Bytes} {err : ErrT}
      {rng : Option Salt} {pcb : TcpPcb} (h : s.pcb = some pcb) (herr : err ≠ .ERR_OK) :
      Fires s ⟨.recv p err rng, lw⟩ (s.close lw)
  | remoteFin {s : TcpRelaySession} {lw : Answers} {rng : Option Salt} {pcb : TcpPcb}
      (h : s.pcb = some pcb) (hst : synchronised pcb.state = true) :
      Fires s ⟨.recv none .ERR_OK rng, lw⟩ (s.handleRemoteFin lw)
  | recvData {s : TcpRelaySession} {lw : Answers} {bytes : Bytes} {rng : Option Salt} {pcb : TcpPcb}
      (h : s.pcb = some pcb) (hst : synchronised pcb.state = true) (h0 : 0 < bytes.length)
      (hn : bytes.length ≤ 0xffff) :
      Fires s ⟨.recv (some bytes) .ERR_OK rng, lw⟩ (s.onRecv P lw (some bytes) .ERR_OK rng)
  | sent {s : TcpRelaySession} {lw : Answers} {acked queuelen : Nat} {pcb : TcpPcb}
      (h : s.pcb = some pcb) (hst : synchronised pcb.state = true)
      (hack : pcb.sndBuf + acked ≤ TCP_SND_BUF) :
      Fires s ⟨.sent acked queuelen, lw⟩
        ({ s with pcb := some { pcb with sndBuf := pcb.sndBuf + acked,
                                          sndQueuelen := queuelen } }.onSent lw)
  | err {s : TcpRelaySession} {lw : Answers} {e : ErrT} {pcb : TcpPcb} (h : s.pcb = some pcb) :
      Fires s ⟨.err e, lw⟩ s.onErr

variable {P}

/-- The inversion of `step`. -/
theorem fires_of_step {s s' : TcpRelaySession} {i : Input} (h : s.step P i = some s') :
    Fires P s i s' := by
  obtain ⟨event, lw⟩ := i
  cases event with
  | saltRead salt =>
    simp only [step] at h
    split at h
    · obtain rfl := Option.some.inj h
      exact .saltRead ‹_›
    · cases h
  | clientRead result =>
    simp only [step] at h
    split at h
    · rename_i hpos
      obtain rfl := Option.some.inj h
      cases result with
      | data bytes =>
        have hb := of_decide_eq_true hpos.2
        exact .clientData hpos.1 hb.1 hb.2
      | eof => exact .clientEof hpos.1 (Or.inl rfl)
      | connectionReset => exact .clientEof hpos.1 (Or.inr rfl)
      | error => exact .clientError hpos.1
    · cases h
  | clientWrote ok =>
    simp only [step] at h
    split at h
    · cases h
    · obtain rfl := Option.some.inj h
      exact .clientWrote ‹_›
  | resolved err ip =>
    simp only [step] at h
    split at h
    · cases h
    · rename_i port hport
      obtain rfl := Option.some.inj h
      split
      · exact .resolved hport
      · rename_i hdead
        exact .unheard hport (Bool.eq_false_iff.mpr hdead)
  | connected err queuelen =>
    simp only [step] at h
    split at h
    · cases h
    · split at h
      · obtain rfl := Option.some.inj h
        exact .connected ‹_› ‹_›
      · cases h
  | recv p err rng =>
    simp only [step] at h
    split at h
    · cases h
    · rename_i pcb hpcb
      split at h
      · rename_i hok
        obtain rfl := Option.some.inj h
        by_cases herr : err = .ERR_OK
        · subst herr
          cases p with
          | none => exact .remoteFin hpcb hok.1
          | some bytes =>
            have hb := of_decide_eq_true hok.2
            exact .recvData hpcb hok.1 hb.1 hb.2
        · unfold onRecv
          rw [if_pos herr]
          exact .recvError hpcb herr
      · cases h
  | sent acked queuelen =>
    simp only [step] at h
    split at h
    · cases h
    · split at h
      · rename_i hok
        obtain rfl := Option.some.inj h
        exact .sent ‹_› hok.1 hok.2
      · cases h
  | err e =>
    simp only [step] at h
    split at h
    · rename_i hsome
      obtain rfl := Option.some.inj h
      obtain ⟨pcb, hpcb⟩ := Option.isSome_iff_exists.mp hsome
      exact .err hpcb
    · cases h

variable (P)

/-- `s` is reached from the start of a session by the events `is`. -/
def Reaches (crypto : ShadowsocksAeadSession) (is : List Input) (s : TcpRelaySession) : Prop :=
  run (step P) (start crypto) is = some s

end TcpRelaySession

end Ovpn2ss.Tcp
