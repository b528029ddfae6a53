/-
  The TCP relay session (`src/TcpRelaySession.cpp`): the members as functions on its state.

  `TcpRelaySession` has the fields of the class and, besides them, what a run of the program
  leaves elsewhere: the asynchronous operations that are outstanding (`saltPending`, `reads`,
  `writes`, `resolving`) and the `trace` of the calls made on the two connections and of the
  payload taken from each side. No function reads the trace.

  An exception is an `Except` result with the state it leaves behind: `encrypted_in_`, the
  queues and the flags keep what was stored before the throw. The lwIP lock, `tcp_output`, the
  callback registrations and the log lines have no effect that a function of the session
  reads. A handler that releases `active_self_` runs to its end on the values it finds.
-/
import Ovpn2ss.Address
import Ovpn2ss.Lib.Drain
import Ovpn2ss.Lwip.Tcp

namespace Ovpn2ss.Tcp

open Ovpn2ss.Aead Ovpn2ss.Lib Ovpn2ss.Lwip

def ClientQueueHighWater : Nat := 1 <<< 20
def ClientQueueLowWater : Nat := 256 <<< 10
def LwipSndLowWater : Nat := 8 * TCP_MSS
def LwipSndQueueHighWater : Nat := TCP_SND_QUEUELEN * 3 / 4

/-- The size of `read_buf_`. -/
def ReadBufSize : Nat := 8192

/-- The libraries below the session. -/
structure Platform where
  mbedtls : Mbedtls
  /-- `ipaddr_aton`, `none` when it returns 0. -/
  ipaddrAton : Bytes → Option IpAddr

/-- What a session does to the outside, and the payload it takes from either side. -/
inductive Action where
  | asyncReadSome
  | accept (payload : Bytes)
  | asyncResolve (host : Bytes) (port : Nat)
  | tcpConnect (ip : IpAddr) (port : Nat)
  | tcpWrite (data : Bytes)
  | tcpShutdown
  | tcpClose
  | tcpAbort
  | received (payload : Bytes)
  | tcpRecved (len : Nat)
  | asyncWrite (buf : Bytes)
  | wrote (buf : Bytes)
  | shutdownSend
  | socketClose
  deriving DecidableEq

structure TcpRelaySession where
  crypto : ShadowsocksAeadSession
  activeSelf : Bool
  pcb : Option TcpPcb
  encryptedIn : Bytes
  pendingLwip : List Bytes
  pendingClient : List Bytes
  clientQueueBytes : Nat
  deferredTcpRecved : Nat
  gotTarget : Bool
  sentResponseSalt : Bool
  clientReadPaused : Bool
  writingClient : Bool
  clientEof : Bool
  remoteEof : Bool
  closing : Bool
  /-- The `async_read` of the salt is outstanding. -/
  saltPending : Bool
  /-- The number of outstanding `async_read_some`. -/
  reads : Nat
  /-- The buffers of the outstanding `async_write`s, oldest first. -/
  writes : List Bytes
  /-- The port of the outstanding `async_resolve`. -/
  resolving : Option Nat
  trace : List Action
  deriving DecidableEq

namespace TcpRelaySession

/-- The constructor and `start`: the read of the salt is outstanding. -/
def start (crypto : ShadowsocksAeadSession) : TcpRelaySession where
  crypto := crypto
  activeSelf := false
  pcb := none
  encryptedIn := []
  pendingLwip := []
  pendingClient := []
  clientQueueBytes := 0
  deferredTcpRecved := 0
  gotTarget := false
  sentResponseSalt := false
  clientReadPaused := false
  writingClient := false
  clientEof := false
  remoteEof := false
  closing := false
  saltPending := true
  reads := 0
  writes := []
  resolving := none
  trace := []

def log (s : TcpRelaySession) (a : Action) : TcpRelaySession := { s with trace := s.trace ++ [a] }

/-! ## Ending the session -/

/-- `tcp_close(pcb_)`, `tcp_abort(pcb_)` if that fails, `pcb_ = nullptr`. -/
def closePcb (lw : Answers) (s : TcpRelaySession) : TcpRelaySession :=
  match s.pcb with
  | none => s
  | some _ =>
    let s := s.log .tcpClose
    let s := if lw.close ≠ .ERR_OK then s.log .tcpAbort else s
    { s with pcb := none }

/-- `tcp_abort(pcb_)`, `pcb_ = nullptr`, `release_active_self()`. -/
def abortPcb (s : TcpRelaySession) : TcpRelaySession :=
  { s.log .tcpAbort with pcb := none, activeSelf := false }

def close (lw : Answers) (s : TcpRelaySession) : TcpRelaySession :=
  if s.closing then s
  else
    let s := { s with closing := true }.log .socketClose
    { s.closePcb lw with activeSelf := false }

def closeClientOnly (s : TcpRelaySession) : TcpRelaySession :=
  let s := if s.closing then s else { s with closing := true }.log .socketClose
  { s with activeSelf := false }

/-- The block of `handle_client_eof` that holds the lock. -/
def shutdownPcb (lw : Answers) (s : TcpRelaySession) : TcpRelaySession :=
  match s.pcb with
  | none => s
  | some pcb =>
    if pcb.state.canShutdown then
      let s := s.log .tcpShutdown
      match lw.shutdown with
      | (.ERR_OK, queued) =>
        { s with pcb := some (if queued then { pcb with state := pcb.state.afterFin } else pcb) }
      | _ => s.abortPcb
    else s.abortPcb

def handleClientEof (lw : Answers) (s : TcpRelaySession) : TcpRelaySession :=
  let s := { s with clientEof := true }.shutdownPcb lw
  if s.remoteEof || s.pcb.isNone then s.close lw else s

/-- `handle_remote_fin`. Shutting down a socket that `close` has closed fails unnoticed. -/
def handleRemoteFin (lw : Answers) (s : TcpRelaySession) : TcpRelaySession :=
  let s := { s with remoteEof := true }
  let s := if s.closing then s else s.log .shutdownSend
  let s := if s.pcb.isSome then { s.closePcb lw with activeSelf := false } else s
  if s.clientEof then s.close lw else s

/-! ## Upstream: from the client to lwIP -/

def readEncryptedStream (s : TcpRelaySession) : TcpRelaySession :=
  if s.closing || s.clientReadPaused then s
  else { s.log .asyncReadSome with reads := s.reads + 1 }

/-- How the loop of `flush_to_lwip` ends. -/
inductive Stop where
  | drained
  | paused
  | failed
  deriving DecidableEq

/-- What the loop of `flush_to_lwip` leaves. -/
structure Flushed where
  written : List Bytes
  pcb : TcpPcb
  rest : List Bytes
  stop : Stop

/-- The length argument of `tcp_write` is `static_cast<u16_t>(pkt.size())`. -/
def u16Sized (pkt : Bytes) : Bytes := pkt.take (pkt.length % 65536)

/-- The loop of `flush_to_lwip` over `pending_lwip_`. -/
def flushLoop (lw : Answers) : List Bytes → TcpPcb → Flushed
  | [], pcb => ⟨[], pcb, [], .drained⟩
  | pkt :: rest, pcb =>
    if tcpSndbuf pcb < pkt.length ∨ tcpSndbuf pcb < LwipSndLowWater ∨
        LwipSndQueueHighWater ≤ tcpSndqueuelen pcb then
      ⟨[], pcb, pkt :: rest, .paused⟩
    else
      match tcpWrite lw pcb (u16Sized pkt) with
      | (.ERR_OK, pcb) =>
        let f := flushLoop lw rest pcb
        { f with written := u16Sized pkt :: f.written }
      | (.ERR_MEM, pcb) => ⟨[], pcb, pkt :: rest, .paused⟩
      | (_, pcb) => ⟨[], pcb, pkt :: rest, .failed⟩

def flushToLwip (lw : Answers) (s : TcpRelaySession) : TcpRelaySession :=
  match s.pcb with
  | none => s
  | some pcb =>
    let f := flushLoop lw s.pendingLwip pcb
    let s := { s with pcb := some f.pcb, pendingLwip := f.rest,
                      trace := s.trace ++ f.written.map .tcpWrite }
    match f.stop with
    | .drained => s
    | .paused => { s with clientReadPaused := true }
    | .failed => s.close lw

/-- `connect_ip`. The callbacks are registered on the new pcb before `tcp_connect`. -/
def connectIp (lw : Answers) (s : TcpRelaySession) (ip : IpAddr) (port : Nat) : TcpRelaySession :=
  if lw.newPcb then
    let s := { s with pcb := some tcpNew, activeSelf := true }.log (.tcpConnect ip port)
    if lw.connect ≠ .ERR_OK then s.close lw else { s with pcb := some synSent }
  else
    { s with pcb := none }.close lw

/-- `resolve_domain_then_connect`. The handler may be left registered by a call that throws. -/
def resolveDomainThenConnect (lw : Answers) (s : TcpRelaySession) (target : TargetAddress) :
    Except String Unit × TcpRelaySession :=
  let s := { s with resolving := some target.port }.log (.asyncResolve target.host target.port)
  match lw.resolveThrows with
  | some message => (.error message, s)
  | none => (.ok (), s)

variable (P : Platform)

def connectTarget (lw : Answers) (s : TcpRelaySession) (target : TargetAddress) :
    Except String Unit × TcpRelaySession :=
  if target.type = .Domain then
    s.resolveDomainThenConnect lw target
  else
    match P.ipaddrAton target.host with
    | none => (.error ("invalid target IP: " ++ text target.host), s)
    | some ip => (.ok (), s.connectIp lw ip target.port)

/-- `pending_lwip_.emplace_back`, unless there is nothing to queue. -/
def queueLwip (s : TcpRelaySession) (bytes : Bytes) : TcpRelaySession :=
  if bytes.isEmpty then s
  else { s.log (.accept bytes) with pendingLwip := s.pendingLwip ++ [bytes] }

def processDecryptedChunk (lw : Answers) (s : TcpRelaySession) (chunk : Bytes) :
    Except String Unit × TcpRelaySession :=
  if s.gotTarget then (.ok (), s.queueLwip chunk)
  else
    match parseSsAddress chunk with
    | none => (.ok (), s.close lw)
    | some (target, bytes) =>
      match { s with gotTarget := true }.connectTarget P lw target with
      | (.error e, s) => (.error e, s)
      | (.ok (), s) => (.ok (), s.queueLwip bytes)

/-- One iteration of the read handler's loop: decrypt a chunk and process it. -/
def readChunk (lw : Answers) : Reader TcpRelaySession UInt8 Bytes String := fun s view =>
  match s.crypto.decryptTcpChunk P.mbedtls view with
  | (.error e, crypto, view) => (.error e, { s with crypto := crypto }, view)
  | (.ok none, crypto, view) => (.ok none, { s with crypto := crypto }, view)
  | (.ok (some chunk), crypto, view) =>
    match { s with crypto := crypto }.processDecryptedChunk P lw chunk with
    | (.error e, s) => (.error e, s, view)
    | (.ok (), s) => (.ok (some chunk), s, view)

/-- How the read handler ends, given what its loop leaves. -/
def endRead (lw : Answers) (d : Drained TcpRelaySession UInt8 Bytes String) : TcpRelaySession :=
  match d.error with
  | some _ => d.state.close lw
  | none =>
    let s := d.state
    let consumed := s.encryptedIn.length - d.rest.length
    let s := if consumed ≠ 0 then { s with encryptedIn := d.rest } else s
    (s.flushToLwip lw).readEncryptedStream

/-- The read handler on `n > 0` bytes. -/
def onClientData (lw : Answers) (s : TcpRelaySession) (bytes : Bytes) : TcpRelaySession :=
  let s := { s with encryptedIn := s.encryptedIn ++ bytes }
  endRead lw (drainAll (readChunk P lw) s s.encryptedIn)

def maybeResumeClientRead (lw : Answers) (s : TcpRelaySession) : TcpRelaySession :=
  match s.pcb with
  | none => s
  | some pcb =>
    if !s.clientReadPaused || decide (tcpSndbuf pcb < LwipSndLowWater) then s
    else ({ s with clientReadPaused := false }.flushToLwip lw).readEncryptedStream

/-- The handler of `read_salt`. -/
def onSaltRead (lw : Answers) (s : TcpRelaySession) : Option Salt → TcpRelaySession
  | none => s.close lw
  | some salt =>
    match s.crypto.setClientSalt P.mbedtls salt.val with
    | (.error _, crypto) => { s with crypto := crypto }.close lw
    | (.ok (), crypto) => { s with crypto := crypto }.readEncryptedStream

/-! ## Downstream: from lwIP to the client -/

def flushToClient (s : TcpRelaySession) : TcpRelaySession :=
  match s.pendingClient with
  | [] => s
  | front :: _ =>
    if s.writingClient then s
    else { s.log (.asyncWrite front) with writingClient := true, writes := s.writes ++ [front] }

/-- `client_queue_bytes_ += buf.size()` and `pending_client_.push_back(buf)`. -/
def pushClient (s : TcpRelaySession) (buf : Bytes) : TcpRelaySession :=
  { s with clientQueueBytes := s.clientQueueBytes + buf.length,
           pendingClient := s.pendingClient ++ [buf] }

/-- The response salt, queued before the first chunk. -/
def queueSalt (s : TcpRelaySession) (rng : Option Salt) : Except String Unit × TcpRelaySession :=
  if s.sentResponseSalt then (.ok (), s)
  else
    match s.crypto.clientSalt P.mbedtls rng with
    | (.error e, crypto) => (.error e, { s with crypto := crypto })
    | (.ok salt, crypto) =>
      (.ok (), { { s with crypto := crypto }.pushClient salt with sentResponseSalt := true })

def enqueueClientPayload (s : TcpRelaySession) (rng : Option Salt) (bytes : Bytes) :
    Except String Unit × TcpRelaySession :=
  if bytes.isEmpty then (.ok (), s)
  else
    match s.queueSalt P rng with
    | (.error e, s) => (.error e, s)
    | (.ok (), s) =>
      match s.crypto.encryptTcpChunk P.mbedtls bytes with
      | (.error e, crypto) => (.error e, { s with crypto := crypto })
      | (.ok encrypted, crypto) =>
        (.ok (), ({ s with crypto := crypto }.pushClient encrypted).flushToClient)

/-- `on_recv`. `p` is the content of the pbuf, `none` the null pbuf of a FIN. -/
def onRecv (lw : Answers) (s : TcpRelaySession) (p : Option Bytes) (err : ErrT)
    (rng : Option Salt) : TcpRelaySession :=
  if err ≠ .ERR_OK then s.close lw
  else
    match p with
    | none => s.handleRemoteFin lw
    | some bytes =>
      match (s.log (.received bytes)).enqueueClientPayload P rng bytes with
      | (.error _, s) => s.close lw
      | (.ok (), s) =>
        if ClientQueueHighWater < s.clientQueueBytes then
          { s with deferredTcpRecved := s.deferredTcpRecved + bytes.length }
        else s.log (.tcpRecved bytes.length)

/-- Subtraction of `std::size_t`. -/
def sizeSub (a b : Nat) : Nat := if b ≤ a then a - b else 2 ^ 64 + a - b

/-- The loop that credits `deferred_tcp_recved_` in steps of 16 bits, and what is left. -/
def creditLoop : Nat → Nat → List Nat × Nat
  | 0, deferred => ([], deferred)
  | fuel + 1, deferred =>
    if deferred ≠ 0 then
      let nrecved := min deferred 0xffff
      let r := creditLoop fuel (deferred - nrecved)
      (nrecved :: r.1, r.2)
    else ([], deferred)

/-- The release of a withheld window. Every step credits at least one byte. -/
def creditDeferred (s : TcpRelaySession) : TcpRelaySession :=
  if s.pcb.isSome ∧ s.clientQueueBytes < ClientQueueLowWater ∧ s.deferredTcpRecved ≠ 0 then
    let r := creditLoop s.deferredTcpRecved s.deferredTcpRecved
    { s with deferredTcpRecved := r.2, trace := s.trace ++ r.1.map .tcpRecved }
  else s

/-- `client_queue_bytes_ -= n` and `pending_client_.pop_front()`. -/
def popClient (s : TcpRelaySession) (buf : Bytes) : TcpRelaySession :=
  { s.log (.wrote buf) with
    clientQueueBytes := sizeSub s.clientQueueBytes buf.length,
    pendingClient := s.pendingClient.tail }

/-- The handler of the write of `buf`; `ok` when there is no error code. -/
def onClientWrote (lw : Answers) (s : TcpRelaySession) (buf : Bytes) (ok : Bool) :
    TcpRelaySession :=
  let s := { s with writingClient := false }
  if !ok then s.close lw else (s.popClient buf).creditDeferred.flushToClient

/-! ## The other callbacks -/

/-- The handler of `async_resolve`. -/
def onResolved (lw : Answers) (s : TcpRelaySession) (err : ErrT) (ip : Option IpAddr)
    (port : Nat) : TcpRelaySession :=
  match ip with
  | none => s.close lw
  | some ip => if err ≠ .ERR_OK || s.closing then s.close lw else s.connectIp lw ip port

def onConnected (lw : Answers) (s : TcpRelaySession) (err : ErrT) : TcpRelaySession :=
  if err ≠ .ERR_OK then s.close lw else s.flushToLwip lw

def onSent (lw : Answers) (s : TcpRelaySession) : TcpRelaySession := s.maybeResumeClientRead lw

def onErr (s : TcpRelaySession) : TcpRelaySession := { s with pcb := none }.closeClientOnly

end TcpRelaySession

end Ovpn2ss.Tcp
