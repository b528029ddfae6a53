/-
  What the relay sees of lwIP's TCP (`third_party/lwip/src/core/tcp*.c`, `lwipopts.h`), and the two
  copies between its own buffers and a pbuf (`pbuf.c`).

  A `TcpPcb` keeps the three fields the relay reads: the connection state, the free send
  buffer and the length of the send queue. What lwIP answers to the calls of one event is
  `Answers`: it is left free, since it depends on memory, the peer and the other connections of
  the stack. `tcp_write` follows the accounting of `tcp_out.c`: on `ERR_OK` the data is taken
  and the send buffer shrinks by its size, on any other result the pcb is unchanged.
-/
import Ovpn2ss.Aead.Basic

namespace Ovpn2ss.Lwip

/-- `err_t` (`lwip/err.h`). -/
inductive ErrT where
  | ERR_OK
  | ERR_MEM
  | ERR_BUF
  | ERR_TIMEOUT
  | ERR_RTE
  | ERR_INPROGRESS
  | ERR_VAL
  | ERR_WOULDBLOCK
  | ERR_USE
  | ERR_ALREADY
  | ERR_ISCONN
  | ERR_CONN
  | ERR_IF
  | ERR_ABRT
  | ERR_RST
  | ERR_CLSD
  | ERR_ARG
  deriving DecidableEq

/-- `enum tcp_state` (`lwip/tcpbase.h`). -/
inductive TcpState where
  | CLOSED
  | LISTEN
  | SYN_SENT
  | SYN_RCVD
  | ESTABLISHED
  | FIN_WAIT_1
  | FIN_WAIT_2
  | CLOSE_WAIT
  | CLOSING
  | LAST_ACK
  | TIME_WAIT
  deriving DecidableEq

/-- `ip_addr_t`. -/
structure IpAddr where
  v6 : Bool
  bytes : Bytes
  deriving DecidableEq

def TCP_MSS : Nat := 1360
def TCP_SND_BUF : Nat := 32 * TCP_MSS
def TCP_SND_QUEUELEN : Nat := 8 * TCP_SND_BUF / TCP_MSS

structure TcpPcb where
  state : TcpState
  sndBuf : Nat
  sndQueuelen : Nat
  deriving DecidableEq

/-- `tcp_new_ip_type`: closed, an empty queue and the whole send buffer. -/
def tcpNew : TcpPcb := ⟨.CLOSED, TCP_SND_BUF, 0⟩

/-- `tcp_sndbuf`, capped at 16 bits. -/
def tcpSndbuf (pcb : TcpPcb) : Nat := min pcb.sndBuf 0xffff

def tcpSndqueuelen (pcb : TcpPcb) : Nat := pcb.sndQueuelen

/-- What lwIP and the runtime answer during one event. -/
structure Answers where
  /-- `tcp_new_pcb()` is not null. -/
  newPcb : Bool
  /-- `tcp_connect`. -/
  connect : ErrT
  /-- `tcp_write`, with the queue length it leaves on success. -/
  write : TcpPcb → Bytes → ErrT × Nat
  /-- `tcp_shutdown(pcb, 0, 1)`, and whether the FIN could be queued at once: without memory
      for it lwIP reports success and retries from its timer. -/
  shutdown : ErrT × Bool
  /-- `tcp_close`. -/
  close : ErrT
  /-- The message of the exception `async_resolve` leaves by, if it does. -/
  resolveThrows : Option String

/-- `tcp_write(pcb, data, len, TCP_WRITE_FLAG_COPY)`. -/
def tcpWrite (lw : Answers) (pcb : TcpPcb) (data : Bytes) : ErrT × TcpPcb :=
  match lw.write pcb data with
  | (.ERR_OK, queuelen) =>
    (.ERR_OK, { pcb with sndBuf := pcb.sndBuf - data.length, sndQueuelen := queuelen })
  | (err, _) => (err, pcb)

/-- The pcb after a successful `tcp_connect`: the SYN is queued. -/
def synSent : TcpPcb := { tcpNew with state := .SYN_SENT, sndQueuelen := 1 }

/-- The states in which `tcp_shutdown` of the send side sends a FIN. -/
def TcpState.canShutdown : TcpState → Bool
  | .SYN_RCVD | .ESTABLISHED | .CLOSE_WAIT => true
  | _ => false

/-- The state after the FIN of `tcp_shutdown` has been queued. -/
def TcpState.afterFin : TcpState → TcpState
  | .SYN_RCVD | .ESTABLISHED => .FIN_WAIT_1
  | .CLOSE_WAIT => .LAST_ACK
  | st => st

/-! ## Pbufs -/

/-- `pbuf_copy_partial` of a whole pbuf into a `PacketBuffer` made for it, `none` if it aborts:
    `LWIP_ERROR` asserts that the destination is not null, the build has no `LWIP_NOASSERT`, and the
    `data()` of an empty vector is null. -/
def pbufCopyPartial (p : Bytes) : Option Bytes := if p = [] then none else some p

/-- `pbuf_take` of the first `u16_t` many bytes of `payload`, whose `data()` may be null; `none` if it
    aborts on the same assertion. -/
def pbufTake (isNull : Bool) (payload : Bytes) : Option Bytes :=
  if isNull then none else some (payload.take (payload.length % 65536))

theorem pbufCopyPartial_eq_some {p bytes : Bytes} :
    pbufCopyPartial p = some bytes ↔ p ≠ [] ∧ p = bytes := by
  unfold pbufCopyPartial
  split <;> simp_all

theorem tcpWrite_state (lw : Answers) (pcb : TcpPcb) (data : Bytes) :
    (tcpWrite lw pcb data).2.state = pcb.state := by
  unfold tcpWrite
  split <;> rfl

end Ovpn2ss.Lwip
