/-
  The mutexes and who takes them (`src/LwipRuntime.cpp`, `src/OpenVpnClient.cpp`).

  There is the recursive mutex of the lwIP stack, which all instances share, and for each client
  `impl_mutex_`, the mutex of its `CoreClient` and `handler_mutex_`. A definition below is what a
  function does with them, including what it calls while it holds one. The handlers of a client are
  called after `handler_mutex_` is given back, and they only post. Work of lwIP is done with the mutex of
  the stack; its callbacks take that again, and since the timeouts of the stack are those of all
  instances it may send packets through any of them.

  The threads are the main thread and two for each instance, the io thread and the VPN thread. Whatever
  they call and however they are interleaved, all of them can get on (`no_deadlock`): a packet on its way
  to OpenVPN takes the mutexes in the order stack, `impl_mutex_`, core, an event of OpenVPN takes core
  before `handler_mutex_`, and nothing takes them the other way round. What OpenVPN does with mutexes of
  its own is left out.
-/
import Ovpn2ss.Lib.Locks

namespace Ovpn2ss.Locking

open Ovpn2ss.Lib Ovpn2ss.Lib.Locks

inductive Mutex where
  /-- `LwipRuntime::global_mutex()`. -/
  | stack
  /-- `OpenVpnClient::impl_mutex_`. -/
  | impl (client : Nat)
  /-- `CoreClient::mutex`. -/
  | core (client : Nat)
  /-- `OpenVpnClient::handler_mutex_`. -/
  | handler (client : Nat)
  deriving DecidableEq

def Mutex.recursive : Mutex → Bool
  | .stack => true
  | _ => false

/-! ## What the functions take -/

/-- `CoreClient::inject_l3_packet`, which reads the tun client under the mutex. -/
def injectL3Packet (client : Nat) : List (Op Mutex) := locked (.core client) []

/-- `OpenVpnClient::send_l3_packet`. -/
def sendL3Packet (client : Nat) : List (Op Mutex) := locked (.impl client) (injectL3Packet client)

/-- `LwipRuntime::emit_packet`, with `OpenVpnTunBuilder::send_from_lwip` as the output. -/
def emitPacket (client : Nat) : List (Op Mutex) := locked .stack (sendL3Packet client)

/-- What is done in lwIP and in its callbacks. -/
inductive Work where
  | nothing
  | emit (client : Nat)
  /-- A callback, or `stop()` after a timeout threw, takes the stack again. -/
  | acquireStack (body : Work)
  | andThen (first second : Work)

def Work.ops : Work → List (Op Mutex)
  | .nothing => []
  | .emit client => emitPacket client
  | .acquireStack body => locked .stack body.ops
  | .andThen first second => first.ops ++ second.ops

/-- `notify_tun_ready` and `notify_tun_down`. -/
def notifyTun (client : Nat) : List (Op Mutex) := locked (.handler client) []

/-- `tun_start`: `tun_builder_establish` and `notify_tun_ready`. -/
def tunStart (client : Nat) (establish : Work) : List (Op Mutex) :=
  locked .stack establish.ops ++ notifyTun client

/-- `MemoryTunClient::stop`: `tun_builder_teardown` and `notify_tun_down`. -/
def tunStop (client : Nat) : List (Op Mutex) := locked .stack [] ++ notifyTun client

/-- `CoreClient::event` with a `DISCONNECTED`. -/
def event (client : Nat) : List (Op Mutex) := locked (.core client) (notifyTun client)

/-- What a thread does next, of all that takes a mutex. -/
inductive Call where
  /-- The sessions, the resolver, the timer, `inject_l3_packet`, the construction, `stop()` and the
      destruction of a runtime. -/
  | lwip (work : Work)
  /-- `set_ready_handler` or `set_disconnect_handler`. -/
  | setHandler (client : Nat)
  /-- `OpenVpnClient::stop`. -/
  | stop (client : Nat)
  /-- The connect loop replaces `impl_`. -/
  | resetImpl (client : Nat)
  /-- `new_tun_client_obj`, with `set_memory_tun`. -/
  | newTunClientObj (client : Nat)
  | tunStart (client : Nat) (establish : Work)
  | tunStop (client : Nat)
  /-- `set_disconnect`. -/
  | setDisconnect (client : Nat)
  | event (client : Nat)

def Call.ops : Call → List (Op Mutex)
  | .lwip work => locked .stack work.ops
  | .setHandler client => locked (.handler client) []
  | .stop client => locked (.impl client) []
  | .resetImpl client => locked (.impl client) []
  | .newTunClientObj client => locked (.core client) []
  | .tunStart client establish => Locking.tunStart client establish
  | .tunStop client => Locking.tunStop client
  | .setDisconnect client => notifyTun client
  | .event client => Locking.event client

/-- Threads at the start of their calls. -/
def threads {ι : Type} (calls : ι → List Call) (i : ι) : Thread Mutex :=
  ⟨[], ((calls i).map Call.ops).flatten⟩

/-! ## The order -/

def Mutex.rank : Mutex → Nat
  | .stack => 0
  | .impl _ => 1
  | .core _ => 2
  | .handler _ => 3

section

variable {held : List Mutex}

/-- With nothing but the stack, any number of times, a packet can be sent. -/
theorem balanced_emitPacket (hstack : .stack ∈ held) (hheld : ∀ m ∈ held, m.rank = 0) (client : Nat) :
    Balanced Mutex.recursive Mutex.rank held (emitPacket client) := by
  have himpl : ∀ m ∈ .stack :: held, m.rank < (Mutex.impl client).rank :=
    List.forall_mem_cons.mpr ⟨Nat.zero_lt_one, fun m hm => (hheld m hm).trans_lt Nat.zero_lt_one⟩
  have hcore : ∀ m ∈ .impl client :: .stack :: held, m.rank < (Mutex.core client).rank :=
    List.forall_mem_cons.mpr ⟨Nat.one_lt_two, fun m hm => (himpl m hm).trans Nat.one_lt_two⟩
  exact .locked (Or.inl ⟨hstack, rfl⟩) (.locked (Or.inr himpl) (.locked (Or.inr hcore) .nil))

/-- The induction is on the work; taking the stack again only adds to how often it is held. -/
theorem balanced_work (work : Work) (hstack : .stack ∈ held) (hheld : ∀ m ∈ held, m.rank = 0) :
    Balanced Mutex.recursive Mutex.rank held work.ops := by
  induction work generalizing held with
  | nothing => exact .nil
  | emit client => exact balanced_emitPacket hstack hheld client
  | acquireStack body ih =>
    exact .locked (Or.inl ⟨hstack, rfl⟩) (ih List.mem_cons_self (List.forall_mem_cons.mpr ⟨rfl, hheld⟩))
  | andThen first second ih ih' => exact (ih hstack hheld).append (ih' hstack hheld)

end

/-- A mutex can be taken by a thread that holds none. -/
theorem above_nil (m : Mutex) : Above Mutex.recursive Mutex.rank [] m := Or.inr fun _ hm => (by cases hm)

theorem balanced_lwip (work : Work) : Balanced Mutex.recursive Mutex.rank [] (locked .stack work.ops) :=
  .locked (above_nil _) (balanced_work work List.mem_cons_self
    (List.forall_mem_cons.mpr ⟨rfl, fun _ hm => (by cases hm)⟩))

theorem balanced_alone (m : Mutex) : Balanced Mutex.recursive Mutex.rank [] (locked m []) :=
  .locked (above_nil m) .nil

theorem balanced_call (call : Call) : Balanced Mutex.recursive Mutex.rank [] call.ops := by
  cases call with
  | lwip work => exact balanced_lwip work
  | setHandler | stop | resetImpl | newTunClientObj | setDisconnect => exact balanced_alone _
  | tunStart client establish => exact (balanced_lwip establish).append (balanced_alone _)
  | tunStop client => exact (balanced_alone _).append (balanced_alone _)
  | event client =>
    refine .locked (above_nil _) (.locked (Or.inr ?_) .nil)
    exact List.forall_mem_cons.mpr ⟨Nat.lt_succ_self 2, fun _ hm => (by cases hm)⟩

/-- Any number of threads of any number of instances, each with any calls, interleaved in any way: from
    wherever they are, all of them can get to the ends of their calls. -/
theorem no_deadlock {ι : Type} [DecidableEq ι] [Fintype ι] {calls : ι → List Call} {is : List ι}
    {s : ι → Thread Mutex} (h : run (step Mutex.recursive) (threads calls) is = some s) :
    ∃ js t, run (step Mutex.recursive) s js = some t ∧ ∀ i, (t i).todo = [] := by
  have hstart : Sound Mutex.recursive Mutex.rank (threads calls) := by
    refine ⟨fun i j m hm => (by cases hm), fun i => ?_⟩
    have hcalls : Balanced Mutex.recursive Mutex.rank [] ((calls i).map Call.ops).flatten := by
      refine .flatten fun ops hops => ?_
      obtain ⟨call, -, rfl⟩ := List.mem_map.mp hops
      exact balanced_call call
    have hordered := hcalls [] rfl
    rwa [List.append_nil] at hordered
  have hsound : Sound Mutex.recursive Mutex.rank s :=
    run_inv (Sound Mutex.recursive Mutex.rank) (fun _ _ _ hI hs => sound_step hI hs) hstart h
  exact completes hsound

/-- The io thread of one instance sends a packet of another, whose VPN thread is in an event. -/
theorem no_deadlock_demo :
    ∃ s, run (step Mutex.recursive) (threads fun i : Fin 2 =>
        if i = 0 then [.lwip (.emit 1)] else [.event 1]) [0, 0, 1, 0] = some s ∧
      ∃ js t, run (step Mutex.recursive) s js = some t ∧ ∀ i, (t i).todo = [] := by
  obtain ⟨s, hs⟩ : ∃ s, run (step Mutex.recursive) (threads fun i : Fin 2 =>
      if i = 0 then [.lwip (.emit 1)] else [.event 1]) [0, 0, 1, 0] = some s := ⟨_, rfl⟩
  exact ⟨s, hs, no_deadlock hs⟩

end Ovpn2ss.Locking
