/-
  The way of a packet from lwIP to the VPN server (`emit_packet` of `src/LwipRuntime.cpp`,
  `send_from_lwip` of `src/OpenVpnTunBuilder.cpp`, `send_l3_packet`, `CoreClient` and
  `MemoryTunClient` of `src/OpenVpnClient.cpp`).

  Two threads take part. The VPN thread is inside `core.connect()`: OpenVPN makes tun clients,
  starts and stops them, and runs what was posted to its io_context. A packet that lwIP emits goes
  through the other steps on the thread that made lwIP emit it: `running_` is tested, the present
  tun client copied under `impl_mutex_`, its `connected` tested, and the packet posted; the VPN
  thread may do anything of its own between two of them. That thread holds the lock of the stack all
  the while, so at most one packet is on its way, and `tun_builder_establish` and `teardown`, which
  take the same lock, wait for it. So does the destruction of an `Impl` while `impl_mutex_` is held.

  What OpenVPN does when, and what it does with a packet, is left open. That a post to the io_context
  of a call of `connect()` that has returned is lost stands for whatever it does.
-/
import Ovpn2ss.Tun.Builder

namespace Ovpn2ss.Tun

open Ovpn2ss.Aead Ovpn2ss.Lib Ovpn2ss.Lwip

structure MemoryTunClient where
  connected : Bool
  /-- The call of `connect()` to whose io_context it posts. -/
  session : Nat
  deriving DecidableEq

/-- What comes next for the packet on its way. -/
inductive Sending where
  /-- `send_l3_packet` tests `running_`. -/
  | entering (packet : Bytes)
  /-- It takes `impl_mutex_` and copies `memory_tun`. -/
  | locating (packet : Bytes)
  /-- `inject_l3_packet` of the tun client tests `connected`. -/
  | located (tun : Nat) (packet : Bytes)
  /-- It posts. -/
  | posting (tun : Nat) (packet : Bytes)
  deriving DecidableEq

def Sending.packet : Sending → Bytes
  | .entering packet | .locating packet | .located _ packet | .posting _ packet => packet

/-- `impl_mutex_` is held. -/
def Sending.locksImpl : Sending → Bool
  | .located .. | .posting .. => true
  | _ => false

/-- The packet is for the tun client, if it is for any yet. -/
def Sending.Toward (tun : Nat) : Sending → Prop
  | .entering _ | .locating _ => True
  | .located other _ | .posting other _ => other = tun

/-- The steps until it is posted. -/
def Sending.stepsLeft : Sending → Nat
  | .entering _ => 4
  | .locating _ => 3
  | .located .. => 2
  | .posting .. => 1

inductive VpnThread where
  /-- Between two calls of OpenVPN. -/
  | between
  /-- In `tun_start`: the tunnel is established, `connected = true` comes next. -/
  | starting (tun : Nat)
  /-- In `stop`: `connected` is false, the teardown comes next. -/
  | stopping
  deriving DecidableEq

inductive LinkAct where
  | established (tun : Nat)
  /-- `connected` is set, and cleared. -/
  | up (tun : Nat)
  | down (tun : Nat)
  /-- `emit_packet` is called. -/
  | emitted (packet : Bytes)
  /-- `parent.tun_recv`. -/
  | tunRecv (tun : Nat) (packet : Bytes)
  deriving DecidableEq

structure Uplink where
  running : Bool
  builder : OpenVpnTunBuilder
  /-- The tun clients made so far. -/
  tuns : List MemoryTunClient
  /-- `memory_tun` of the present `Impl`. -/
  memoryTun : Option Nat
  /-- The calls of `connect()` so far. -/
  session : Nat
  /-- The last of them has not returned. -/
  connecting : Bool
  thread : VpnThread
  /-- What waits in its io_context. -/
  posted : List (Nat × Bytes)
  sending : Option Sending
  trace : List LinkAct

namespace Uplink

def new : Uplink where
  running := false
  builder := .new
  tuns := []
  memoryTun := none
  session := 0
  connecting := false
  thread := .between
  posted := []
  sending := none
  trace := []

def connected (s : Uplink) (tun : Nat) : Bool := (s.tuns[tun]?).any (·.connected)

/-- The tun client belongs to the present call of `connect()`. -/
def present (s : Uplink) (tun : Nat) : Bool :=
  s.connecting && (s.tuns[tun]?).any (·.session = s.session)

def setConnected (s : Uplink) (tun : Nat) (connected : Bool) : Uplink :=
  { s with
    tuns := s.tuns.modify tun fun t => { t with connected := connected }
    trace := s.trace ++ [if connected then .up tun else .down tun] }

/-- OpenVPN may call. -/
def free (s : Uplink) : Bool := s.connecting && s.thread = .between

/-- `emit_packet`. -/
def emitPacket (s : Uplink) (packet : Bytes) : Uplink :=
  { s with
    trace := s.trace ++ [.emitted packet]
    sending := if s.builder.lwip.packetOutput = .unset then none else some (.entering packet) }

/-- The next part of `send_l3_packet`. -/
def sendL3Packet (s : Uplink) : Sending → Uplink
  | .entering packet =>
    { s with sending := if !s.running || packet.isEmpty then none else some (.locating packet) }
  | .locating packet => { s with sending := s.memoryTun.map (.located · packet) }
  | .located tun packet =>
    { s with sending := if !s.connected tun || packet.isEmpty then none else some (.posting tun packet) }
  | .posting tun packet =>
    { s with
      sending := none
      posted := if s.present tun then s.posted ++ [(tun, packet)] else s.posted }

/-- A handler that `inject_l3_packet` has posted. -/
def runPosted (s : Uplink) (tun : Nat) (packet : Bytes) : Uplink :=
  if s.connected tun then { s with trace := s.trace ++ [.tunRecv tun packet] } else s

inductive Event where
  | clientStart
  | clientStop
  | connect
  | connectReturned
  /-- `impl_.reset(new Impl(*this))`. -/
  | resetImpl
  /-- `new_tun_client_obj`. -/
  | newTun
  /-- `tun_start` up to the return of `tun_builder_establish`. Without a configuration
      `configure_builder` throws. -/
  | tunStart (tun : Nat) (pushed : Option TunConfig)
  /-- The rest of it. -/
  | tunConnected
  /-- `stop` up to the teardown. -/
  | tunStop (tun : Nat)
  | teardown
  | setDisconnect (tun : Nat)
  /-- The event `DISCONNECTED`. -/
  | disconnected
  /-- The io_context runs the next handler. -/
  | runPosted
  | emit (packet : Bytes)
  | send

variable (ipaddrAton : Bytes → Option IpAddr)

def step (s : Uplink) : Event → Option Uplink
  | .clientStart => some { s with running := true }
  | .clientStop => some { s with running := false }
  | .connect =>
    if s.connecting then none
    else some { s with connecting := true, session := s.session + 1, posted := [] }
  | .connectReturned => if s.free then some { s with connecting := false, posted := [] } else none
  | .resetImpl =>
    if s.connecting || s.sending.any (·.locksImpl) then none else some { s with memoryTun := none }
  | .newTun =>
    if s.free then
      some { s with tuns := s.tuns ++ [⟨false, s.session⟩], memoryTun := some s.tuns.length }
    else none
  | .tunStart tun pushed =>
    if s.free && s.present tun && s.sending.isNone then
      match pushed with
      | none => some { s with builder := s.builder.tunBuilderNew }
      | some config =>
        match { s.builder.tunBuilderNew with pending := config }.tunBuilderEstablish ipaddrAton with
        | (0, b) =>
          some { s with builder := b, thread := .starting tun, trace := s.trace ++ [.established tun] }
        | (_, b) => some { s with builder := b }
    else none
  | .tunConnected =>
    match s.thread with
    | .starting tun => some { s.setConnected tun true with thread := .between }
    | _ => none
  | .tunStop tun =>
    if s.free && s.present tun then some { s.setConnected tun false with thread := .stopping }
    else none
  | .teardown =>
    if s.thread = .stopping && s.sending.isNone then
      some { s with builder := s.builder.tunBuilderTeardown, thread := .between }
    else none
  | .setDisconnect tun =>
    if s.free && s.present tun then some (s.setConnected tun false) else none
  | .disconnected => if s.free then some { s with memoryTun := none } else none
  | .runPosted =>
    match s.free, s.posted with
    | true, (tun, packet) :: posted => some ({ s with posted := posted }.runPosted tun packet)
    | _, _ => none
  | .emit packet => if s.sending.isNone then some (s.emitPacket packet) else none
  | .send => s.sending.map s.sendL3Packet

/-- What a step does, with the guard that let it happen. -/
inductive Fires : Uplink → Event → Uplink → Prop
  | client {s : Uplink} {e : Event} (running : Bool) (he : e = .clientStart ∨ e = .clientStop) :
      Fires s e { s with running := running }
  | connect {s : Uplink} (h : s.connecting = false) :
      Fires s .connect { s with connecting := true, session := s.session + 1, posted := [] }
  | returned {s : Uplink} (h : s.free = true) :
      Fires s .connectReturned { s with connecting := false, posted := [] }
  | forgot {s : Uplink} {e : Event} (he : e = .resetImpl ∨ e = .disconnected) :
      Fires s e { s with memoryTun := none }
  | newTun {s : Uplink} (h : s.free = true) :
      Fires s .newTun
        { s with tuns := s.tuns ++ [⟨false, s.session⟩], memoryTun := some s.tuns.length }
  | refused {s : Uplink} {tun : Nat} {pushed : Option TunConfig} (b : OpenVpnTunBuilder)
      (h : s.sending = none) : Fires s (.tunStart tun pushed) { s with builder := b }
  | established {s : Uplink} {tun : Nat} {config : TunConfig} (b : OpenVpnTunBuilder)
      (h : s.sending = none) (ht : s.thread = .between) :
      Fires s (.tunStart tun (some config))
        { s with builder := b, thread := .starting tun, trace := s.trace ++ [.established tun] }
  | up {s : Uplink} {tun : Nat} (h : s.thread = .starting tun) :
      Fires s .tunConnected { s.setConnected tun true with thread := .between }
  | stopped {s : Uplink} {tun : Nat} (h : s.free = true) :
      Fires s (.tunStop tun) { s.setConnected tun false with thread := .stopping }
  | tornDown {s : Uplink} (h : s.thread = .stopping) :
      Fires s .teardown { s with builder := s.builder.tunBuilderTeardown, thread := .between }
  | cut {s : Uplink} {tun : Nat} (h : s.free = true) :
      Fires s (.setDisconnect tun) (s.setConnected tun false)
  | handed {s : Uplink} {tun : Nat} {packet : Bytes} {posted : List (Nat × Bytes)}
      (h : s.posted = (tun, packet) :: posted) (hc : s.connected tun = true) :
      Fires s .runPosted
        { s with posted := posted, trace := s.trace ++ [.tunRecv tun packet] }
  | lost {s : Uplink} {tun : Nat} {packet : Bytes} {posted : List (Nat × Bytes)}
      (h : s.posted = (tun, packet) :: posted) (hc : s.connected tun = false) :
      Fires s .runPosted { s with posted := posted }
  | emit {s : Uplink} {packet : Bytes} (h : s.sending = none) :
      Fires s (.emit packet) (s.emitPacket packet)
  | send {s : Uplink} {x : Sending} (h : s.sending = some x) : Fires s .send (s.sendL3Packet x)

variable {ipaddrAton} {s s' : Uplink}

theorem between_of_free (h : s.free = true) : s.thread = .between := by
  simp only [free, Bool.and_eq_true, decide_eq_true_eq] at h
  exact h.2

/-- The inversion of `step`. -/
theorem fires_of_step {e : Event} (h : s.step ipaddrAton e = some s') : Fires s e s' := by
  cases e with
  | clientStart =>
    obtain rfl := Option.some.inj h
    exact .client true (Or.inl rfl)
  | clientStop =>
    obtain rfl := Option.some.inj h
    exact .client false (Or.inr rfl)
  | connect =>
    simp only [step] at h
    split at h
    · cases h
    · obtain rfl := Option.some.inj h
      exact .connect (Bool.eq_false_iff.mpr ‹_›)
  | connectReturned =>
    simp only [step] at h
    split at h
    · obtain rfl := Option.some.inj h
      exact .returned ‹_›
    · cases h
  | resetImpl =>
    simp only [step] at h
    split at h
    · cases h
    · obtain rfl := Option.some.inj h
      exact .forgot (Or.inl rfl)
  | newTun =>
    simp only [step] at h
    split at h
    · obtain rfl := Option.some.inj h
      exact .newTun ‹_›
    · cases h
  | tunStart tun pushed =>
    simp only [step] at h
    split at h
    · rename_i hg
      simp only [Bool.and_eq_true, Option.isNone_iff_eq_none] at hg
      split at h
      · obtain rfl := Option.some.inj h
        exact .refused _ hg.2
      · split at h
        · obtain rfl := Option.some.inj h
          exact .established _ hg.2 (between_of_free hg.1.1)
        · obtain rfl := Option.some.inj h
          exact .refused _ hg.2
    · cases h
  | tunConnected =>
    simp only [step] at h
    split at h
    · obtain rfl := Option.some.inj h
      exact .up ‹_›
    · cases h
  | tunStop tun =>
    simp only [step] at h
    split at h
    · rename_i hg
      obtain rfl := Option.some.inj h
      exact .stopped (Bool.and_eq_true_iff.mp hg).1
    · cases h
  | teardown =>
    simp only [step] at h
    split at h
    · rename_i hg
      obtain rfl := Option.some.inj h
      simp only [Bool.and_eq_true, decide_eq_true_eq] at hg
      exact .tornDown hg.1
    · cases h
  | setDisconnect tun =>
    simp only [step] at h
    split at h
    · rename_i hg
      obtain rfl := Option.some.inj h
      exact .cut (Bool.and_eq_true_iff.mp hg).1
    · cases h
  | disconnected =>
    simp only [step] at h
    split at h
    · obtain rfl := Option.some.inj h
      exact .forgot (Or.inr rfl)
    · cases h
  | runPosted =>
    simp only [step] at h
    split at h
    · rename_i tun packet posted hfree hposted
      obtain rfl := Option.some.inj h
      have hsame : ({ s with posted := posted } : Uplink).connected tun = s.connected tun := rfl
      unfold Uplink.runPosted
      rw [hsame]
      cases hc : s.connected tun with
      | true => exact .handed hposted hc
      | false => exact .lost hposted hc
    · cases h
  | emit packet =>
    simp only [step] at h
    split at h
    · obtain rfl := Option.some.inj h
      exact .emit (Option.isNone_iff_eq_none.mp ‹_›)
    · cases h
  | send =>
    obtain ⟨x, hx, rfl⟩ := Option.map_eq_some_iff.mp h
    exact .send hx

/-! ## In order -/

/-- The packets emitted, and those handed to OpenVPN with their tun client. -/
def emitted (trace : List LinkAct) : List Bytes :=
  trace.filterMap fun | .emitted packet => some packet | _ => none

def handed (trace : List LinkAct) : List (Nat × Bytes) :=
  trace.filterMap fun | .tunRecv tun packet => some (tun, packet) | _ => none

@[simp] theorem emitted_append (t u : List LinkAct) : emitted (t ++ u) = emitted t ++ emitted u :=
  List.filterMap_append

@[simp] theorem handed_append (t u : List LinkAct) : handed (t ++ u) = handed t ++ handed u :=
  List.filterMap_append

/-- The packets for the tun clients of `sel`. -/
def through (sel : Nat → Bool) (packets : List (Nat × Bytes)) : List Bytes :=
  (packets.filter fun p => sel p.1).map Prod.snd

@[simp] theorem through_append (sel : Nat → Bool) (l m : List (Nat × Bytes)) :
    through sel (l ++ m) = through sel l ++ through sel m := by
  rw [through, List.filter_append, List.map_append, through, through]

theorem through_cons (sel : Nat → Bool) (p : Nat × Bytes) (l : List (Nat × Bytes)) :
    through sel (p :: l) = through sel [p] ++ through sel l := through_append sel [p] l

theorem through_single_sublist (sel : Nat → Bool) (p : Nat × Bytes) :
    (through sel [p]).Sublist [p.2] :=
  List.filter_sublist.map Prod.snd

theorem through_sublist (sel : Nat → Bool) {l m : List (Nat × Bytes)} (h : l.Sublist m) :
    (through sel l).Sublist (through sel m) :=
  (h.filter _).map _

/-- The packet on its way. -/
def onItsWay (s : Uplink) : List Bytes := s.sending.toList.map Sending.packet

/-- Since `pre`, a packet that was emitted is handed over, posted, on its way, or gone, in the order
    of emission; the tun clients of `sel` get no other. -/
def Carries (sel : Nat → Bool) (pre : List LinkAct) (s : Uplink) : Prop :=
  ∃ post, s.trace = pre ++ post ∧
    (through sel (handed post) ++ through sel s.posted ++ s.onItsWay).Sublist (emitted post)

variable {sel : Nat → Bool} {pre : List LinkAct}

theorem Carries.of_same (h : Carries sel pre s) {acts : List LinkAct}
    (ht : s'.trace = s.trace ++ acts) (hh : handed acts = []) (he : emitted acts = [])
    (hp : s'.posted.Sublist s.posted) (hs : s'.sending = s.sending) : Carries sel pre s' := by
  obtain ⟨post, hpost, hsub⟩ := h
  refine ⟨post ++ acts, by rw [ht, hpost, List.append_assoc], ?_⟩
  rw [onItsWay, hs, handed_append, emitted_append, hh, he, List.append_nil, List.append_nil]
  exact (((through_sublist sel hp).append_left _).append_right _).trans hsub

theorem setConnected_trace (s : Uplink) (tun : Nat) (b : Bool) :
    ∃ act, (s.setConnected tun b).trace = s.trace ++ [act] ∧ handed [act] = [] ∧ emitted [act] = [] ∧
      (act = .up tun ∧ b = true ∨ act = .down tun ∧ b = false) := by
  cases b
  · exact ⟨.down tun, rfl, rfl, rfl, Or.inr ⟨rfl, rfl⟩⟩
  · exact ⟨.up tun, rfl, rfl, rfl, Or.inl ⟨rfl, rfl⟩⟩

/-- The packet on its way goes on, is posted, or is gone. -/
theorem sendL3Packet_cases (s : Uplink) (x : Sending) :
    (∃ y, s.sendL3Packet x = { s with sending := y } ∧ ∀ z ∈ y, z.packet = x.packet) ∨
      ∃ tun, x = .posting tun x.packet ∧ s.sendL3Packet x =
        { s with sending := none, posted := s.posted ++ [(tun, x.packet)] } := by
  cases x with
  | entering packet =>
    refine Or.inl ⟨_, rfl, fun z hz => ?_⟩
    split at hz
    · cases hz
    · rw [← Option.some.inj hz]
      rfl
  | locating packet =>
    refine Or.inl ⟨_, rfl, fun z hz => ?_⟩
    obtain ⟨tun, -, rfl⟩ := Option.map_eq_some_iff.mp hz
    rfl
  | located tun packet =>
    refine Or.inl ⟨_, rfl, fun z hz => ?_⟩
    split at hz
    · cases hz
    · rw [← Option.some.inj hz]
      rfl
  | posting tun packet =>
    cases hp : s.present tun with
    | true => exact Or.inr ⟨tun, rfl, by simp [sendL3Packet, hp, Sending.packet]⟩
    | false => exact Or.inl ⟨none, by simp [sendL3Packet, hp], fun z hz => (by cases hz)⟩

/-- At most the packet on its way stays on its way. -/
theorem onItsWay_sublist {x : Sending} {y : Option Sending} (hy : ∀ z ∈ y, z.packet = x.packet) :
    (y.toList.map Sending.packet).Sublist [x.packet] := by
  cases y with
  | none => exact List.nil_sublist _
  | some z =>
    rw [← hy z rfl]
    exact List.Sublist.refl _

theorem carries_step {e : Event} (h : Carries sel pre s) (hs : s.step ipaddrAton e = some s') :
    Carries sel pre s' := by
  have hkeep {t : Uplink} (ht : t.trace = s.trace) (hp : t.posted.Sublist s.posted)
      (hsend : t.sending = s.sending) : Carries sel pre t :=
    h.of_same (by rw [ht, List.append_nil]) rfl rfl hp hsend
  cases fires_of_step hs with
  | client | forgot | newTun | refused | tornDown => exact hkeep rfl (List.Sublist.refl _) rfl
  | connect | returned => exact hkeep rfl (List.nil_sublist _) rfl
  | established => exact h.of_same rfl rfl rfl (List.Sublist.refl _) rfl
  | up | stopped | cut =>
    obtain ⟨act, ht, hh, he, -⟩ := setConnected_trace s _ _
    exact h.of_same ht hh he (List.Sublist.refl _) rfl
  | @handed tun packet posted hp =>
    obtain ⟨post, hpost, hsub⟩ := h
    refine ⟨post ++ [.tunRecv tun packet], by rw [hpost, List.append_assoc], ?_⟩
    rw [hp, through_cons, ← List.append_assoc] at hsub
    rw [handed_append, through_append, emitted_append, show emitted [.tunRecv tun packet] = [] from rfl,
      List.append_nil]
    exact hsub
  | lost hp => exact hkeep rfl (hp ▸ List.sublist_cons_self _ _) rfl
  | @emit packet hsend =>
    obtain ⟨post, hpost, hsub⟩ := h
    rw [onItsWay, hsend, Option.toList_none, List.map_nil, List.append_nil] at hsub
    have hone : (s.emitPacket packet).onItsWay.Sublist [packet] := by
      unfold onItsWay emitPacket
      split
      · exact List.nil_sublist _
      · exact List.Sublist.refl _
    refine ⟨post ++ [.emitted packet], ?_, ?_⟩
    · rw [← List.append_assoc, ← hpost]
      rfl
    · rw [handed_append, show handed [.emitted packet] = [] from rfl, List.append_nil, emitted_append]
      exact hsub.append hone
  | @send x hx =>
    obtain ⟨post, hpost, hsub⟩ := h
    rw [onItsWay, hx] at hsub
    obtain ⟨y, heq, hy⟩ | ⟨tun, -, heq⟩ := s.sendL3Packet_cases x
    · rw [heq]
      exact ⟨post, hpost, ((onItsWay_sublist hy).append_left _).trans hsub⟩
    · rw [heq]
      refine ⟨post, hpost, List.Sublist.trans ?_ hsub⟩
      rw [onItsWay, through_append, Option.toList_none, List.map_nil, List.append_nil, ← List.append_assoc]
      exact (through_single_sublist sel _).append_left _

/-- Whatever the two threads do, OpenVPN gets packets that lwIP has emitted, none twice and none
    before an earlier one. -/
theorem uplink_in_order {es : List Event} (h : run (step ipaddrAton) new es = some s) :
    ((handed s.trace).map Prod.snd ++ s.posted.map Prod.snd).Sublist (emitted s.trace) := by
  have hnew : Carries (fun _ => true) [] new := ⟨[], rfl, List.Sublist.refl _⟩
  have hall (l : List (Nat × Bytes)) : through (fun _ => true) l = l.map Prod.snd := by
    rw [through, List.filter_true]
  obtain ⟨post, hpost, hsub⟩ := run_inv _ (fun _ _ _ => carries_step) hnew h
  rw [List.nil_append] at hpost
  rw [← hpost, hall, hall] at hsub
  exact (List.sublist_append_left _ _).trans hsub

/-- The configuration of a tunnel with one address. -/
def demoPushed : TunConfig := ⟨⟨[], []⟩, [⟨ipv4Text [10, 8, 0, 2], [], 24, false, false⟩], 1500⟩

/-- A tunnel comes up. -/
def demoUp : List Event :=
  [.clientStart, .connect, .newTun, .tunStart 0 (some demoPushed), .tunConnected]

/-- A packet is emitted and goes all its way to the io_context. -/
def demoPost (packet : Bytes) : List Event := [.emit packet, .send, .send, .send, .send]

/-- Two packets, of which the first is handed over. -/
theorem uplink_in_order_demo :
    ∃ s, run (step printedAton) new (demoUp ++ demoPost [1] ++ demoPost [2] ++ [.runPosted]) = some s ∧
      handed s.trace = [(0, [1])] ∧ s.posted = [(0, [2])] ∧ [[1], [2]].Sublist (emitted s.trace) := by
  obtain ⟨s, hs, hh, hp⟩ : ∃ s, run (step printedAton) new
      (demoUp ++ demoPost [1] ++ demoPost [2] ++ [.runPosted]) = some s ∧
      handed s.trace = [(0, [1])] ∧ s.posted = [(0, [2])] := ⟨_, rfl, rfl, rfl⟩
  have hsub := uplink_in_order hs
  rw [hh, hp] at hsub
  exact ⟨s, hs, hh, hp, hsub⟩

/-! ## Each tunnel for itself -/

theorem connected_setConnected {tun other : Nat} {b : Bool}
    (h : (s.setConnected other b).connected tun = true) :
    other = tun ∧ b = true ∨ other ≠ tun ∧ s.connected tun = true := by
  rw [connected, setConnected, List.getElem?_modify] at h
  cases ht : s.tuns[tun]? with
  | none =>
    rw [ht] at h
    cases h
  | some t =>
    rw [ht] at h
    split at h
    · exact Or.inl ⟨‹_›, h⟩
    · refine Or.inr ⟨‹_›, ?_⟩
      rw [connected, ht]
      exact h

theorem connected_newTun {tun session : Nat} {memoryTun : Option Nat}
    (h : ({ s with tuns := s.tuns ++ [⟨false, session⟩], memoryTun := memoryTun } : Uplink).connected tun =
      true) : s.connected tun = true := by
  rw [connected] at h ⊢
  rw [List.getElem?_append] at h
  split at h
  · exact h
  · cases hn : tun - s.tuns.length with
    | zero => simp [hn] at h
    | succ n => simp [hn] at h

/-- Only a tun client that is connected is posted to. -/
theorem connected_of_posting {x : Sending} {tun : Nat} {packet : Bytes}
    (h : (s.sendL3Packet x).sending = some (.posting tun packet)) : s.connected tun = true := by
  cases x with
  | entering p =>
    simp only [sendL3Packet] at h
    split at h <;> cases h
  | locating p =>
    obtain ⟨t, -, ht⟩ := Option.map_eq_some_iff.mp h
    cases ht
  | located t p =>
    simp only [sendL3Packet] at h
    split at h
    · cases h
    · rename_i hc
      cases h
      simp only [Bool.or_eq_true, Bool.not_eq_true', not_or, Bool.not_eq_false] at hc
      exact hc.1
  | posting t p => cases h

/-- The tunnel of the tun client was never established. -/
structure Unused (tun : Nat) (s : Uplink) : Prop where
  established : .established tun ∉ s.trace
  connected : s.connected tun = false
  thread : s.thread ≠ .starting tun
  sending : ∀ packet, s.sending ≠ some (.posting tun packet)
  handed : through (· == tun) (handed s.trace) = []
  posted : through (· == tun) s.posted = []

variable {tun : Nat}

theorem Unused.keep (h : Unused tun s) {acts : List LinkAct} (ht : s'.trace = s.trace ++ acts)
    (hne : .established tun ∉ acts) (hh : through (· == tun) (Uplink.handed acts) = [])
    (hc : s'.connected tun = true → s.connected tun = true)
    (hthread : s'.thread = .starting tun → s.thread = .starting tun)
    (hs : ∀ packet, s'.sending = some (.posting tun packet) → s.connected tun = true ∨
      s.sending = some (.posting tun packet))
    (hp : (through (· == tun) s'.posted).Sublist (through (· == tun) s.posted)) : Unused tun s' where
  established hmem := by
    rw [ht, List.mem_append] at hmem
    exact hmem.elim h.established hne
  connected := Bool.eq_false_iff.mpr fun hcon => Bool.eq_false_iff.mp h.connected (hc hcon)
  thread hst := h.thread (hthread hst)
  sending packet hpost :=
    (hs packet hpost).elim (Bool.eq_false_iff.mp h.connected) (h.sending packet)
  handed := by rw [ht, handed_append, through_append, h.handed, hh, List.append_nil]
  posted := by
    rw [h.posted] at hp
    exact List.sublist_nil.mp hp

/-- Until the tunnel is established the tun client gets nothing; after that it gets what was emitted
    since. -/
def Isolated (tun : Nat) (s : Uplink) : Prop :=
  Unused tun s ∨ ∃ pre, .established tun ∉ pre ∧ through (· == tun) (handed pre) = [] ∧
    Carries (· == tun) (pre ++ [.established tun]) s

theorem through_other {other : Nat} {packet : Bytes} (h : other ≠ tun) :
    through (· == tun) [(other, packet)] = [] := by
  simp [through, h]

theorem isolated_step {e : Event} (h : Isolated tun s) (hs : s.step ipaddrAton e = some s') :
    Isolated tun s' := by
  obtain h | ⟨pre, hpre, hnone, hcarries⟩ := h
  swap
  · exact Or.inr ⟨pre, hpre, hnone, carries_step hcarries hs⟩
  have hkeep {t : Uplink} (ht : t.trace = s.trace) (hc : t.connected tun = true → s.connected tun = true)
      (hth : t.thread = .starting tun → s.thread = .starting tun) (hsend : t.sending = s.sending)
      (hp : t.posted.Sublist s.posted) : Isolated tun t :=
    Or.inl (h.keep (by rw [ht, List.append_nil]) List.not_mem_nil rfl hc hth
      (fun _ hx => Or.inr (hsend ▸ hx)) (through_sublist _ hp))
  cases fires_of_step hs with
  | client | forgot | refused => exact hkeep rfl id id rfl (List.Sublist.refl _)
  | connect | returned => exact hkeep rfl id id rfl (List.nil_sublist _)
  | tornDown => exact hkeep rfl id (fun ht => (by cases ht)) rfl (List.Sublist.refl _)
  | newTun => exact hkeep rfl connected_newTun id rfl (List.Sublist.refl _)
  | lost hp => exact hkeep rfl id id rfl (hp ▸ List.sublist_cons_self _ _)
  | @established other config b hsend =>
    by_cases ho : other = tun
    · subst ho
      refine Or.inr ⟨s.trace, h.established, h.handed, [], (List.append_nil _).symm, ?_⟩
      rw [onItsWay, hsend, h.posted]
      exact List.Sublist.refl _
    · exact Or.inl (h.keep rfl (by simpa using Ne.symm ho) rfl id
        (fun ht => absurd (VpnThread.starting.inj ht) ho) (fun _ hx => Or.inr hx) (List.Sublist.refl _))
  | @up other hthread =>
    have ho : other ≠ tun := fun ho => h.thread (ho ▸ hthread)
    refine Or.inl (h.keep rfl (by simp) rfl (fun hc => ?_) (fun ht => (by cases ht))
      (fun _ hx => Or.inr hx) (List.Sublist.refl _))
    obtain ⟨he, -⟩ | ⟨-, hc⟩ := connected_setConnected hc
    · exact absurd he ho
    · exact hc
  | @stopped other | @cut other =>
    have hdown (hc : (s.setConnected other false).connected tun = true) : s.connected tun = true := by
      obtain ⟨-, hb⟩ | ⟨-, hc⟩ := connected_setConnected hc
      · cases hb
      · exact hc
    refine Or.inl (h.keep rfl (by simp) rfl hdown (fun ht => ?_) (fun _ hx => Or.inr hx) (List.Sublist.refl _))
    first | exact ht | cases ht
  | @handed other packet posted hp hc =>
    have ho : other ≠ tun := fun ho => Bool.eq_false_iff.mp h.connected (ho ▸ hc)
    exact Or.inl (h.keep rfl (by simp) (through_other ho) id id (fun _ hx => Or.inr hx)
      (through_sublist _ (hp ▸ List.sublist_cons_self _ _)))
  | @emit packet hsend =>
    refine Or.inl (h.keep rfl (by simp) rfl id id (fun p hx => ?_) (List.Sublist.refl _))
    simp only [emitPacket] at hx
    split at hx <;> cases hx
  | @send x hx =>
    obtain ⟨y, heq, -⟩ | ⟨other, hother, heq⟩ := s.sendL3Packet_cases x
    · have hposting (p : Bytes) (hy : y = some (.posting tun p)) : s.connected tun = true :=
        connected_of_posting (by rw [heq]; exact hy)
      rw [heq]
      exact Or.inl (h.keep (List.append_nil _).symm List.not_mem_nil rfl id id
        (fun p hy => Or.inl (hposting p hy)) (List.Sublist.refl _))
    · have ho : other ≠ tun := by
        rintro rfl
        exact h.sending _ (hx.trans (congrArg some hother))
      rw [heq]
      refine Or.inl (h.keep (List.append_nil _).symm List.not_mem_nil rfl id id
        (fun p hy => (by cases hy)) ?_)
      rw [through_append, through_other ho, List.append_nil]

/-- What was recorded from the establishment of the tunnel on. -/
def since (tun : Nat) (trace : List LinkAct) : List LinkAct :=
  trace.dropWhile (· ≠ .established tun)

theorem since_append {post : List LinkAct} (h : .established tun ∉ pre) :
    since tun (pre ++ [.established tun] ++ post) = .established tun :: post := by
  have hpre : ∀ act ∈ pre, (decide (act ≠ .established tun)) = true := by
    intro act hact
    exact decide_eq_true fun he => h (he ▸ hact)
  rw [since, List.append_assoc, List.dropWhile_append_of_pos hpre]
  simp

/-- The tun client is connected after the actions. -/
def upAfter (tun : Nat) (acts : List LinkAct) : Bool :=
  acts.foldl (fun b act => if act = .up tun then true else if act = .down tun then false else b) false

theorem upAfter_snoc (acts : List LinkAct) (act : LinkAct) :
    upAfter tun (acts ++ [act]) =
      if act = .up tun then true else if act = .down tun then false else upAfter tun acts := by
  rw [upAfter, List.foldl_append]
  rfl

/-- The flag of a tun client is as its actions leave it, and it was set whenever a packet was handed
    over. -/
structure Gated (tun : Nat) (s : Uplink) : Prop where
  connected : s.connected tun = true → upAfter tun s.trace = true
  handed : ∀ acts packet rest, s.trace = acts ++ .tunRecv tun packet :: rest → upAfter tun acts = true

theorem Gated.snoc (h : Gated tun s) {act : LinkAct} (ht : s'.trace = s.trace ++ [act])
    (hc : s'.connected tun = true → upAfter tun (s.trace ++ [act]) = true)
    (hh : ∀ packet, act = .tunRecv tun packet → s.connected tun = true) : Gated tun s' where
  connected hcon := ht ▸ hc hcon
  handed acts packet rest heq := by
    rw [ht] at heq
    obtain rfl | ⟨rest', last, rfl⟩ := rest.eq_nil_or_concat
    · obtain ⟨hacts, hact⟩ := List.append_inj' heq rfl
      rw [← hacts]
      exact h.connected (hh packet (List.cons.inj hact).1)
    · rw [List.concat_eq_append, ← List.cons_append, ← List.append_assoc] at heq
      exact h.handed acts packet rest' (List.append_inj' heq rfl).1

theorem gated_step {e : Event} (h : Gated tun s) (hs : s.step ipaddrAton e = some s') :
    Gated tun s' := by
  have hkeep {t : Uplink} (ht : t.trace = s.trace)
      (hc : t.connected tun = true → s.connected tun = true) : Gated tun t :=
    ⟨fun hcon => ht ▸ h.connected (hc hcon), fun acts packet rest heq => h.handed acts packet rest (ht ▸ heq)⟩
  have hflag {other : Nat} {b : Bool} {t : Uplink} (ht : t.trace = (s.setConnected other b).trace)
      (htuns : t.tuns = (s.setConnected other b).tuns) : Gated tun t := by
    obtain ⟨act, htrace, -, -, hact⟩ := s.setConnected_trace other b
    refine h.snoc (ht.trans htrace) (fun hcon => ?_) (fun packet he => ?_)
    · have hcon' : (s.setConnected other b).connected tun = true := by
        rwa [connected, htuns] at hcon
      obtain ⟨rfl, hb⟩ | ⟨ho, hc⟩ := connected_setConnected hcon'
      · obtain ⟨rfl, -⟩ | ⟨-, hb'⟩ := hact
        · rw [upAfter_snoc, if_pos rfl]
        · rw [hb] at hb'
          cases hb'
      · rw [upAfter_snoc]
        obtain ⟨rfl, -⟩ | ⟨rfl, -⟩ := hact <;> simpa [ho] using h.connected hc
    · subst he
      obtain ⟨he, -⟩ | ⟨he, -⟩ := hact <;> cases he
  cases fires_of_step hs with
  | client | forgot | refused | connect | returned | tornDown | lost => exact hkeep rfl id
  | newTun => exact hkeep rfl connected_newTun
  | established =>
    exact h.snoc rfl (fun hc => (upAfter_snoc _ _).trans (h.connected hc)) (fun _ he => (by cases he))
  | up | stopped | cut => exact hflag rfl rfl
  | handed hp hc =>
    refine h.snoc rfl (fun hcon => (upAfter_snoc _ _).trans (h.connected hcon)) (fun packet he => ?_)
    obtain ⟨rfl, -⟩ := LinkAct.tunRecv.inj he
    exact hc
  | emit => exact h.snoc rfl (fun hc => (upAfter_snoc _ _).trans (h.connected hc)) (fun _ he => (by cases he))
  | @send x =>
    obtain ⟨y, heq, -⟩ | ⟨other, -, heq⟩ := s.sendL3Packet_cases x <;> rw [heq] <;> exact hkeep rfl id

/-- A tun client hands OpenVPN packets that were emitted since its own tunnel was established, in
    their order and none twice, and only while it is connected: what lwIP emitted for one tunnel
    does not leave through the next. -/
theorem uplink_isolated {es : List Event} (tun : Nat) (h : run (step ipaddrAton) new es = some s) :
    (through (· == tun) (handed s.trace) ++ through (· == tun) s.posted).Sublist
        (emitted (since tun s.trace)) ∧
      ∀ acts packet rest, s.trace = acts ++ .tunRecv tun packet :: rest → upAfter tun acts = true := by
  have hgated : Gated tun new :=
    ⟨fun hc => (by cases hc), fun acts packet rest he => (by cases acts <;> cases he)⟩
  have hisolated : Isolated tun new :=
    Or.inl ⟨List.not_mem_nil, rfl, fun he => (by cases he), fun _ he => (by cases he), rfl, rfl⟩
  refine ⟨?_, (run_inv _ (fun _ _ _ => gated_step) hgated h).handed⟩
  obtain hun | ⟨pre, hpre, hnone, post, hpost, hsub⟩ := run_inv _ (fun _ _ _ => isolated_step) hisolated h
  · rw [hun.handed, hun.posted]
    exact List.nil_sublist _
  · rw [hpost, since_append hpre, handed_append, handed_append, through_append, through_append, hnone]
    exact (List.sublist_append_left _ _).trans hsub

/-- The first tunnel is stopped with a packet in the io_context, and a second one comes up. -/
def demoAgain : List Event :=
  [.tunStop 0, .teardown, .newTun, .tunStart 1 (some demoPushed), .tunConnected, .runPosted]

/-- The packet that was posted for the first tunnel does not get into the second. -/
theorem uplink_isolated_demo :
    ∃ s, run (step printedAton) new
        (demoUp ++ demoPost [1] ++ demoAgain ++ demoPost [2] ++ [.runPosted]) = some s ∧
      emitted s.trace = [[1], [2]] ∧ handed s.trace = [(1, [2])] ∧
      [[2]].Sublist (emitted (since 1 s.trace)) := by
  obtain ⟨s, hs, he, hh, hp⟩ : ∃ s, run (step printedAton) new
      (demoUp ++ demoPost [1] ++ demoAgain ++ demoPost [2] ++ [.runPosted]) = some s ∧
      emitted s.trace = [[1], [2]] ∧ handed s.trace = [(1, [2])] ∧ s.posted = [] :=
    ⟨_, rfl, rfl, rfl, rfl⟩
  have hsub := (uplink_isolated 1 hs).1
  rw [hh, hp] at hsub
  exact ⟨s, hs, he, hh, hsub⟩

/-! ## Nothing is lost while the tunnel is up -/

/-- The tunnel of the tun client is up, and OpenVPN waits for packets. -/
structure Open (tun : Nat) (s : Uplink) : Prop where
  running : s.running = true
  output : s.builder.lwip.packetOutput = .sendFromLwip
  memoryTun : s.memoryTun = some tun
  client : s.tuns[tun]? = some ⟨true, s.session⟩
  free : s.free = true
  posted : ∀ p ∈ s.posted, p.1 = tun
  sending : ∀ x ∈ s.sending, x.Toward tun ∧ x.packet ≠ []

/-- lwIP emits a packet, and the packets go on. -/
def Event.Steady : Event → Prop
  | .emit packet => packet ≠ []
  | .send | .runPosted => True
  | _ => False

def Event.emits : Event → List Bytes
  | .emit packet => [packet]
  | _ => []

/-- The packets between `emit_packet` and `tun_recv`. -/
def queue (tun : Nat) (s : Uplink) : List (Nat × Bytes) := s.posted ++ s.onItsWay.map fun p => (tun, p)

theorem Open.connected (h : Open tun s) : s.connected tun = true := by
  rw [Uplink.connected, h.client]
  rfl

theorem Open.present (h : Open tun s) : s.present tun = true := by
  have hfree := h.free
  simp only [Uplink.free, Bool.and_eq_true] at hfree
  rw [Uplink.present, hfree.1, h.client]
  simp

/-- The steps of the packet on its way. -/
theorem Open.send (h : Open tun s) {x : Sending} (hx : s.sending = some x) :
    (∃ y, s.sendL3Packet x = { s with sending := some y } ∧ y.Toward tun ∧
        y.packet = x.packet ∧ y.stepsLeft < x.stepsLeft) ∨
      s.sendL3Packet x = { s with sending := none, posted := s.posted ++ [(tun, x.packet)] } := by
  obtain ⟨htoward, hne⟩ := h.sending x hx
  have hempty : x.packet.isEmpty = false := List.isEmpty_eq_false_iff.mpr hne
  cases x with
  | entering packet =>
    refine Or.inl ⟨.locating packet, ?_, trivial, rfl, Nat.lt_succ_self _⟩
    rw [sendL3Packet, h.running, show packet.isEmpty = false from hempty]
    rfl
  | locating packet =>
    refine Or.inl ⟨.located tun packet, ?_, rfl, rfl, Nat.lt_succ_self _⟩
    rw [sendL3Packet, h.memoryTun]
    rfl
  | located other packet =>
    obtain rfl : other = tun := htoward
    refine Or.inl ⟨.posting other packet, ?_, rfl, rfl, Nat.lt_succ_self _⟩
    rw [sendL3Packet, h.connected, show packet.isEmpty = false from hempty]
    rfl
  | posting other packet =>
    obtain rfl : other = tun := htoward
    refine Or.inr ?_
    rw [sendL3Packet, h.present]
    rfl

theorem open_step {e : Event} (h : Open tun s) (he : e.Steady) (hs : s.step ipaddrAton e = some s') :
    Open tun s' ∧
      handed s'.trace ++ s'.queue tun =
        handed s.trace ++ s.queue tun ++ e.emits.map fun p => (tun, p) := by
  cases fires_of_step hs with
  | client _ he' | forgot he' => obtain rfl | rfl := he' <;> cases he
  | @handed other packet posted hp =>
    obtain rfl : other = tun := h.posted (other, packet) (hp ▸ List.mem_cons_self)
    refine ⟨{ h with posted := fun p hmem => h.posted p (hp ▸ List.mem_cons_of_mem _ hmem) }, ?_⟩
    rw [queue, queue, hp, handed_append]
    simp [Uplink.handed, onItsWay, Event.emits]
  | @lost other packet posted hp hc =>
    obtain rfl : other = tun := h.posted (other, packet) (hp ▸ List.mem_cons_self)
    rw [h.connected] at hc
    cases hc
  | @emit packet hsend =>
    have hout : s.emitPacket packet =
        { s with trace := s.trace ++ [.emitted packet], sending := some (.entering packet) } := by
      rw [emitPacket, h.output]
      rfl
    rw [hout]
    refine ⟨{ h with sending := fun x hx => ?_ }, ?_⟩
    · obtain rfl := Option.some.inj hx
      exact ⟨trivial, he⟩
    · rw [queue, queue, onItsWay, onItsWay, hsend, handed_append]
      simp [Uplink.handed, Event.emits, Sending.packet]
  | @send x hx =>
    obtain ⟨y, heq, htoward, hpacket, -⟩ | heq := h.send hx
    · rw [heq]
      refine ⟨{ h with sending := fun z hz => ?_ }, ?_⟩
      · obtain rfl := Option.some.inj hz
        exact ⟨htoward, hpacket ▸ (h.sending x hx).2⟩
      · rw [queue, queue, onItsWay, onItsWay, hx, Option.toList_some, Option.toList_some, List.map_singleton,
          List.map_singleton, hpacket]
        exact (List.append_nil _).symm
    · rw [heq]
      refine ⟨{ h with sending := fun z hz => (by cases hz), posted := fun p hp => ?_ }, ?_⟩
      · rw [List.mem_append, List.mem_singleton] at hp
        obtain hp | rfl := hp
        · exact h.posted p hp
        · rfl
      · rw [queue, queue, onItsWay, onItsWay, hx]
        simp [Event.emits]
  | _ => cases he

/-- The steps of `send_l3_packet` and of the io_context until all is handed over. -/
def stepsLeft (s : Uplink) : Nat := 2 * (s.sending.map Sending.stepsLeft).getD 0 + s.posted.length

theorem Open.progress (ipaddrAton : Bytes → Option IpAddr) (h : Open tun s) (hq : s.queue tun ≠ []) :
    ∃ e s', (e = Event.send ∨ e = Event.runPosted) ∧ s.step ipaddrAton e = some s' ∧
      s'.stepsLeft < s.stepsLeft := by
  cases hx : s.sending with
  | some x =>
    refine ⟨.send, _, Or.inl rfl, by rw [step, hx]; rfl, ?_⟩
    obtain ⟨y, heq, -, -, hlt⟩ | heq := h.send hx
    · rw [heq, stepsLeft, stepsLeft, hx]
      exact Nat.add_lt_add_right (Nat.mul_lt_mul_of_pos_left hlt (by decide)) _
    · have hpos : 1 ≤ x.stepsLeft := by cases x <;> simp [Sending.stepsLeft]
      rw [heq, stepsLeft, stepsLeft, hx, List.length_append]
      simp only [Option.map_none, Option.map_some, Option.getD_none, Option.getD_some, List.length_singleton]
      omega
  | none =>
    cases hp : s.posted with
    | nil =>
      rw [queue, onItsWay, hx, hp] at hq
      exact absurd rfl hq
    | cons p posted =>
      obtain rfl : p.1 = tun := h.posted p (hp ▸ List.mem_cons_self)
      refine ⟨.runPosted, { s with posted := posted, trace := s.trace ++ [.tunRecv p.1 p.2] },
        Or.inr rfl, ?_, ?_⟩
      · have hc : ({ s with posted := posted } : Uplink).connected p.1 = true := h.connected
        simp only [step, h.free, hp]
        rw [Uplink.runPosted, if_pos hc]
      · rw [stepsLeft, stepsLeft, hp, List.length_cons]
        exact Nat.lt_succ_self _

theorem Open.drains (ipaddrAton : Bytes → Option IpAddr) (h : Open tun s) :
    ∃ fs s', (∀ e ∈ fs, e = Event.send ∨ e = Event.runPosted) ∧
      run (step ipaddrAton) s fs = some s' ∧ handed s'.trace = handed s.trace ++ s.queue tun := by
  induction hn : s.stepsLeft using Nat.strong_induction_on generalizing s with
  | _ n ih =>
    by_cases hq : s.queue tun = []
    · exact ⟨[], s, fun _ hmem => (by cases hmem), rfl, by rw [hq, List.append_nil]⟩
    obtain ⟨e, t, he, hstep, hlt⟩ := h.progress ipaddrAton hq
    have hsteady : e.Steady ∧ e.emits = [] := by obtain rfl | rfl := he <;> exact ⟨trivial, rfl⟩
    obtain ⟨hopen, hkept⟩ := open_step h hsteady.1 hstep
    obtain ⟨fs, s', hfs, hrun, hh⟩ := ih _ (hn ▸ hlt) hopen rfl
    refine ⟨e :: fs, s', ?_, run_cons.mpr ⟨t, hstep, hrun⟩, ?_⟩
    · rintro f (_ | ⟨_, hf⟩)
      · exact he
      · exact hfs f hf
    · rw [hh, hkept, hsteady.2, List.map_nil, List.append_nil]

/-- While the tunnel is up, the packets that lwIP emits go through it one by one: each of them is
    handed to OpenVPN behind those before it or waits its turn, and when the threads have gone on long
    enough none waits. -/
theorem uplink_lossless {es : List Event} (h : Open tun s) (he : ∀ e ∈ es, e.Steady)
    (hrun : run (step ipaddrAton) s es = some s') :
    handed s'.trace ++ s'.queue tun =
        handed s.trace ++ s.queue tun ++ (es.flatMap Event.emits).map (fun p => (tun, p)) ∧
      ∃ fs s'', (∀ e ∈ fs, e = Event.send ∨ e = Event.runPosted) ∧
        run (step ipaddrAton) s' fs = some s'' ∧
        handed s''.trace =
          handed s.trace ++ s.queue tun ++ (es.flatMap Event.emits).map (fun p => (tun, p)) := by
  have hinv := run_collect_guarded_inv (fun _ => Event.emits)
    (fun ps t => Open tun t ∧ handed t.trace ++ t.queue tun =
      handed s.trace ++ s.queue tun ++ ps.map fun p => (tun, p))
    (fun ps t e t' hI hG hstep => by
      obtain ⟨hopen, heq⟩ := open_step hI.1 hG hstep
      exact ⟨hopen, by rw [heq, hI.2, List.append_assoc, List.map_append]⟩)
    ⟨h, (List.append_nil _).symm⟩ (along_of_forall (fun e hmem _ => he e hmem) s) hrun
  rw [collect_events hrun] at hinv
  obtain ⟨fs, s'', hfs, hrun', hh⟩ := hinv.1.drains ipaddrAton
  exact ⟨hinv.2, fs, s'', hfs, hrun', hh.trans hinv.2⟩

/-- The tunnel of a client that has just connected takes two packets. -/
theorem uplink_lossless_demo :
    ∃ s s', run (step printedAton) new demoUp = some s ∧
      run (step printedAton) s (demoPost [1] ++ [.emit [2], .runPosted]) = some s' ∧
      handed s'.trace ++ s'.queue 0 = [(0, [1]), (0, [2])] := by
  obtain ⟨s, s', hs, hs', hopen, hh, hq⟩ : ∃ s s',
      run (step printedAton) new demoUp = some s ∧
      run (step printedAton) s (demoPost [1] ++ [.emit [2], .runPosted]) = some s' ∧
      Open 0 s ∧ handed s.trace = [] ∧ s.queue 0 = [] :=
    ⟨_, _, rfl, rfl, ⟨rfl, rfl, rfl, rfl, rfl, fun p hp => (by cases hp), fun x hx => (by cases hx)⟩,
      rfl, rfl⟩
  refine ⟨s, s', hs, hs', ?_⟩
  have hall := (uplink_lossless hopen (fun e he => ?_) hs').1
  · rw [hh, hq] at hall
    exact hall
  · simp only [demoPost, List.cons_append, List.nil_append, List.mem_cons, List.not_mem_nil, or_false] at he
    obtain rfl | rfl | rfl | rfl | rfl | rfl | rfl := he
    · exact List.cons_ne_nil _ _
    · trivial
    · trivial
    · trivial
    · trivial
    · exact List.cons_ne_nil _ _
    · trivial

end Uplink

end Ovpn2ss.Tun
