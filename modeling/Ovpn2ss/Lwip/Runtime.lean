/-
  An `LwipRuntime` (`src/LwipRuntime.cpp`) as a whole: the resolver, the timer that drives the
  timeouts of lwIP, and the packets that come in from the tunnel.

  The VPN thread posts its packets to the io_context of the instance, whose thread hands them to
  lwIP one by one (`post_inject_l3_packet`, `inject_l3_packet`). A posted packet holds the lifetime
  token of the moment it was posted. `stop` invalidates the token and `start` does not renew it,
  only `async_resolve` does. So what was posted before a stop, and what is posted after it and
  before the next resolution, is never handed over (`stop_drops_posted`), and all the rest comes in
  once and in order (`downlink_in_order`, `downlink_lossless`).

  The timer is armed anew by the handler of its own expiry. `expires_after` cancels the wait before,
  but not a handler that is queued already, so after a restart there may be two of them for a
  while; they never leave more than one wait, and none only when the runtime is stopped
  (`timer_follows_running`).
-/
import Ovpn2ss.Dns.Resolver

namespace Ovpn2ss.Lwip

open Ovpn2ss.Aead Ovpn2ss.Lib

/-! ## The runtime -/

/-- A task of `post_inject_l3_packet`. -/
structure Inject where
  /-- The token `lifetime` points to. -/
  lifetime : Nat
  packet : Bytes

inductive RuntimeAct where
  /-- A packet was posted. -/
  | posted (packet : Bytes)
  /-- `netif_.input` was called with a packet. -/
  | input (packet : Bytes)
  /-- `sys_check_timeouts()`. -/
  | poll
  deriving DecidableEq

structure Runtime where
  resolver : Dns.LwipRuntime
  running : Bool
  /-- The waits on `timer_` that have not expired. -/
  timerWaits : Nat
  /-- The handlers of `timer_` that are queued with success. -/
  timerFired : Nat
  injects : List Inject
  /-- `io->run()` has not ended by an exception. -/
  ioRuns : Bool
  trace : List RuntimeAct

/-- What lwIP answers during `inject_l3_packet`. -/
structure InjectAnswers where
  /-- `pbuf_alloc` is not null. -/
  pbufAlloc : Bool
  /-- `pbuf_take` returns `ERR_OK`. -/
  pbufTake : Bool

namespace Runtime

def new (config : Dns.TunConfig) : Runtime where
  resolver := .new config
  running := false
  timerWaits := 0
  timerFired := 0
  injects := []
  ioRuns := true
  trace := []

def log (s : Runtime) (act : RuntimeAct) : Runtime := { s with trace := s.trace ++ [act] }

/-- The length of a pbuf is an `u16_t`. -/
def pbufBytes (packet : Bytes) : Bytes := packet.take (packet.length % 65536)

def injectL3Packet (s : Runtime) (a : InjectAnswers) (packet : Bytes) : Runtime :=
  if packet.isEmpty then s
  else if !a.pbufAlloc then s
  else if !a.pbufTake then s
  else s.log (.input (pbufBytes packet))

def postInjectL3Packet (s : Runtime) (packet : Bytes) : Runtime :=
  if packet.isEmpty then s
  else
    { s with
      injects := s.injects ++ [⟨s.resolver.lifetime, packet⟩]
      trace := s.trace ++ [.posted packet] }

/-- The token of a task is the present one and valid; an older one is gone. -/
def admits (s : Runtime) (i : Inject) : Bool :=
  i.lifetime = s.resolver.lifetime && s.resolver.lifetimeToken && s.running

/-- `expires_after` cancels the wait before. -/
def armTimer (s : Runtime) : Runtime := { s with timerWaits := 1 }

def start (s : Runtime) : Runtime := if s.running then s else { s with running := true }.armTimer

def stop (s : Runtime) : Runtime :=
  { s with running := false, resolver := s.resolver.stop, timerWaits := 0 }

/-- `poll_timeouts`; what a callback of lwIP throws stops the runtime and ends `io->run()`. -/
def pollTimeouts (s : Runtime) (throws : Bool) : Runtime :=
  if throws then { (s.log .poll).stop with ioRuns := false } else s.log .poll

/-- The handler of `timer_`, with success. -/
def onTimer (s : Runtime) (throws : Bool) : Runtime :=
  if !s.running then s
  else if throws then s.pollTimeouts true
  else (s.pollTimeouts false).armTimer

inductive Event where
  | start
  | stop
  /-- An event of the resolver other than `stop`. -/
  | resolver (e : Dns.LwipRuntime.Event)
  | timerExpires
  | timerHandler (throws : Bool)
  /-- The VPN thread posts a packet. -/
  | post (packet : Bytes)
  /-- The next posted packet has its turn. -/
  | inject (a : InjectAnswers)

variable (ipaddrAton : Bytes → Option IpAddr)

def step (s : Runtime) : Event → Option Runtime
  | .start => some s.start
  | .stop => some s.stop
  | .resolver .stop => none
  | .resolver e => (s.resolver.step ipaddrAton e).map fun r => { s with resolver := r }
  | .timerExpires =>
    if 0 < s.timerWaits then
      some { s with timerWaits := s.timerWaits - 1, timerFired := s.timerFired + 1 }
    else none
  | .timerHandler throws =>
    if s.ioRuns && 0 < s.timerFired then
      some ({ s with timerFired := s.timerFired - 1 }.onTimer throws)
    else none
  | .post packet => some (s.postInjectL3Packet packet)
  | .inject a =>
    match s.ioRuns, s.injects with
    | true, i :: is =>
      let s := { s with injects := is }
      some (if s.admits i then s.injectL3Packet a i.packet else s)
    | _, _ => none

/-- What a step does, with the guard that let it happen. -/
inductive Fires : Runtime → Event → Runtime → Prop
  | start {s : Runtime} (h : s.running = false) :
      Fires s .start { s with running := true, timerWaits := 1 }
  | startAgain {s : Runtime} (h : s.running = true) : Fires s .start s
  | stop {s : Runtime} : Fires s .stop s.stop
  | resolver {s : Runtime} {e : Dns.LwipRuntime.Event} {r : Dns.LwipRuntime} (hne : e ≠ .stop)
      (h : s.resolver.step ipaddrAton e = some r) : Fires s (.resolver e) { s with resolver := r }
  | timerExpires {s : Runtime} (h : 0 < s.timerWaits) :
      Fires s .timerExpires
        { s with timerWaits := s.timerWaits - 1, timerFired := s.timerFired + 1 }
  | stale {s : Runtime} {throws : Bool} (h : 0 < s.timerFired) (hr : s.running = false) :
      Fires s (.timerHandler throws) { s with timerFired := s.timerFired - 1 }
  | polled {s : Runtime} (h : 0 < s.timerFired) (hr : s.running = true) :
      Fires s (.timerHandler false)
        { s with timerFired := s.timerFired - 1, timerWaits := 1, trace := s.trace ++ [.poll] }
  | threw {s : Runtime} (h : 0 < s.timerFired) (hr : s.running = true) :
      Fires s (.timerHandler true)
        { s.stop with timerFired := s.timerFired - 1, trace := s.trace ++ [.poll], ioRuns := false }
  | postEmpty {s : Runtime} : Fires s (.post []) s
  | post {s : Runtime} {packet : Bytes} (h : packet ≠ []) :
      Fires s (.post packet)
        { s with injects := s.injects ++ [⟨s.resolver.lifetime, packet⟩]
                 trace := s.trace ++ [.posted packet] }
  | dropped {s : Runtime} {a : InjectAnswers} {i : Inject} {is : List Inject}
      (h : s.injects = i :: is)
      (hno : s.admits i = false ∨ i.packet = [] ∨ a.pbufAlloc = false ∨ a.pbufTake = false) :
      Fires s (.inject a) { s with injects := is }
  | injected {s : Runtime} {a : InjectAnswers} {i : Inject} {is : List Inject}
      (h : s.injects = i :: is) (hi : s.admits i = true) (hne : i.packet ≠ []) :
      Fires s (.inject a)
        { s with injects := is, trace := s.trace ++ [.input (pbufBytes i.packet)] }

variable {ipaddrAton} {s s' : Runtime}

theorem onTimer_stopped (h : s.running = false) (throws : Bool) : s.onTimer throws = s := by
  rw [onTimer, h]
  rfl

theorem onTimer_running (h : s.running = true) (throws : Bool) :
    s.onTimer throws = if throws then s.pollTimeouts true else (s.pollTimeouts false).armTimer := by
  rw [onTimer, h]
  rfl

theorem injectL3Packet_cases (s : Runtime) (a : InjectAnswers) (packet : Bytes) :
    (s.injectL3Packet a packet = s ∧ (packet = [] ∨ a.pbufAlloc = false ∨ a.pbufTake = false)) ∨
      (s.injectL3Packet a packet = s.log (.input (pbufBytes packet)) ∧ packet ≠ []) := by
  unfold injectL3Packet
  rcases packet with _ | ⟨b, bs⟩
  · exact Or.inl ⟨rfl, Or.inl rfl⟩
  · cases a.pbufAlloc with
    | false => exact Or.inl ⟨rfl, Or.inr (Or.inl rfl)⟩
    | true =>
      cases a.pbufTake with
      | false => exact Or.inl ⟨rfl, Or.inr (Or.inr rfl)⟩
      | true => exact Or.inr ⟨rfl, List.cons_ne_nil b bs⟩

/-- The inversion of `step`. -/
theorem fires_of_step {e : Event} (h : s.step ipaddrAton e = some s') : Fires ipaddrAton s e s' := by
  cases e with
  | start =>
    obtain rfl := Option.some.inj h
    unfold Runtime.start
    cases hr : s.running with
    | false => exact .start hr
    | true => exact .startAgain hr
  | stop =>
    obtain rfl := Option.some.inj h
    exact .stop
  | resolver e =>
    have hne : e ≠ .stop := by
      rintro rfl
      cases h
    have hmap : (s.resolver.step ipaddrAton e).map (fun r => { s with resolver := r }) = some s' := by
      cases e with
      | stop => exact absurd rfl hne
      | _ => exact h
    obtain ⟨r, hr, rfl⟩ := Option.map_eq_some_iff.mp hmap
    exact .resolver hne hr
  | timerExpires =>
    simp only [step] at h
    split at h
    · obtain rfl := Option.some.inj h
      exact .timerExpires ‹_›
    · cases h
  | timerHandler throws =>
    simp only [step] at h
    split at h
    · rename_i hg
      rw [Bool.and_eq_true, decide_eq_true_eq] at hg
      obtain rfl := Option.some.inj h
      by_cases hr : s.running = true
      · rw [onTimer_running (s := { s with timerFired := s.timerFired - 1 }) hr]
        cases throws with
        | false => exact .polled hg.2 hr
        | true => exact .threw hg.2 hr
      · have hstopped := Bool.eq_false_iff.mpr hr
        rw [onTimer_stopped (s := { s with timerFired := s.timerFired - 1 }) hstopped]
        exact .stale hg.2 hstopped
    · cases h
  | post packet =>
    obtain rfl := Option.some.inj h
    unfold postInjectL3Packet
    cases packet with
    | nil => exact .postEmpty
    | cons b bs => exact .post (List.cons_ne_nil b bs)
  | inject a =>
    simp only [step] at h
    split at h
    · rename_i i is hio hi
      obtain rfl := Option.some.inj h
      have hsame : ({ s with injects := is } : Runtime).admits i = s.admits i := rfl
      rw [hsame]
      cases ha : s.admits i with
      | false => exact .dropped hi (Or.inl ha)
      | true =>
        rcases injectL3Packet_cases { s with injects := is } a i.packet with ⟨he, hno⟩ | ⟨he, hne⟩ <;>
          rw [he]
        · exact .dropped hi (Or.inr hno)
        · exact .injected hi ha hne
    · cases h

/-! ## Packets from the tunnel -/

/-- The packets posted, and those handed to lwIP. -/
def posted (trace : List RuntimeAct) : List Bytes :=
  trace.filterMap fun | .posted packet => some packet | _ => none

def inputs (trace : List RuntimeAct) : List Bytes :=
  trace.filterMap fun | .input packet => some packet | _ => none

@[simp] theorem posted_append (t u : List RuntimeAct) : posted (t ++ u) = posted t ++ posted u :=
  List.filterMap_append

@[simp] theorem inputs_append (t u : List RuntimeAct) : inputs (t ++ u) = inputs t ++ inputs u :=
  List.filterMap_append

/-- What lwIP would see of the packets that wait for their turn. -/
def waiting (s : Runtime) : List Bytes := s.injects.map fun i => pbufBytes i.packet

/-- What a step posts. -/
def Event.posts : Event → List Bytes
  | .post packet => if packet = [] then [] else [packet]
  | _ => []

/-- A posted packet is waiting, has come in, or is gone. -/
def InOrder (s : Runtime) : Prop :=
  (inputs s.trace ++ s.waiting).Sublist ((posted s.trace).map pbufBytes)

theorem InOrder.of_same (h : InOrder s) {acts : List RuntimeAct} (ht : s'.trace = s.trace ++ acts)
    (hi : inputs acts = []) (hp : posted acts = []) (hw : s'.injects = s.injects) : InOrder s' := by
  rw [InOrder, waiting, hw, ht, inputs_append, posted_append, hi, hp, List.append_nil, List.append_nil]
  exact h

theorem inOrder_step {e : Event} (h : InOrder s) (hs : s.step ipaddrAton e = some s') : InOrder s' := by
  cases fires_of_step hs with
  | start | startAgain | stop | resolver | timerExpires | stale | postEmpty =>
    exact h.of_same (List.append_nil _).symm rfl rfl rfl
  | polled | threw => exact h.of_same rfl rfl rfl rfl
  | @post packet hne =>
    rw [InOrder, waiting, inputs_append, posted_append, List.map_append, List.map_append,
      show inputs [.posted packet] = [] from rfl, List.append_nil, ← List.append_assoc]
    exact h.append (List.Sublist.refl _)
  | dropped hi =>
    rw [InOrder, waiting, hi, List.map_cons] at h
    exact ((List.sublist_cons_self _ _).append_left _).trans h
  | injected hi =>
    rw [InOrder, waiting, hi, List.map_cons] at h
    rw [InOrder, waiting, inputs_append, posted_append, List.append_assoc,
      show posted [.input _] = [] from rfl, List.append_nil]
    exact h

/-- What lwIP gets from the tunnel is what was posted, in that order: nothing twice, nothing that
    was not posted, and behind it only what still waits for its turn. Packets of 65536 bytes and more
    are cut to what a pbuf can count. -/
theorem downlink_in_order {config : Dns.TunConfig} {es : List Event}
    (h : run (step ipaddrAton) (new config) es = some s) :
    (inputs s.trace ++ s.waiting).Sublist ((posted s.trace).map pbufBytes) := by
  have hnew : InOrder (new config) := List.Sublist.refl []
  exact run_inv InOrder (fun _ _ _ hI hs => inOrder_step hI hs) hnew h

def demoConfig : Dns.TunConfig := ⟨[], []⟩

def noLiteral : Bytes → Option IpAddr := fun _ => none

def granted : InjectAnswers := ⟨true, true⟩

/-- Of two packets one has had its turn. -/
theorem downlink_in_order_demo :
    ∃ s, run (step noLiteral) (new demoConfig)
        [.start, .post [1, 2], .post [3], .inject granted] = some s ∧
      inputs s.trace = [[1, 2]] ∧ s.waiting = [[3]] ∧
      ([[1, 2], [3]] : List Bytes).Sublist ((posted s.trace).map pbufBytes) := by
  have hrun : ∃ s, run (step noLiteral) (new demoConfig)
      [.start, .post [1, 2], .post [3], .inject granted] = some s ∧
      inputs s.trace = [[1, 2]] ∧ s.waiting = [[3]] := ⟨_, rfl, rfl, rfl⟩
  obtain ⟨s, hs, hin, hw⟩ := hrun
  have horder := downlink_in_order hs
  rw [hin, hw] at horder
  exact ⟨s, hs, hin, hw, horder⟩

/-- The runtime takes packets, and those that wait were posted under the present token. -/
structure Serving (s : Runtime) : Prop where
  running : s.running = true
  token : s.resolver.lifetimeToken = true
  injects : ∀ i ∈ s.injects, i.lifetime = s.resolver.lifetime ∧ i.packet ≠ []

/-- Nothing stops the runtime, and lwIP has its pbufs. -/
def Event.Undisturbed : Event → Prop
  | .stop => False
  | .timerHandler throws => throws = false
  | .inject a => a.pbufAlloc = true ∧ a.pbufTake = true
  | _ => True

section Resolver

variable {r t : Dns.LwipRuntime}

/-- The resolver keeps its token. -/
def SameToken (r t : Dns.LwipRuntime) : Prop :=
  t.lifetime = r.lifetime ∧ t.lifetimeToken = r.lifetimeToken

theorem completeDnsQuery_sameToken (r : Dns.LwipRuntime) (id : Nat) (err : ErrT) (ip : Option IpAddr)
    (cause : Nat) : SameToken r (r.completeDnsQuery id err ip cause) := by
  unfold Dns.LwipRuntime.completeDnsQuery
  split <;> exact ⟨rfl, rfl⟩

/-- `async_resolve` renews a token that `stop` has invalidated, and only such a one. -/
theorem resolves_token {a : Dns.DnsAnswers} {host : Bytes} {res : Except String Unit}
    (h : Dns.LwipRuntime.Resolves ipaddrAton r a host res t) : SameToken r.renewLifetime t := by
  rw [Dns.LwipRuntime.renewLifetime_eq]
  cases h with
  | literal | badServer | noServer | noPcb | badName => exact ⟨rfl, rfl⟩
  | @noPbuf server => exact completeDnsQuery_sameToken (r.asked server) _ _ _ _
  | @refused server packet => exact completeDnsQuery_sameToken (r.questioned server packet) _ _ _ _
  | sent =>
    rw [Dns.LwipRuntime.armTimeout_eq]
    exact ⟨rfl, rfl⟩

theorem dnsRecv_sameToken {query : Dns.DnsQuery} {p : Option Bytes} (h : r.dnsRecv query p = some t) :
    SameToken r t := by
  obtain rfl | ⟨-, -, -, -, -, rfl⟩ := Dns.LwipRuntime.dnsRecv_cases h
  · exact ⟨rfl, rfl⟩
  · exact completeDnsQuery_sameToken _ _ _ _ _

theorem onTimeout_sameToken (r : Dns.LwipRuntime) (w : Dns.Wait) : SameToken r (r.onTimeout w) := by
  unfold Dns.LwipRuntime.onTimeout
  split
  · exact completeDnsQuery_sameToken _ _ _ _ _
  · exact ⟨rfl, rfl⟩

/-- A call of `async_resolve`. -/
def isResolve : Dns.LwipRuntime.Event → Bool
  | .resolve .. => true
  | _ => false

/-- Of the resolver the packets see the token only. -/
theorem resolver_token {e : Dns.LwipRuntime.Event} (hne : e ≠ .stop)
    (h : r.step ipaddrAton e = some t) :
    SameToken (if isResolve e then r.renewLifetime else r) t := by
  cases Dns.LwipRuntime.fires_of_step h with
  | threw hr => exact resolves_token hr
  | returned hr =>
    have htoken := resolves_token hr
    exact htoken
  | configure => exact ⟨rfl, rfl⟩
  | othersDraw => exact ⟨rfl, rfl⟩
  | datagram _ hs | dangling _ _ hs => exact dnsRecv_sameToken hs
  | expire => exact ⟨rfl, rfl⟩
  | timeout => exact onTimeout_sameToken { r with expired := _ } _
  | stop => exact absurd rfl hne

end Resolver

theorem Serving.keeps (h : Serving s) (hr : s'.running = true)
    (htoken : s'.resolver.lifetimeToken = true) (hlife : s'.resolver.lifetime = s.resolver.lifetime)
    (hi : ∀ i ∈ s'.injects, i ∈ s.injects) : Serving s' :=
  ⟨hr, htoken, fun i hmem => ⟨(h.injects i (hi i hmem)).1.trans hlife.symm, (h.injects i (hi i hmem)).2⟩⟩

theorem serving_step {e : Event} (h : Serving s) (he : e.Undisturbed)
    (hs : s.step ipaddrAton e = some s') :
    Serving s' ∧ inputs s'.trace ++ s'.waiting =
      inputs s.trace ++ s.waiting ++ e.posts.map pbufBytes := by
  have hsame {t : Runtime} (hr : t.running = true) (htoken : t.resolver.lifetimeToken = true)
      (hlife : t.resolver.lifetime = s.resolver.lifetime) (hi : t.injects = s.injects)
      (ht : inputs t.trace = inputs s.trace) :
      Serving t ∧ inputs t.trace ++ t.waiting = inputs s.trace ++ s.waiting ++ [].map pbufBytes := by
    refine ⟨h.keeps hr htoken hlife fun i hmem => hi ▸ hmem, ?_⟩
    rw [ht, waiting, hi, List.map_nil, List.append_nil]
    rfl
  cases fires_of_step hs with
  | start hr =>
    rw [h.running] at hr
    cases hr
  | startAgain => exact hsame h.running h.token rfl rfl rfl
  | stop => cases he
  | resolver hne hr =>
    have hrenew : s.resolver.renewLifetime = s.resolver := if_pos h.token
    obtain ⟨hlife, htoken⟩ := resolver_token hne hr
    rw [hrenew, ite_self] at hlife htoken
    exact hsame h.running (htoken.trans h.token) hlife rfl rfl
  | timerExpires => exact hsame h.running h.token rfl rfl rfl
  | stale => exact hsame h.running h.token rfl rfl rfl
  | polled => exact hsame h.running h.token rfl rfl (by simp [inputs])
  | threw => cases he
  | postEmpty => exact hsame h.running h.token rfl rfl rfl
  | @post packet hne =>
    refine ⟨⟨h.running, h.token, fun i hi => ?_⟩, ?_⟩
    · rcases List.mem_append.mp hi with hi | hi
      · exact h.injects i hi
      · rw [List.mem_singleton.mp hi]
        exact ⟨rfl, hne⟩
    · rw [Event.posts, if_neg hne, waiting, waiting, inputs_append, List.map_append]
      simp [inputs]
  | @dropped a i is hi hno =>
    obtain ⟨hlife, hne⟩ := h.injects i (by rw [hi]; exact List.mem_cons_self)
    rcases hno with hno | hnil | halloc | htake
    · have hadmits : s.admits i = true := by simp [admits, hlife, h.token, h.running]
      rw [hadmits] at hno
      cases hno
    · exact absurd hnil hne
    · rw [he.1] at halloc
      cases halloc
    · rw [he.2] at htake
      cases htake
  | @injected a i is hi =>
    refine ⟨h.keeps h.running h.token rfl fun j hj => ?_, ?_⟩
    · rw [hi]
      exact List.mem_cons_of_mem i hj
    · rw [waiting, waiting, hi, inputs_append, List.map_cons]
      simp [Event.posts, inputs]

/-- While the runtime is not stopped and lwIP has its pbufs, every packet that is posted comes in,
    behind those before it, as soon as its turn has come. -/
theorem downlink_lossless {es : List Event} (hs : Serving s) (he : ∀ e ∈ es, e.Undisturbed)
    (h : run (step ipaddrAton) s es = some s') :
    inputs s'.trace ++ s'.waiting =
      inputs s.trace ++ s.waiting ++ (es.flatMap Event.posts).map pbufBytes := by
  have hinv := run_collect_guarded_inv (fun _ => Event.posts)
    (fun ps t => Serving t ∧
      inputs t.trace ++ t.waiting = inputs s.trace ++ s.waiting ++ ps.map pbufBytes)
    (fun ps t e t' hI hG hstep => by
      obtain ⟨hserving, heq⟩ := serving_step hI.1 hG hstep
      exact ⟨hserving, by rw [heq, hI.2, List.append_assoc, List.map_append]⟩)
    ⟨hs, (List.append_nil _).symm⟩ (along_of_forall (fun e hmem _ => he e hmem) s) h
  rw [collect_events h] at hinv
  exact hinv.2

/-- A runtime that has just been started gets the packets of the tunnel. -/
theorem downlink_lossless_demo :
    ∃ s, run (step noLiteral) (new demoConfig).start
        [.post [1, 2], .timerExpires, .inject granted, .post [3]] = some s ∧
      inputs s.trace ++ s.waiting = [[1, 2], [3]] := by
  have hserving : Serving (new demoConfig).start := ⟨rfl, rfl, fun i hi => (by cases hi)⟩
  have hrun : ∃ s, run (step noLiteral) (new demoConfig).start
      [.post [1, 2], .timerExpires, .inject granted, .post [3]] = some s := ⟨_, rfl⟩
  obtain ⟨s, hs⟩ := hrun
  refine ⟨s, hs, downlink_lossless hserving (fun e he => ?_) hs⟩
  simp only [List.mem_cons, List.not_mem_nil, or_false] at he
  rcases he with rfl | rfl | rfl | rfl
  · trivial
  · trivial
  · exact ⟨rfl, rfl⟩
  · trivial

/-! ## Stopping -/

/-- `async_resolve` is called. -/
def Event.resolves : Event → Bool
  | .resolver e => isResolve e
  | _ => false

/-- No token is from the future. -/
def Dated (s : Runtime) : Prop := ∀ i ∈ s.injects, i.lifetime ≤ s.resolver.lifetime

theorem lifetime_le {e : Event} (hs : s.step ipaddrAton e = some s') :
    s.resolver.lifetime ≤ s'.resolver.lifetime := by
  cases fires_of_step hs with
  | resolver hne hr =>
    obtain ⟨hlife, -⟩ := resolver_token hne hr
    show _ ≤ _
    rw [hlife]
    unfold Dns.LwipRuntime.renewLifetime
    split
    · split
      · exact le_rfl
      · exact Nat.le_succ _
    · exact le_rfl
  | _ => exact le_rfl

theorem dated_step {e : Event} (h : Dated s) (hs : s.step ipaddrAton e = some s') : Dated s' := by
  have hle := lifetime_le hs
  cases fires_of_step hs with
  | post =>
    intro i hi
    rcases List.mem_append.mp hi with hi | hi
    · exact h i hi
    · rw [List.mem_singleton.mp hi]
  | dropped hi | injected hi =>
    intro j hj
    exact h j (by rw [hi]; exact List.mem_cons_of_mem _ hj)
  | _ => exact fun i hi => (h i hi).trans hle

/-- The packets that wait with a token newer than `n`. -/
def waitingSince (n : Nat) (s : Runtime) : List Bytes :=
  (s.injects.filter (n < ·.lifetime)).map fun i => pbufBytes i.packet

/-- The token `n` is invalid or replaced, and only packets of `ps` have come in since `before`. -/
structure Dead (n : Nat) (before ps : List Bytes) (s : Runtime) : Prop where
  token : n < s.resolver.lifetime ∨ s.resolver.lifetime = n ∧ s.resolver.lifetimeToken = false
  since : ∃ xs, inputs s.trace = before ++ xs ∧ (xs ++ s.waitingSince n).Sublist (ps.map pbufBytes)

variable {n : Nat} {before ps : List Bytes}

theorem Dead.of_same (h : Dead n before ps s) (qs : List Bytes)
    (htoken : n < s'.resolver.lifetime ∨ s'.resolver.lifetime = n ∧ s'.resolver.lifetimeToken = false)
    (hin : inputs s'.trace = inputs s.trace) (hw : s'.injects = s.injects) :
    Dead n before (ps ++ qs) s' := by
  obtain ⟨xs, hxs, hsub⟩ := h.since
  refine ⟨htoken, xs, hin.trans hxs, ?_⟩
  rw [List.map_append, waitingSince, hw]
  exact hsub.trans (List.sublist_append_left _ _)

/-- A token that `stop` has invalidated stays so. -/
theorem Dead.token_step (h : Dead n before ps s) {e : Event} (hs : s.step ipaddrAton e = some s') :
    n < s'.resolver.lifetime ∨ s'.resolver.lifetime = n ∧ s'.resolver.lifetimeToken = false := by
  rcases h.token with hlt | ⟨rfl, hdead⟩
  · exact Or.inl (hlt.trans_le (lifetime_le hs))
  · cases fires_of_step hs with
    | @resolver e r hne hr =>
      obtain ⟨hlife, htoken⟩ := resolver_token hne hr
      cases hres : isResolve e with
      | false =>
        rw [hres] at hlife htoken
        exact Or.inr ⟨hlife, htoken.trans hdead⟩
      | true =>
        have hrenew : s.resolver.renewLifetime =
            { s.resolver with lifetime := s.resolver.lifetime + 1, lifetimeToken := true } :=
          if_neg (by rw [hdead]; decide)
        rw [hres, if_pos rfl, hrenew] at hlife
        exact Or.inl (hlife ▸ Nat.lt_succ_self _)
    | stop | threw => exact Or.inr ⟨rfl, rfl⟩
    | _ => exact Or.inr ⟨rfl, hdead⟩

theorem dead_step {e : Event} (h : Dead n before ps s) (hs : s.step ipaddrAton e = some s') :
    Dead n before (ps ++ e.posts) s' := by
  have htoken := h.token_step hs
  obtain ⟨xs, hxs, hsub⟩ := h.since
  cases fires_of_step hs with
  | polled | threw => exact h.of_same _ htoken (by simp [inputs]) rfl
  | @post packet hne =>
    refine ⟨htoken, xs, by rw [inputs_append, hxs]; exact List.append_nil _, ?_⟩
    rw [Event.posts, if_neg hne, waitingSince, List.filter_append, List.map_append, List.map_append,
      ← List.append_assoc]
    refine hsub.append ?_
    rw [List.filter_cons]
    split
    · exact List.Sublist.refl _
    · exact List.nil_sublist _
  | @dropped a i is hi =>
    refine ⟨htoken, xs, hxs, ?_⟩
    rw [show (Event.inject a).posts = [] from rfl, List.append_nil]
    refine List.Sublist.trans (List.Sublist.append_left ?_ xs) hsub
    rw [waitingSince, waitingSince, hi]
    exact ((List.sublist_cons_self i is).filter _).map _
  | @injected a i is hi hadmits =>
    -- a packet is let in under the present token, which is newer
    have hnew : n < i.lifetime := by
      simp only [admits, Bool.and_eq_true, decide_eq_true_eq] at hadmits
      rcases h.token with hlt | ⟨-, hdead⟩
      · exact hlt.trans_eq hadmits.1.1.symm
      · rw [hdead] at hadmits
        exact absurd hadmits.1.2 (by decide)
    refine ⟨htoken, xs ++ [pbufBytes i.packet], ?_, ?_⟩
    · rw [inputs_append, hxs, List.append_assoc]
      rfl
    · rw [waitingSince, hi, List.filter_cons_of_pos (by simpa using hnew), List.map_cons] at hsub
      rw [show (Event.inject a).posts = [] from rfl, List.append_nil, List.append_assoc]
      exact hsub
  | _ => exact h.of_same _ htoken rfl rfl

/-- Token `n` is invalid, and nothing has come in since `before`. -/
structure Halted (n : Nat) (before : List Bytes) (s : Runtime) : Prop where
  dated : Dated s
  token : s.resolver.lifetimeToken = false
  lifetime : s.resolver.lifetime = n
  inputs : inputs s.trace = before

/-- Between a stop and the next resolution nothing comes in. -/
theorem halted_step {e : Event} (h : Halted n before s) (he : e.resolves = false)
    (hs : s.step ipaddrAton e = some s') : Halted n before s' := by
  have hdated := dated_step h.dated hs
  cases fires_of_step hs with
  | @resolver e r hne hr =>
    obtain ⟨hlife, htoken⟩ := resolver_token hne hr
    rw [show isResolve e = false from he] at hlife htoken
    exact ⟨hdated, htoken.trans h.token, hlife.trans h.lifetime, h.inputs⟩
  | stop => exact ⟨hdated, rfl, h.lifetime, h.inputs⟩
  | threw => exact ⟨hdated, rfl, h.lifetime, by simpa [Runtime.inputs] using h.inputs⟩
  | polled | post => exact ⟨hdated, h.token, h.lifetime, by simpa [Runtime.inputs] using h.inputs⟩
  | injected hi hadmits =>
    simp only [admits, h.token, Bool.and_false, Bool.false_and] at hadmits
    cases hadmits
  | _ => exact ⟨hdated, h.token, h.lifetime, h.inputs⟩

/-- What was posted before a stop, or after it and before the next call of `async_resolve`, never
    comes in, whatever happens later, a start of the runtime included. -/
theorem stop_drops_posted {config : Dns.TunConfig} {es₀ es₁ es₂ : List Event} {u : Runtime}
    (h₀ : run (step ipaddrAton) (new config) es₀ = some s)
    (h₁ : run (step ipaddrAton) s (.stop :: es₁) = some u) (hno : ∀ e ∈ es₁, e.resolves = false)
    (h₂ : run (step ipaddrAton) u es₂ = some s') :
    ∃ xs, inputs s'.trace = inputs s.trace ++ xs ∧
      xs.Sublist ((es₂.flatMap Event.posts).map pbufBytes) := by
  have hdated : Dated s :=
    run_inv Dated (fun _ _ _ h hs => dated_step h hs) (fun _ hi => (by cases hi)) h₀
  obtain ⟨m, hm, h₁⟩ := run_cons.mp h₁
  obtain rfl := Option.some.inj hm
  have hstop : Halted s.resolver.lifetime (inputs s.trace) s.stop := ⟨hdated, rfl, rfl, rfl⟩
  have hhalted : Halted s.resolver.lifetime (inputs s.trace) u :=
    run_guarded_inv (G := fun _ e => e.resolves = false) (Halted s.resolver.lifetime (inputs s.trace))
      (fun _ _ _ hI he hs => halted_step hI he hs) hstop (along_of_forall (fun e hmem _ => hno e hmem) _) h₁
  have hold : u.waitingSince s.resolver.lifetime = [] := by
    rw [waitingSince, List.map_eq_nil_iff, List.filter_eq_nil_iff]
    intro i hi
    have hle := hhalted.lifetime ▸ hhalted.dated i hi
    simpa using hle
  have hstart : Dead s.resolver.lifetime (inputs s.trace) [] u := by
    refine ⟨Or.inr ⟨hhalted.lifetime, hhalted.token⟩, [], by rw [hhalted.inputs, List.append_nil], ?_⟩
    rw [hold]
    exact List.Sublist.refl _
  have hend := run_collect_inv (fun _ => Event.posts) (Dead s.resolver.lifetime (inputs s.trace))
    (fun _ _ _ _ hI hs => dead_step hI hs) hstart h₂
  rw [collect_events h₂] at hend
  obtain ⟨xs, hxs, hsub⟩ := hend.since
  exact ⟨xs, hxs, (List.sublist_append_left _ _).trans hsub⟩

def noAnswers : Dns.DnsAnswers := ⟨false, false, .ERR_OK⟩

/-- After a stop and a start the packets come in again only from the next resolution on. -/
theorem stop_drops_posted_demo :
    ∃ s u s', run (step noLiteral) (new demoConfig) [.start, .post [1]] = some s ∧
      run (step noLiteral) s [.stop, .start, .post [2]] = some u ∧
      run (step noLiteral) u [.resolver (.resolve [] noAnswers), .post [3], .inject granted,
        .inject granted, .inject granted] = some s' ∧
      inputs s'.trace = [[3]] ∧
      ∃ xs, inputs s'.trace = inputs s.trace ++ xs ∧ xs.Sublist [[3]] := by
  have hrun : ∃ s u s', run (step noLiteral) (new demoConfig) [.start, .post [1]] = some s ∧
      run (step noLiteral) s [.stop, .start, .post [2]] = some u ∧
      run (step noLiteral) u [.resolver (.resolve [] noAnswers), .post [3], .inject granted,
        .inject granted, .inject granted] = some s' ∧ inputs s'.trace = [[3]] :=
    ⟨_, _, _, rfl, rfl, rfl, rfl⟩
  obtain ⟨s, u, s', h₀, h₁, h₂, hin⟩ := hrun
  refine ⟨s, u, s', h₀, h₁, h₂, hin, stop_drops_posted h₀ h₁ (fun e he => ?_) h₂⟩
  simp only [List.mem_cons, List.not_mem_nil, or_false] at he
  rcases he with rfl | rfl <;> rfl

/-! ## The timer -/

/-- While the runtime is running its timer is armed or about to be armed again. -/
structure Armed (s : Runtime) : Prop where
  one : s.timerWaits ≤ 1
  stopped : s.running = false → s.timerWaits = 0
  running : s.running = true → s.timerWaits = 1 ∨ 0 < s.timerFired

theorem armed_step {e : Event} (h : Armed s) (hs : s.step ipaddrAton e = some s') : Armed s' := by
  cases fires_of_step hs with
  | start => exact ⟨le_rfl, fun hr => (by cases hr), fun _ => Or.inl rfl⟩
  | stop | threw => exact ⟨Nat.zero_le _, fun _ => rfl, fun hr => (by cases hr)⟩
  | timerExpires hw =>
    exact ⟨(Nat.sub_le _ _).trans h.one, fun hr => by rw [h.stopped hr], fun _ => Or.inr (Nat.succ_pos _)⟩
  | stale hf hr =>
    refine ⟨h.one, h.stopped, fun hrun => ?_⟩
    rw [show s.running = true from hrun] at hr
    cases hr
  | polled hf hr =>
    refine ⟨le_rfl, fun hstop => ?_, fun _ => Or.inl rfl⟩
    rw [show s.running = false from hstop] at hr
    cases hr
  | _ => exact ⟨h.one, h.stopped, h.running⟩

/-- A stopped runtime does not poll. -/
theorem quiet_step {e : Event} (hr : s.running = false) (he : e ≠ .start)
    (hs : s.step ipaddrAton e = some s') :
    s'.running = false ∧ s'.trace.count .poll = s.trace.count .poll := by
  cases fires_of_step hs with
  | start => exact absurd rfl he
  | stop => exact ⟨rfl, rfl⟩
  | polled _ hrun | threw _ hrun =>
    rw [hrun] at hr
    cases hr
  | post | injected => exact ⟨hr, by simp⟩
  | _ => exact ⟨hr, rfl⟩

/-- At every moment of every run: at most one wait on the timer is pending, none if the runtime is
    stopped, and if it is running one is pending or a handler is queued that will arm it. A stopped
    runtime polls no more until it is started again. -/
theorem timer_follows_running {config : Dns.TunConfig} {es : List Event}
    (h : run (step ipaddrAton) (new config) es = some s) :
    s.timerWaits ≤ 1 ∧ (s.running = false → s.timerWaits = 0) ∧
      (s.running = true → s.timerWaits = 1 ∨ 0 < s.timerFired) ∧
      ∀ es' s', s.running = false → (∀ e ∈ es', e ≠ Event.start) →
        run (step ipaddrAton) s es' = some s' → s'.trace.count .poll = s.trace.count .poll := by
  have hnew : Armed (new config) := ⟨Nat.zero_le _, fun _ => rfl, fun hr => (by cases hr)⟩
  have harmed := run_inv Armed (fun _ _ _ hI hs => armed_step hI hs) hnew h
  refine ⟨harmed.one, harmed.stopped, harmed.running, fun es' s' hr he hrun => ?_⟩
  have hquiet := run_guarded_inv (G := fun _ e => e ≠ Event.start)
    (fun t => t.running = false ∧ t.trace.count .poll = s.trace.count .poll)
    (fun t e t' hI he hs => by
      obtain ⟨hr', hcount⟩ := quiet_step hI.1 he hs
      exact ⟨hr', hcount.trans hI.2⟩)
    ⟨hr, rfl⟩ (along_of_forall (fun e hmem _ => he e hmem) s) hrun
  exact hquiet.2

/-- After a restart a second handler is queued for a while. -/
theorem timer_follows_running_demo :
    ∃ s, run (step noLiteral) (new demoConfig)
        [.start, .timerExpires, .stop, .start, .timerExpires, .timerHandler false] = some s ∧
      s.timerFired = 1 ∧ s.timerWaits ≤ 1 := by
  have hrun : ∃ s, run (step noLiteral) (new demoConfig)
      [.start, .timerExpires, .stop, .start, .timerExpires, .timerHandler false] = some s ∧
      s.timerFired = 1 := ⟨_, rfl, rfl⟩
  obtain ⟨s, hs, hfired⟩ := hrun
  exact ⟨s, hs, hfired, (timer_follows_running hs).1⟩

end Runtime

end Ovpn2ss.Lwip
