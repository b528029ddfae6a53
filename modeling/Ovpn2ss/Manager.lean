/-
  The listener of an instance under its manager (`src/MultiInstanceManager.cpp`, with
  `notify_tun_ready` and `notify_tun_down` of `src/OpenVpnClient.cpp`).

  Three threads take part. The VPN thread copies a handler under the mutex and then calls it, which
  posts a task. `MultiInstanceManager::stop` clears `running_`, posts a task of its own and at last
  stops the io_context, having waited for that task for at most two seconds. The instance's thread
  runs the tasks in the order they were posted. A step is what one thread does between two points at
  which another can see a difference: a task of a tunnel event checks `running_` in one step and
  acts in the next, and the task of `stop` clears the handlers one after the other. Once its work
  guard is reset `io->run()` may also end for lack of work; that it goes on here only adds runs.

  While the manager runs, what was posted is what has been done, what is being done and what is
  queued, in this order, so with nothing left to do the listener is as the last event wants it. Once
  `running_` is cleared no task passes its check any more, and the task of `stop` comes after all
  that have (`listener_follows_tunnel`).
-/
import Ovpn2ss.Inbound.Listener

namespace Ovpn2ss.Manager

open Ovpn2ss.Aead Ovpn2ss.Lib Ovpn2ss.Inbound
open ShadowsocksInbound (listens demoInbound)

inductive TunEvent where
  | ready
  | down
  deriving DecidableEq

inductive Task where
  /-- `start_instance`. -/
  | startInstance
  /-- What the ready and the disconnect handler post. -/
  | tun (e : TunEvent)
  /-- What `stop` posts. -/
  | stopAll
  deriving DecidableEq

/-- The event a task acts for. -/
def Task.event : Task → Option TunEvent
  | .tun e => some e
  | _ => none

/-- Where a task stands. -/
inductive Running where
  /-- `running_` was true. -/
  | checked (e : TunEvent)
  /-- `set_ready_handler({})` is next. -/
  | clearReady
  /-- `set_disconnect_handler({})` is next. -/
  | clearDisconnect
  /-- `ss->stop()` is next. -/
  | stopInbound
  /-- `vpn->stop()`, `lwip->stop()` and `set_value()` are left. -/
  | finish
  deriving DecidableEq

/-- Where `MultiInstanceManager::stop` stands. -/
inductive StopPc where
  | idle
  | flagged
  | posted
  | ioStopped
  deriving DecidableEq

structure InstanceRuntime where
  running : Bool
  /-- `ready_handler_` and `disconnect_handler_` are set. -/
  readyHandler : Bool
  disconnectHandler : Bool
  /-- The VPN thread has copied the handler of this event and not yet called it. -/
  notifying : Option TunEvent
  queue : List Task
  current : Option Running
  stopPc : StopPc
  /-- `io->run()` takes tasks. -/
  ioRuns : Bool
  ss : ShadowsocksInbound
  /-- The events posted so far. -/
  posted : List TunEvent
  /-- The task of `stop` has run. -/
  stopRan : Bool

namespace InstanceRuntime

/-- The instance as `MultiInstanceManager::start` leaves it. -/
def new (ss : ShadowsocksInbound) : InstanceRuntime where
  running := true
  readyHandler := true
  disconnectHandler := true
  notifying := none
  queue := [.startInstance]
  current := none
  stopPc := .idle
  ioRuns := true
  ss := ss
  posted := []
  stopRan := false

def handlerSet (s : InstanceRuntime) : TunEvent → Bool
  | .ready => s.readyHandler
  | .down => s.disconnectHandler

/-- The first part of a task. `start_instance` starts the runtime and the VPN, not the listener. -/
def begin (s : InstanceRuntime) : Task → InstanceRuntime
  | .startInstance => s
  | .tun e => if s.running then { s with current := some (.checked e) } else s
  | .stopAll => { s with current := some .clearReady }

/-- The next part of a task. What `ss->start()` throws ends `io->run()`. -/
def resume (s : InstanceRuntime) (a : ListenAnswers) : Running → InstanceRuntime
  | .checked .ready =>
    match s.ss.start a with
    | (.ok (), ss) => { s with ss := ss, current := none }
    | (.error _, ss) => { s with ss := ss, current := none, ioRuns := false }
  | .checked .down => { s with ss := s.ss.stop, current := none }
  | .clearReady => { s with readyHandler := false, current := some .clearDisconnect }
  | .clearDisconnect => { s with disconnectHandler := false, current := some .stopInbound }
  | .stopInbound => { s with ss := s.ss.stop, current := some .finish }
  | .finish => { s with current := none, stopRan := true }

inductive Event where
  /-- `notify_tun_ready` or `notify_tun_down` copies its handler. -/
  | notify (e : TunEvent)
  /-- It calls it. -/
  | call
  | stopFlag
  | stopPost
  | stopIo
  | begin
  | resume (a : ListenAnswers)
  /-- An accept of the listener completes. -/
  | connection
  | acceptError
  /-- The handler of an accept runs, between two tasks. -/
  | accept (r : AcceptResult)

def step (s : InstanceRuntime) : Event → Option InstanceRuntime
  | .notify e =>
    if s.notifying = none then some (if s.handlerSet e then { s with notifying := some e } else s)
    else none
  | .call =>
    match s.notifying with
    | none => none
    | some e =>
      some { s with notifying := none, queue := s.queue ++ [.tun e], posted := s.posted ++ [e] }
  | .stopFlag =>
    if s.stopPc = .idle ∧ s.running then some { s with running := false, stopPc := .flagged } else none
  | .stopPost =>
    if s.stopPc = .flagged then some { s with queue := s.queue ++ [.stopAll], stopPc := .posted }
    else none
  | .stopIo =>
    if s.stopPc = .posted then some { s with ioRuns := false, stopPc := .ioStopped } else none
  | .begin =>
    match s.queue with
    | [] => none
    | task :: queue =>
      if s.current = none ∧ s.ioRuns then some ({ s with queue := queue }.begin task) else none
  | .resume a =>
    match s.current with
    | none => none
    | some r => some (s.resume a r)
  | .connection => (s.ss.step .connection).map fun ss => { s with ss := ss }
  | .acceptError => (s.ss.step .acceptError).map fun ss => { s with ss := ss }
  | .accept r =>
    if s.current = none ∧ s.ioRuns then (s.ss.step (.handler r)).map fun ss => { s with ss := ss }
    else none

/-- What a step does, with the guard that let it happen. -/
inductive Fires : InstanceRuntime → Event → InstanceRuntime → Prop
  | notify {s : InstanceRuntime} {e : TunEvent} : Fires s (.notify e) { s with notifying := some e }
  | ignored {s : InstanceRuntime} {e : TunEvent} : Fires s (.notify e) s
  | call {s : InstanceRuntime} {e : TunEvent} (h : s.notifying = some e) :
      Fires s .call
        { s with notifying := none, queue := s.queue ++ [.tun e], posted := s.posted ++ [e] }
  | stopFlag {s : InstanceRuntime} : Fires s .stopFlag { s with running := false, stopPc := .flagged }
  | stopPost {s : InstanceRuntime} (h : s.stopPc = .flagged) :
      Fires s .stopPost { s with queue := s.queue ++ [.stopAll], stopPc := .posted }
  | stopIo {s : InstanceRuntime} (h : s.stopPc = .posted) :
      Fires s .stopIo { s with ioRuns := false, stopPc := .ioStopped }
  | begin {s : InstanceRuntime} {task : Task} {queue : List Task} (hq : s.queue = task :: queue)
      (hc : s.current = none) : Fires s .begin ({ s with queue := queue }.begin task)
  | resume {s : InstanceRuntime} {a : ListenAnswers} {r : Running} (hc : s.current = some r) :
      Fires s (.resume a) (s.resume a r)
  | accept {s : InstanceRuntime} {e : Event} {ss : ShadowsocksInbound}
      (hstarted : ss.started = s.ss.started) (hacceptor : ss.acceptor = s.ss.acceptor) :
      Fires s e { s with ss := ss }

variable {s s' : InstanceRuntime} {e : Event}

/-- An accept that completes, or its handler, leaves the listener as far open as it is. -/
theorem fires_accept {e' : ShadowsocksInbound.Event} (hstart : ∀ a, e' ≠ .start a) (hstop : e' ≠ .stop)
    (hs : (s.ss.step e').map (fun ss => { s with ss := ss }) = some s') : Fires s e s' := by
  obtain ⟨ss, hss, rfl⟩ := Option.map_eq_some_iff.mp hs
  obtain ⟨hstarted, hacceptor⟩ := ShadowsocksInbound.step_keeps hss hstart hstop
  exact .accept hstarted hacceptor

/-- The inversion of `step`. -/
theorem fires_of_step (hs : s.step e = some s') : Fires s e s' := by
  cases e with
  | notify e =>
    simp only [step] at hs
    split at hs
    · obtain rfl := Option.some.inj hs
      split
      · exact .notify
      · exact .ignored
    · cases hs
  | call =>
    simp only [step] at hs
    split at hs
    · cases hs
    · next h =>
      obtain rfl := Option.some.inj hs
      exact .call h
  | stopFlag =>
    simp only [step] at hs
    split at hs
    · obtain rfl := Option.some.inj hs
      exact .stopFlag
    · cases hs
  | stopPost =>
    simp only [step] at hs
    split at hs
    · next h =>
      obtain rfl := Option.some.inj hs
      exact .stopPost h
    · cases hs
  | stopIo =>
    simp only [step] at hs
    split at hs
    · next h =>
      obtain rfl := Option.some.inj hs
      exact .stopIo h
    · cases hs
  | begin =>
    simp only [step] at hs
    split at hs
    · cases hs
    · next hq =>
      split at hs
      · next h =>
        obtain rfl := Option.some.inj hs
        exact .begin hq h.1
      · cases hs
  | resume a =>
    simp only [step] at hs
    split at hs
    · cases hs
    · next hc =>
      obtain rfl := Option.some.inj hs
      exact .resume hc
  | connection => exact fires_accept (fun a h => by cases h) (fun h => by cases h) hs
  | acceptError => exact fires_accept (fun a h => by cases h) (fun h => by cases h) hs
  | accept r =>
    simp only [step] at hs
    split at hs
    · exact fires_accept (fun a h => by cases h) (fun h => by cases h) hs
    · cases hs

/-- A task begins without an effect, or it is at its first part. -/
theorem begin_cases (s : InstanceRuntime) (task : Task) :
    s.begin task = s ∨ ∃ r, r ≠ .finish ∧ s.begin task = { s with current := some r } := by
  cases task with
  | startInstance => exact Or.inl rfl
  | tun e =>
    rw [InstanceRuntime.begin]
    split
    · exact Or.inr ⟨.checked e, (fun h => by cases h), rfl⟩
    · exact Or.inl rfl
  | stopAll => exact Or.inr ⟨.clearReady, (fun h => by cases h), rfl⟩

theorem resume_running (s : InstanceRuntime) (a : ListenAnswers) (r : Running) :
    (s.resume a r).running = s.running := by
  unfold InstanceRuntime.resume
  split <;> try rfl
  split <;> rfl

/-! ## What is still to be done -/

/-- The event a task that passed its check acts for. -/
def doing (s : InstanceRuntime) : Option TunEvent :=
  match s.current with
  | some (.checked e) => some e
  | _ => none

/-- The events whose tasks have not ended, the oldest first. -/
def pending (s : InstanceRuntime) : List TunEvent := s.doing.toList ++ s.queue.filterMap Task.event

/-- The listener is as the last event `o` wants it. -/
structure Agrees (ss : ShadowsocksInbound) (o : Option TunEvent) : Prop where
  started : ss.started = true ↔ o = some .ready
  acceptor : ss.acceptor.isOpen = true ↔ o = some .ready

theorem agrees_start {ss : ShadowsocksInbound} {a : ListenAnswers} {o : Option TunEvent}
    (h : Agrees ss o) (hok : (ss.start a).1 = .ok ()) : Agrees (ss.start a).2 (some .ready) := by
  cases hs : ss.started with
  | true =>
    rw [ShadowsocksInbound.start_of_started a hs]
    obtain rfl := h.started.mp hs
    exact h
  | false =>
    rcases ShadowsocksInbound.start_cases a hs with
      ⟨r, acceptor, udp, hopen, -, he⟩ | ⟨e, acceptor, -, he⟩
    · rw [he]
      exact ⟨iff_of_true rfl rfl, iff_of_true hopen rfl⟩
    · rw [he] at hok
      cases hok

theorem agrees_stop (ss : ShadowsocksInbound) : Agrees ss.stop (some .down) :=
  ⟨iff_of_false Bool.false_ne_true (by decide), iff_of_false Bool.false_ne_true (by decide)⟩

/-! ## After the task of `stop` -/

/-- No task acts on the listener, and none that begins will. -/
structure Stopped (s : InstanceRuntime) : Prop where
  running : s.running = false
  doing : s.doing = none
  started : s.ss.started = false
  acceptor : s.ss.acceptor = .closed

theorem Stopped.begin (h : s.Stopped) (task : Task) : (s.begin task).Stopped := by
  cases task with
  | startInstance => exact h
  | tun e =>
    rw [InstanceRuntime.begin, if_neg (Bool.eq_false_iff.mp h.running)]
    exact h
  | stopAll => exact ⟨h.running, rfl, h.started, h.acceptor⟩

theorem Stopped.resume (h : s.Stopped) (a : ListenAnswers) {r : Running} (hc : s.current = some r) :
    (s.resume a r).Stopped := by
  cases r with
  | checked e =>
    have hd := h.doing
    rw [InstanceRuntime.doing, hc] at hd
    cases hd
  | clearReady => exact ⟨h.running, rfl, h.started, h.acceptor⟩
  | clearDisconnect => exact ⟨h.running, rfl, h.started, h.acceptor⟩
  | stopInbound => exact ⟨h.running, rfl, rfl, rfl⟩
  | finish => exact ⟨h.running, rfl, h.started, h.acceptor⟩

theorem stopped_step (h : s.Stopped) (hs : s.step e = some s') : s'.Stopped := by
  cases fires_of_step hs with
  | notify => exact ⟨h.running, h.doing, h.started, h.acceptor⟩
  | ignored => exact h
  | call hn => exact ⟨h.running, h.doing, h.started, h.acceptor⟩
  | stopFlag => exact ⟨rfl, h.doing, h.started, h.acceptor⟩
  | stopPost hpc => exact ⟨h.running, h.doing, h.started, h.acceptor⟩
  | stopIo hpc => exact ⟨h.running, h.doing, h.started, h.acceptor⟩
  | @begin task queue hq hc =>
    have hqueue : Stopped { s with queue := queue } := ⟨h.running, h.doing, h.started, h.acceptor⟩
    exact hqueue.begin task
  | resume hc => exact h.resume _ hc
  | accept hstarted hacceptor =>
    exact ⟨h.running, h.doing, hstarted.trans h.started, hacceptor.trans h.acceptor⟩

theorem stopped_run {es : List Event} (h : s.Stopped) (hr : run step s es = some s') : s'.Stopped :=
  run_inv Stopped (fun _ _ _ => stopped_step) h hr

/-! ## While the manager runs -/

/-- `ss->start()` does not throw. -/
def NoThrow (s : InstanceRuntime) (e : Event) : Prop :=
  ∀ a, e = .resume a → s.current = some (.checked .ready) → (s.ss.start a).1 = .ok ()

/-- While the manager runs no part of `stop` but its call is under way, and the listener is as the
    last event done wants it. -/
structure Live (s : InstanceRuntime) : Prop where
  stopPc : s.stopPc = .idle
  queue : Task.stopAll ∉ s.queue
  current : ∀ r, s.current = some r → ∃ e, r = .checked e
  follows : ∃ done, s.posted = done ++ s.pending ∧ Agrees s.ss done.getLast?

/-- The task of `stop` is past `ss->stop()`. -/
def Ended (s : InstanceRuntime) : Prop := s.stopRan = true ∨ s.current = some .finish

structure Invariant (s : InstanceRuntime) : Prop where
  live : s.running = true → s.Live
  stopped : s.Ended → s.Stopped

/-- A task begins: its event stays pending. -/
theorem Live.begin (h : s.Live) (hr : s.running = true) (hc : s.current = none) {task : Task}
    {queue : List Task} (hq : s.queue = task :: queue) : ({ s with queue := queue }.begin task).Live := by
  have hstop : Task.stopAll ∉ task :: queue := hq ▸ h.queue
  have hrest : Task.stopAll ∉ queue := fun hm => hstop (List.mem_cons_of_mem task hm)
  obtain ⟨done, hposted, hagrees⟩ := h.follows
  rw [pending, doing, hc, hq] at hposted
  cases task with
  | startInstance =>
    refine ⟨h.stopPc, hrest, h.current, done, ?_, hagrees⟩
    rw [InstanceRuntime.begin, pending, doing, hc]
    exact hposted
  | tun e =>
    rw [InstanceRuntime.begin, if_pos hr]
    refine ⟨h.stopPc, hrest, fun r hr' => ⟨e, (Option.some.inj hr').symm⟩, done, ?_, hagrees⟩
    exact hposted
  | stopAll => exact absurd List.mem_cons_self hstop

/-- A task ends that did what its event wants. -/
theorem Live.ended (h : s.Live) {e : TunEvent} (hc : s.current = some (.checked e))
    {ss : ShadowsocksInbound} (hss : Agrees ss (some e)) :
    Live { s with ss := ss, current := none } := by
  obtain ⟨done, hposted, -⟩ := h.follows
  refine ⟨h.stopPc, h.queue, fun r hr => (by cases hr), done ++ [e], ?_, ?_⟩
  · rw [pending, doing, hc] at hposted
    rw [List.append_assoc]
    exact hposted
  · rw [List.getLast?_concat]
    exact hss

theorem Live.resume (h : s.Live) {a : ListenAnswers} (hG : NoThrow s (.resume a)) {r : Running}
    (hc : s.current = some r) : (s.resume a r).Live := by
  obtain ⟨e, rfl⟩ := h.current r hc
  cases e with
  | ready =>
    have hok := hG a rfl hc
    obtain ⟨done, -, hagrees⟩ := h.follows
    have hss := agrees_start hagrees hok
    rcases hstart : s.ss.start a with ⟨r, ss⟩
    rw [hstart] at hok hss
    obtain rfl : r = .ok () := hok
    rw [InstanceRuntime.resume, hstart]
    exact h.ended hc hss
  | down => exact h.ended hc (agrees_stop s.ss)

theorem live_step (h : s.Live) (hr : s.running = true) (hG : NoThrow s e)
    (hs : s.step e = some s') (hr' : s'.running = true) : s'.Live := by
  cases fires_of_step hs with
  | notify => exact ⟨h.stopPc, h.queue, h.current, h.follows⟩
  | ignored => exact h
  | @call e hn =>
    obtain ⟨done, hposted, hagrees⟩ := h.follows
    refine ⟨h.stopPc, fun hm => ?_, h.current, done, ?_, hagrees⟩
    · rcases List.mem_append.mp hm with hm | hm
      · exact h.queue hm
      · cases List.mem_singleton.mp hm
    · change s.posted ++ [e] = done ++ (s.doing.toList ++ (s.queue ++ [Task.tun e]).filterMap Task.event)
      rw [List.filterMap_append, ← List.append_assoc s.doing.toList, ← List.append_assoc done]
      exact congrArg (· ++ [e]) hposted
  | stopFlag => cases hr'
  | stopPost hpc =>
    rw [h.stopPc] at hpc
    cases hpc
  | stopIo hpc =>
    rw [h.stopPc] at hpc
    cases hpc
  | begin hq hc => exact h.begin hr hc hq
  | resume hc => exact h.resume hG hc
  | accept hstarted hacceptor =>
    obtain ⟨done, hposted, hagrees⟩ := h.follows
    refine ⟨h.stopPc, h.queue, h.current, done, hposted, ?_, ?_⟩
    · rw [hstarted]
      exact hagrees.started
    · rw [hacceptor]
      exact hagrees.acceptor

/-- `running_` is never set again. -/
theorem running_of_step (hs : s.step e = some s') (hr' : s'.running = true) : s.running = true := by
  cases fires_of_step hs with
  | notify => exact hr'
  | ignored => exact hr'
  | call hn => exact hr'
  | stopFlag => cases hr'
  | stopPost hpc => exact hr'
  | stopIo hpc => exact hr'
  | @begin task queue hq hc =>
    rcases begin_cases { s with queue := queue } task with heq | ⟨r, -, heq⟩ <;> rw [heq] at hr' <;>
      exact hr'
  | resume hc =>
    rw [resume_running] at hr'
    exact hr'
  | accept hstarted hacceptor => exact hr'

theorem Ended.before (h : s'.Ended) (hran : s'.stopRan = s.stopRan) (hc : s'.current ≠ some .finish) :
    s.Ended := by
  rcases h with h | h
  · exact Or.inl (hran ▸ h)
  · exact absurd h hc

/-- The task of `stop` gets past `ss->stop()` in one step only, which leaves the listener stopped. -/
theorem stopped_of_step (h : s.Invariant) (hs : s.step e = some s') (hend : s'.Ended) :
    s'.Stopped := by
  by_cases hbefore : s.Ended
  · exact stopped_step (h.stopped hbefore) hs
  cases fires_of_step hs with
  | notify => exact absurd hend hbefore
  | ignored => exact absurd hend hbefore
  | call hn => exact absurd hend hbefore
  | stopFlag => exact absurd hend hbefore
  | stopPost hpc => exact absurd hend hbefore
  | stopIo hpc => exact absurd hend hbefore
  | @begin task queue hq hc =>
    rcases begin_cases { s with queue := queue } task with heq | ⟨r, hr, heq⟩ <;> rw [heq] at hend
    · exact absurd hend hbefore
    · exact (hbefore (hend.before rfl fun hc' => hr (Option.some.inj hc'))).elim
  | @resume a r hc =>
    cases r with
    | checked e =>
      have hran : (s.resume a (.checked e)).stopRan = s.stopRan := by
        cases e with
        | ready => rw [InstanceRuntime.resume]; split <;> rfl
        | down => rfl
      have hcur : (s.resume a (.checked e)).current = none := by
        cases e with
        | ready => rw [InstanceRuntime.resume]; split <;> rfl
        | down => rfl
      exact (hbefore (hend.before hran (by rw [hcur]; decide))).elim
    | clearReady => exact (hbefore (hend.before rfl fun hc' => (by cases hc'))).elim
    | clearDisconnect => exact (hbefore (hend.before rfl fun hc' => (by cases hc'))).elim
    | stopInbound =>
      -- while the manager runs the only tasks that act are those of tunnel events
      have hr : s.running = false := by
        cases hr : s.running with
        | false => rfl
        | true =>
          obtain ⟨e, he⟩ := (h.live hr).current _ hc
          cases he
      exact ⟨hr, rfl, rfl, rfl⟩
    | finish => exact absurd (Or.inr hc) hbefore
  | accept hstarted hacceptor => exact absurd hend hbefore

theorem invariant_new (config : ShadowsocksConfig) (crypto : ShadowsocksAeadFactory) :
    (new (.new config crypto)).Invariant where
  live _ := by
    have hqueue : Task.stopAll ∉ [Task.startInstance] := by decide
    refine ⟨rfl, hqueue, fun r hr => (by cases hr), [], rfl, ?_, ?_⟩
    · exact iff_of_false Bool.false_ne_true (by decide)
    · exact iff_of_false Bool.false_ne_true (by decide)
  stopped h := by
    rcases h with h | h <;> cases h

theorem invariant_step (h : s.Invariant) (hG : NoThrow s e) (hs : s.step e = some s') :
    s'.Invariant where
  live hr' := by
    have hr := running_of_step hs hr'
    exact live_step (h.live hr) hr hG hs hr'
  stopped hend := stopped_of_step h hs hend

/-- In every state the instance can reach: while the manager runs and no task is left, the listener
    is started, and its acceptor open, exactly if the last event posted was ready; and once the task
    of `stop` has run, nothing that can still happen starts it. -/
theorem listener_follows_tunnel {config : ShadowsocksConfig} {crypto : ShadowsocksAeadFactory}
    {es : List Event} (hG : Along step NoThrow (new (.new config crypto)) es)
    (h : run step (new (.new config crypto)) es = some s) :
    (s.running = true → s.queue = [] → s.current = none →
      (s.ss.started = true ↔ s.posted.getLast? = some .ready) ∧
      (s.ss.acceptor.isOpen = true ↔ s.posted.getLast? = some .ready)) ∧
    (s.stopRan = true → ∀ fs s', run step s fs = some s' →
      s'.ss.started = false ∧ s'.ss.acceptor = .closed) := by
  have hinv : s.Invariant :=
    run_guarded_inv Invariant (fun _ _ _ => invariant_step) (invariant_new config crypto) hG h
  refine ⟨fun hr hq hc => ?_, fun hran fs s' hs' => ?_⟩
  · obtain ⟨done, hposted, hagrees⟩ := (hinv.live hr).follows
    rw [pending, doing, hq, hc] at hposted
    obtain rfl : s.posted = done := hposted.trans (List.append_nil done)
    exact ⟨hagrees.started, hagrees.acceptor⟩
  · have hstopped := stopped_run (hinv.stopped (Or.inl hran)) hs'
    exact ⟨hstopped.started, hstopped.acceptor⟩

/-- If every call of `start` succeeds, it does not throw. -/
theorem along_listens {es : List Event} (h : ∀ a, Event.resume a ∈ es → a = listens) :
    Along step NoThrow s es := by
  refine along_of_forall (fun e he s a ha _ => ?_) s
  obtain rfl : a = listens := h a (ha ▸ he)
  exact ShadowsocksInbound.start_listens s.ss

/-- The tunnel comes up. -/
def demoReady : List Event := [.begin, .notify .ready, .call, .begin, .resume listens]

/-- The ready handler is copied before `stop` and called after its task has run. -/
def demoLate : List Event :=
  [.begin, .notify .ready, .stopFlag, .stopPost, .begin, .resume listens, .resume listens,
    .resume listens, .resume listens, .call, .begin]

theorem listener_follows_demo :
    (∃ s, run step (new demoInbound) demoReady = some s ∧ s.running = true ∧ s.queue = [] ∧
      s.current = none ∧ s.posted = [.ready] ∧
      (s.ss.started = true ↔ s.posted.getLast? = some .ready)) ∧
    ∃ s, run step (new demoInbound) demoLate = some s ∧ s.stopRan = true ∧ s.posted = [.ready] ∧
      ∀ fs s', run step s fs = some s' → s'.ss.started = false ∧ s'.ss.acceptor = .closed := by
  constructor
  · obtain ⟨s, h, hr, hq, hc, hp⟩ : ∃ s, run step (new demoInbound) demoReady = some s ∧
        s.running = true ∧ s.queue = [] ∧ s.current = none ∧ s.posted = [.ready] :=
      ⟨_, rfl, rfl, rfl, rfl, rfl⟩
    have hG : Along step NoThrow (new demoInbound) demoReady :=
      along_listens (fun a ha => by simpa [demoReady] using ha)
    exact ⟨s, h, hr, hq, hc, hp, ((listener_follows_tunnel hG h).1 hr hq hc).1⟩
  · obtain ⟨s, h, hran, hp⟩ : ∃ s, run step (new demoInbound) demoLate = some s ∧
        s.stopRan = true ∧ s.posted = [.ready] := ⟨_, rfl, rfl, rfl⟩
    have hG : Along step NoThrow (new demoInbound) demoLate :=
      along_listens (fun a ha => by simpa [demoLate] using ha)
    exact ⟨s, h, hran, hp, (listener_follows_tunnel hG h).2 hran⟩

end InstanceRuntime

end Ovpn2ss.Manager
