/-
  The life of an `OpenVpnClient` (`src/OpenVpnClient.cpp`): `start()` with its error paths, and the
  thread of `ConnectLoop` that it leaves running.

  `start()` reads the profile, scans it for a cipher that is no AEAD cipher, and gives the core a
  configuration; the thread gives a new core a new one before every later attempt. `enabled` is the flag
  `enableNonPreferredDCAlgorithms` of the configuration that the present core was given. The calls of
  `start()` and `stop()` come from one thread, and `start()` is called again only after the last thread
  has ended.

  `weak_only_if_named_or_asked`: no attempt allows the non-preferred algorithms unless the profile
  names one or a cipher was rejected. `stops_within_three`: after `stop()` the thread takes at most three
  more steps, and it calls `connect()` only if it had passed the test of its loop. `keeps_trying`: without
  `stop()` and with a good profile the thread never ends, and after an attempt it comes to the next within
  306 steps, 150 sleeps among them.
-/
import Ovpn2ss.Vpn.CipherScan
import Ovpn2ss.Vpn.ConnectLoop

namespace Ovpn2ss.Vpn

open Ovpn2ss.Lib

structure OpenVpnClient where
  loop : ConnectLoop
  /-- `enableNonPreferredDCAlgorithms` of the configuration last given to the core. -/
  enabled : Bool
  deriving DecidableEq

namespace OpenVpnClient

/-- The constructor: no thread, which is as good as one that has ended. -/
def new : OpenVpnClient := ⟨⟨false, false, false, false, 2000, .ended⟩, false⟩

/-- `start()`. `content` is the profile, if it can be opened, and `evalError` the message of
    `eval_config`, if it fails. `needs_downgrade_` is read only if the scan finds nothing. -/
def start (ovpnPath : String) (s : OpenVpnClient) (content : Option (List Char))
    (evalError : Option String) : Except String Unit × OpenVpnClient :=
  if s.loop.running then (.ok (), s)
  else
    match content with
    | none => (.error ("cannot open ovpn config: " ++ ovpnPath), s)
    | some content =>
      let scanned := (scanOvpnForNonAeadCipher content).isSome
      let nonPreferred := scanned || s.loop.needsDowngrade
      let needsDowngrade := scanned && s.loop.needsDowngrade
      match evalError with
      | some message =>
        (.error ("openvpn config eval failed: " ++ message),
          { s with loop := { s.loop with needsDowngrade := needsDowngrade } })
      | none => (.ok (), ⟨ConnectLoop.start nonPreferred needsDowngrade, nonPreferred⟩)

inductive Event where
  | start (content : Option (List Char)) (evalError : Option String)
  /-- A step of the thread, or of another thread that it can notice. -/
  | thread (e : Vpn.Event)

/-- `eval_config` is given `make_config(true)` for the downgrade and
    `make_config(using_non_preferred)` for the next attempt. -/
def configured (s : OpenVpnClient) : Vpn.Event → Bool
  | .evaluated _ =>
    if s.loop.pc = .downgrading then true
    else if s.loop.pc = .evaluating then s.loop.usingNonPreferred
    else s.enabled
  | _ => s.enabled

def step (ovpnPath : String) (s : OpenVpnClient) : Event → Option OpenVpnClient
  | .start content evalError =>
    if s.loop.pc = .ended then some (s.start ovpnPath content evalError).2 else none
  | .thread e => (s.loop.step e).map (⟨·, s.configured e⟩)

end OpenVpnClient

/-! ## The loop, step by step -/

namespace ConnectLoop

variable {s t : ConnectLoop}

/-- The step is the thread's own. -/
def own : Event → Bool
  | .next | .connect | .connectReturned _ | .threw | .evaluated _ | .slept => true
  | .askDowngrade | .stop | .requestStop => false

/-! ### Stopping -/

/-- The most steps of its own that the thread takes once `running_` is false. -/
def stepsLeft (s : ConnectLoop) : Nat :=
  match s.pc with
  | .ended => 0
  | .head | .tried | .waited => 1
  | .connecting | .downgrading | .waiting _ | .evaluating => 2
  | .providing | .sleeping _ => 3

/-- And the most calls of `connect()` among them. -/
def callsLeft (s : ConnectLoop) : Nat := if s.pc = .providing then 1 else 0

theorem stepsLeft_le (s : ConnectLoop) : s.stepsLeft ≤ 3 := by
  unfold stepsLeft
  split <;> decide

theorem ended_of_stepsLeft (h : s.stepsLeft = 0) : s.pc = .ended := by
  unfold stepsLeft at h
  split at h
  · assumption
  all_goals cases h

theorem goesOn_of_stopped (h : s.running = false) : s.goesOn = false := by
  rw [goesOn, h]
  rfl

/-- Without `start()` the thread is not set running again. -/
theorem stopped_step {e : Event} (h : s.running = false) (hs : s.step e = some t) : t.running = false := by
  cases fires_of_step hs with
  | returned => obtain ⟨-, -, -, heq⟩ | heq := s.returned_cases <;> rw [heq] <;> exact h
  | ends | failed | stopped => rfl
  | _ => exact h

/-- After `stop()`, every step of the thread brings it nearer to its end, and every call of `connect()`
    uses up the one it may still make. -/
theorem stopped_ranks {e : Event} (h : s.running = false) (hs : s.step e = some t) :
    (if own e then 1 else 0) + t.stepsLeft ≤ s.stepsLeft ∧
      (if e == .connect then 1 else 0) + t.callsLeft ≤ s.callsLeft := by
  have hgo := goesOn_of_stopped h
  unfold stepsLeft callsLeft
  cases fires_of_step hs with
  | begins _ hgo' | waits _ hgo' | sleeps _ _ hgo' | resets _ hgo' =>
    rw [hgo] at hgo'
    cases hgo'
  | waited hpc | calls hpc | slept hpc =>
    simp [hpc, own]
  | ends hpc =>
    obtain hpc | hpc | hpc := hpc <;> simp [hpc, own, finish]
  | returned error hpc =>
    obtain ⟨-, -, hr, -⟩ | heq := s.returned_cases
    · rw [h] at hr
      cases hr
    · simp [heq, hpc, own]
  | threw hpc =>
    obtain hpc | hpc | hpc := hpc <;> simp [hpc, own]
  | failed hpc | evaluated hpc =>
    obtain hpc | hpc := hpc <;> simp [hpc, own, finish]
  | asked | requested | stopped => exact ⟨(Nat.zero_add _).le, (Nat.zero_add _).le⟩

/-- After `running_.exchange(false)` the thread takes at most three steps of its own, wherever it is, and
    has ended with the third. It calls `connect()` at most once more, and only if it had passed the test
    of the loop and not called it yet. -/
theorem stops_within_three {es : List Event} (h : run step s (.stop :: es) = some t) :
    es.countP own ≤ 3 ∧ (es.countP own = 3 → t.pc = .ended) ∧
      es.count .connect ≤ 1 ∧ (.connect ∈ es → s.pc = .providing) := by
  obtain ⟨m, hm, h⟩ := run_cons.mp h
  obtain rfl := Option.some.inj hm
  let stopped : ConnectLoop := { s with running := false }
  have halong : Along step (fun s _ => s.running = false) stopped es :=
    along_of_inv (I := fun s => s.running = false) (fun _ _ _ _ hI hs => stopped_step hI hs)
      (fun _ _ _ hI => hI) rfl
  have hsteps := run_countP_le own stepsLeft (fun _ _ _ hI hs => (stopped_ranks hI hs).1) halong h
  have hcalls : es.count .connect + t.callsLeft ≤ stopped.callsLeft :=
    run_countP_le (· == Event.connect) callsLeft (fun _ _ _ hI hs => (stopped_ranks hI hs).2) halong h
  have hle := stopped.stepsLeft_le
  have hone : stopped.callsLeft ≤ 1 := by
    unfold callsLeft
    split <;> decide
  refine ⟨by omega, fun hthree => ended_of_stepsLeft (by omega), by omega, fun hmem => ?_⟩
  have hpos := List.count_pos_iff.mpr hmem
  by_contra hpc
  have hnone : stopped.callsLeft = 0 := if_neg hpc
  omega

/-- `stop()` comes between the test of the loop and the call. -/
theorem stops_within_three_demo :
    ∃ t, run step (start true false) [.next, .stop, .connect, .askDowngrade, .connectReturned true, .next] =
        some t ∧ t.pc = .ended := by
  obtain ⟨s, t, hs, ht⟩ : ∃ s t, step (start true false) .next = some s ∧
      run step s (.stop :: [.connect, .askDowngrade, .connectReturned true, .next]) = some t :=
    ⟨_, _, rfl, rfl⟩
  exact ⟨t, run_cons.mpr ⟨s, hs, ht⟩, (stops_within_three ht).2.1 rfl⟩

/-! ### Going on -/

/-- The thread goes on, and its delay is at most 30 seconds. -/
structure Trying (s : ConnectLoop) : Prop where
  goesOn : s.goesOn = true
  lives : s.pc ≠ .ended
  most : s.reconnectDelayMs ≤ maxReconnectDelayMs

/-- Nobody stops the client, and the profile is good. -/
def Undisturbed (e : Event) : Prop := e ≠ .stop ∧ e ≠ .requestStop ∧ e ≠ .evaluated true

theorem trying_step {e : Event} (h : Trying s) (he : Undisturbed e) (hs : s.step e = some t) :
    Trying t := by
  cases fires_of_step hs with
  | begins | waits | sleeps | waited | calls | threw | evaluated | slept =>
    exact ⟨h.goesOn, fun hc => (by cases hc), h.most⟩
  | resets => exact ⟨h.goesOn, fun hc => (by cases hc), Nat.min_le_right _ _⟩
  | ends _ hgo =>
    rw [h.goesOn] at hgo
    cases hgo
  | returned =>
    obtain ⟨-, -, -, heq⟩ | heq := s.returned_cases <;> rw [heq] <;>
      exact ⟨h.goesOn, fun hc => (by cases hc), (by decide : 2000 ≤ 30000)⟩
  | failed => exact absurd rfl he.2.2
  | asked => exact ⟨h.goesOn, h.lives, h.most⟩
  | stopped => exact absurd rfl he.1
  | requested => exact absurd rfl he.2.1

theorem trying_run {nonPreferred needsDowngrade : Bool} {es : List Event}
    (h : run step (start nonPreferred needsDowngrade) es = some s) (hes : ∀ e ∈ es, Undisturbed e) :
    Trying s :=
  run_guarded_inv (G := fun _ e => Undisturbed e) Trying (fun _ _ _ hI he hs => trying_step hI he hs)
    ⟨rfl, fun hc => (by cases hc), (by decide : 2000 ≤ 30000)⟩
    (along_of_forall (fun e he _ => hes e he) _) h

/-- The thread is never stuck: a test, a call that may return, or a sleep that may be over. -/
theorem exists_own_step (h : s.pc ≠ .ended) :
    ∃ e, own e = true ∧ Undisturbed e ∧ (s.step e).isSome = true := by
  cases hpc : s.pc with
  | head | tried | waiting | waited => exact ⟨.next, rfl, by simp [Undisturbed], by simp [step, hpc]⟩
  | providing => exact ⟨.connect, rfl, by simp [Undisturbed], by simp [step, hpc]⟩
  | connecting => exact ⟨.connectReturned true, rfl, by simp [Undisturbed], by simp [step, hpc]⟩
  | downgrading | evaluating => exact ⟨.evaluated false, rfl, by simp [Undisturbed], by simp [step, hpc]⟩
  | sleeping => exact ⟨.slept, rfl, by simp [Undisturbed], by simp [step, hpc]⟩
  | ended => exact absurd hpc h

/-- The thread is in the `try` block, at or before the call of `connect()`. -/
def attempting (s : ConnectLoop) : Bool := s.pc = .providing || s.pc = .connecting

/-- The sleeps before the next attempt, each for 200 ms of the delay that are left. -/
def sleepsLeft (s : ConnectLoop) : Nat :=
  match s.pc with
  | .downgrading | .tried => (s.reconnectDelayMs + 199) / 200
  | .waiting elapsed => (s.reconnectDelayMs - elapsed + 199) / 200
  | .sleeping elapsed => (s.reconnectDelayMs - (elapsed + 200) + 199) / 200 + 1
  | _ => 0

/-- The steps of its own before the next attempt, if the downgrade ends with an exception. -/
def attemptIn (s : ConnectLoop) : Nat :=
  match s.pc with
  | .head => 1
  | .evaluating => 2
  | .waited => 3
  | .sleeping _ => 2 * s.sleepsLeft + 3
  | .waiting _ => 2 * s.sleepsLeft + 4
  | .tried => 2 * s.sleepsLeft + 5
  | .downgrading => 2 * s.sleepsLeft + 6
  | .providing | .connecting | .ended => 0

/-- Between two attempts, every step of the thread brings it nearer to the second, and every sleep is
    one of those that are left. -/
theorem between_ranks {e : Event} (h : s.attempting = false) (hs : s.step e = some t) :
    (if own e then 1 else 0) + t.attemptIn ≤ s.attemptIn ∧
      (if e == .slept then 1 else 0) + t.sleepsLeft ≤ s.sleepsLeft := by
  have hnot : s.pc ≠ .providing ∧ s.pc ≠ .connecting := by simpa [attempting] using h
  unfold attemptIn sleepsLeft
  cases fires_of_step hs with
  | begins hpc | resets hpc => simp [hpc, own]
  | waits hpc | waited hpc | slept hpc | sleeps hpc =>
    simp only [hpc, own, beq_self_eq_true, reduceCtorEq, beq_iff_eq, if_true, if_false]
    omega
  | ends hpc =>
    obtain hpc | hpc | hpc := hpc <;> rw [hpc] <;> simp [own, finish]
  | calls hpc => exact absurd hpc hnot.1
  | returned _ hpc => exact absurd hpc hnot.2
  | threw hpc =>
    obtain hpc | hpc | hpc := hpc
    · exact absurd hpc hnot.1
    · exact absurd hpc hnot.2
    · rw [hpc]
      simp [own]
      omega
  | failed hpc | evaluated hpc =>
    obtain hpc | hpc := hpc <;> rw [hpc] <;> simp [own, finish]
  | asked | requested | stopped => exact ⟨(Nat.zero_add _).le, (Nat.zero_add _).le⟩

/-- As long as nobody stops the client and `eval_config` accepts the profile, the thread does not end and
    is not stuck, whatever becomes of its attempts. After an attempt, also one that leads to the
    downgrade, it takes at most 306 steps of its own before it begins the next, and sleeps at most 150
    times. -/
theorem keeps_trying {nonPreferred needsDowngrade : Bool} {es : List Event}
    (h : run step (start nonPreferred needsDowngrade) es = some s) (hes : ∀ e ∈ es, Undisturbed e) :
    s.pc ≠ .ended ∧ (∃ e, own e = true ∧ Undisturbed e ∧ (s.step e).isSome = true) ∧
      (s.pc = .tried ∨ s.pc = .downgrading → ∀ fs t, run step s fs = some t →
        Along step (fun m _ => m.attempting = false) s fs →
          fs.countP own ≤ 306 ∧ fs.count .slept ≤ 150) := by
  have htrying := trying_run h hes
  refine ⟨htrying.lives, exists_own_step htrying.lives, fun hpc fs t ht hbetween => ?_⟩
  have hsteps := run_countP_le own attemptIn (fun _ _ _ hI hs => (between_ranks hI hs).1) hbetween ht
  have hsleeps : fs.count .slept + t.sleepsLeft ≤ s.sleepsLeft :=
    run_countP_le (· == Event.slept) sleepsLeft (fun _ _ _ hI hs => (between_ranks hI hs).2) hbetween ht
  have hmost := htrying.most
  rw [maxReconnectDelayMs] at hmost
  have hsleeps' : s.sleepsLeft ≤ 150 := by
    obtain hpc | hpc := hpc <;> simp only [sleepsLeft, hpc] <;> omega
  have hsteps' : s.attemptIn ≤ 2 * s.sleepsLeft + 6 := by
    obtain hpc | hpc := hpc <;> simp only [attemptIn, hpc] <;> omega
  exact ⟨by omega, by omega⟩

/-- An attempt that is rejected for its cipher, and a downgrade that ends with an exception: the next
    attempt begins after two seconds. -/
theorem keeps_trying_demo :
    ∃ s t, run step (start false false) [.next, .connect, .askDowngrade, .connectReturned true] = some s ∧
      s.pc = .downgrading ∧ run step s (.threw :: twoSeconds) = some t ∧
      (Event.threw :: twoSeconds).countP own ≤ 306 ∧ (Event.threw :: twoSeconds).count .slept ≤ 150 := by
  obtain ⟨s, t, hs, hpc, ht, hbetween⟩ : ∃ s t,
      run step (start false false) [.next, .connect, .askDowngrade, .connectReturned true] = some s ∧
      s.pc = .downgrading ∧ run step s (.threw :: twoSeconds) = some t ∧
      Along step (fun m _ => m.attempting = false) s (.threw :: twoSeconds) := by
    refine ⟨⟨true, false, false, true, 2000, .downgrading⟩, ⟨true, false, false, true, 4000, .head⟩,
      rfl, rfl, rfl, ?_⟩
    decide
  refine ⟨s, t, hs, hpc, ht, (keeps_trying hs ?_).2.2 (Or.inr hpc) _ t ht hbetween⟩
  simp [Undisturbed]

end ConnectLoop

/-! ## The algorithms an attempt allows -/

namespace OpenVpnClient

variable {ovpnPath : String} {s t : OpenVpnClient}

/-- The profile of the last `start()` that got as far as a thread. -/
def profile (es : List Event) : Option (List Char) :=
  (es.filterMap fun
    | .start (some content) none => some content
    | _ => none).getLast?

theorem profile_thread (es : List Event) (e : Vpn.Event) : profile (es ++ [.thread e]) = profile es := by
  simp [profile]

theorem profile_start (es : List Event) (content : List Char) :
    profile (es ++ [.start (some content) none]) = some content := by
  simp [profile]

/-- What may make a client weak: the profile it runs, or a log line of its core. -/
def Reason (es : List Event) : Prop :=
  .thread .askDowngrade ∈ es ∨ ∃ content, profile es = some content ∧ NamesNonAead (tokens content)

theorem scan_iff (content : List Char) :
    (scanOvpnForNonAeadCipher content).isSome = true ↔ NamesNonAead (tokens content) := by
  rw [scan_eq_captured, any_captured]

theorem Reason.thread {es : List Event} (h : Reason es) (e : Vpn.Event) :
    Reason (es ++ [.thread e]) := by
  obtain h | h := h
  · exact Or.inl (List.mem_append_left _ h)
  · exact Or.inr (by rwa [profile_thread])

structure Justified (es : List Event) (s : OpenVpnClient) : Prop where
  asked : s.loop.needsDowngrade = true → .thread .askDowngrade ∈ es
  weak : s.loop.pc ≠ .ended → s.loop.usingNonPreferred = true → Reason es
  downgrade : s.loop.pc = .downgrading → s.loop.usingNonPreferred = true
  /-- Between `eval_config` and the attempt the flag is the thread's. -/
  given : s.loop.pc = .head ∨ s.loop.attempting = true → s.enabled = s.loop.usingNonPreferred

theorem justified_start {es : List Event} {content : Option (List Char)} {evalError : Option String}
    (h : Justified es s) (hpc : s.loop.pc = .ended) :
    Justified (es ++ [.start content evalError]) (s.start ovpnPath content evalError).2 := by
  have hmem {e : Event} (he : e ∈ es) : e ∈ es ++ [.start content evalError] := List.mem_append_left _ he
  have hsame {nd : Bool} (hnd : nd = true → s.loop.needsDowngrade = true) :
      Justified (es ++ [.start content evalError]) { s with loop := { s.loop with needsDowngrade := nd } } :=
    ⟨fun hn => hmem (h.asked (hnd hn)), fun hne => absurd hpc hne, h.downgrade, h.given⟩
  unfold start
  split
  · exact hsame id
  · split
    · exact hsame id
    · rename_i content
      split
      · exact hsame fun hn => (Bool.and_eq_true _ _ ▸ hn).2
      · refine ⟨fun hn => hmem (h.asked (Bool.and_eq_true _ _ ▸ hn).2), fun _ hweak => ?_, fun hc => (by cases hc),
          fun _ => rfl⟩
        obtain hscan | hn := Bool.or_eq_true _ _ ▸ hweak
        · exact Or.inr ⟨content, profile_start es content, (scan_iff content).mp hscan⟩
        · exact Or.inl (hmem (h.asked hn))

theorem justified_thread {es : List Event} {e : Vpn.Event} {l : ConnectLoop} (h : Justified es s)
    (hs : s.loop.step e = some l) : Justified (es ++ [.thread e]) ⟨l, s.configured e⟩ := by
  have hasked (hn : s.loop.needsDowngrade = true) : Event.thread .askDowngrade ∈ es ++ [.thread e] :=
    List.mem_append_left _ (h.asked hn)
  have hweak {pc : Pc} (hpc : s.loop.pc = pc) (hne : pc ≠ .ended) (hu : s.loop.usingNonPreferred = true) :
      Reason (es ++ [.thread e]) := (h.weak (hpc ▸ hne) hu).thread e
  cases ConnectLoop.fires_of_step hs with
  | begins hpc =>
    exact ⟨hasked, fun _ => hweak hpc (by simp), fun hc => (by cases hc), fun _ => h.given (Or.inl hpc)⟩
  | calls hpc =>
    have hattempt : s.loop.attempting = true := by simp [ConnectLoop.attempting, hpc]
    exact ⟨hasked, fun _ => hweak hpc (by simp), fun hc => (by cases hc),
      fun _ => h.given (Or.inr hattempt)⟩
  | waits hpc | sleeps hpc | waited hpc | slept hpc | resets hpc =>
    exact ⟨hasked, fun _ => hweak hpc (by simp), fun hc => (by cases hc),
      fun hc => (by simp [ConnectLoop.attempting] at hc)⟩
  | ends | failed =>
    exact ⟨hasked, fun hne => absurd rfl hne, fun hc => (by cases hc),
      fun hc => (by simp [ConnectLoop.finish, ConnectLoop.attempting] at hc)⟩
  | returned error hpc =>
    obtain ⟨hn, -, -, heq⟩ | heq := s.loop.returned_cases <;> rw [heq]
    · exact ⟨fun hc => (by cases hc), fun _ _ => Or.inl (hasked hn), fun _ => rfl,
        fun hc => (by simp [ConnectLoop.attempting] at hc)⟩
    · exact ⟨fun hc => (by cases hc), fun _ => hweak hpc (by simp), fun hc => (by cases hc),
        fun hc => (by simp [ConnectLoop.attempting] at hc)⟩
  | threw hpc =>
    obtain hpc | hpc | hpc := hpc <;>
      exact ⟨hasked, fun _ => hweak hpc (by simp), fun hc => (by cases hc),
        fun hc => (by simp [ConnectLoop.attempting] at hc)⟩
  | evaluated hpc =>
    have hgiven : s.configured (.evaluated false) = s.loop.usingNonPreferred := by
      obtain hpc | hpc := hpc
      · rw [configured, if_pos hpc, h.downgrade hpc]
      · rw [configured, if_neg (by simp [hpc]), if_pos hpc]
    have hne : s.loop.pc ≠ .ended := by
      obtain hpc | hpc := hpc <;> simp [hpc]
    exact ⟨hasked, fun _ => hweak rfl hne, fun hc => (by cases hc), fun _ => hgiven⟩
  | asked =>
    exact ⟨fun _ => List.mem_append_right _ (List.mem_singleton_self _), hweak rfl, h.downgrade, h.given⟩
  | stopped | requested => exact ⟨hasked, hweak rfl, h.downgrade, h.given⟩

theorem justified_step {es : List Event} {e : Event} (h : Justified es s)
    (hs : step ovpnPath s e = some t) : Justified (es ++ [e]) t := by
  cases e with
  | start content evalError =>
    simp only [step] at hs
    split at hs
    · obtain rfl := Option.some.inj hs
      exact justified_start h ‹_›
    · cases hs
  | thread e =>
    simp only [step] at hs
    obtain ⟨l, hl, rfl⟩ := Option.map_eq_some_iff.mp hs
    exact justified_thread h hl

/-- Over any number of starts and stops: an attempt is made with the non-preferred data channel
    algorithms allowed only if a core has complained of a cipher, or the profile of this start names a
    cipher that is no AEAD cipher. -/
theorem weak_only_if_named_or_asked {es : List Event} (h : run (step ovpnPath) new es = some s)
    (hattempt : s.loop.pc = .connecting) (hweak : s.enabled = true) :
    .thread .askDowngrade ∈ es ∨
      ∃ content, profile es = some content ∧ NamesNonAead (tokens content) := by
  have hnew : Justified [] new :=
    ⟨fun hc => (by cases hc), fun hne => absurd rfl hne, fun hc => (by cases hc), fun _ => rfl⟩
  have hinv : Justified es s :=
    run_history_inv Justified hnew (fun _ _ _ _ _ hI hs => justified_step hI hs) h
  rw [hinv.given (Or.inr (by simp [ConnectLoop.attempting, hattempt]))] at hweak
  exact hinv.weak (by simp [hattempt]) hweak

/-- A profile with one line, and the first attempt with it. -/
theorem weak_only_if_named_or_asked_demo :
    ∃ s, run (step "a.ovpn") new
        [.start (some "cipher BF-CBC".toList) none, .thread .next, .thread .connect] = some s ∧
      ∃ content, profile [.start (some "cipher BF-CBC".toList) none, .thread .next, .thread .connect] =
          some content ∧
        NamesNonAead (tokens content) := by
  obtain ⟨s, hs, hpc, hweak⟩ : ∃ s, run (step "a.ovpn") new
      [.start (some "cipher BF-CBC".toList) none, .thread .next, .thread .connect] = some s ∧
      s.loop.pc = .connecting ∧ s.enabled = true := ⟨_, rfl, rfl, rfl⟩
  refine ⟨s, hs, (weak_only_if_named_or_asked hs hpc hweak).resolve_left ?_⟩
  simp

end OpenVpnClient

end Ovpn2ss.Vpn
