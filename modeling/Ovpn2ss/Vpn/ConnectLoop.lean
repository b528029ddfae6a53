/-
  The connect loop of `OpenVpnClient::start` (`src/OpenVpnClient.cpp`): the thread that calls
  `core.connect()` again and again and waits in between.

  `step` is one statement of the thread that another thread can see the effects of or interfere
  with; `stop()` and the log callback, which asks for a cipher downgrade, run on other threads and
  are events of their own. What `connect()`, `provide_creds` and `eval_config` do is in the events:
  they return, with an error or without, or throw. An exception outside the `try` block ends the
  process and is no event.

  The delay is doubled after each wait, up to 30 seconds. It is set back to 2 seconds whenever
  `connect()` returns, with an error as much as without, and only an exception leaves it as it is.
  So the waits grow as long as the attempts throw, and only then (`waits_exponential_iff`).
-/
import Ovpn2ss.Lib.Machine

namespace Ovpn2ss.Vpn

open Ovpn2ss.Lib

/-- Where the thread is. -/
inductive Pc where
  /-- The condition of the `while` loop. -/
  | head
  /-- In the `try` block, at `provide_creds` and before the call of `core.connect()`. -/
  | providing
  /-- In `core.connect()`. -/
  | connecting
  /-- In the `try` block, at `eval_config` for the downgrade. -/
  | downgrading
  /-- After the `try` block. -/
  | tried
  /-- The condition of the `for` loop. -/
  | waiting (elapsed : Nat)
  | sleeping (elapsed : Nat)
  /-- After the `for` loop. -/
  | waited
  /-- At `eval_config` for the next attempt. -/
  | evaluating
  | ended
  deriving DecidableEq

/-- The atomics of the client with the variables of the thread. -/
structure ConnectLoop where
  running : Bool
  stopRequested : Bool
  needsDowngrade : Bool
  usingNonPreferred : Bool
  reconnectDelayMs : Nat
  pc : Pc
  deriving DecidableEq

inductive Event where
  /-- One of the tests of the thread. -/
  | next
  /-- The thread calls `core.connect()`. -/
  | connect
  | connectReturned (error : Bool)
  | threw
  | evaluated (error : Bool)
  /-- A sleep of 200 ms is over. -/
  | slept
  /-- The log callback has met a rejected cipher. -/
  | askDowngrade
  /-- `running_.exchange(false)` in `stop()`. -/
  | stop
  /-- `vpn_thread_.request_stop()` in `stop()`. -/
  | requestStop
  deriving DecidableEq

namespace ConnectLoop

def maxReconnectDelayMs : Nat := 30000

/-- The thread starts. `needs_downgrade_` is only cleared if the profile names no other cipher. -/
def start (nonPreferred needsDowngrade : Bool) : ConnectLoop :=
  ⟨true, false, needsDowngrade, nonPreferred, 2000, .head⟩

/-- `running_ && !stop_token.stop_requested()`. -/
def goesOn (s : ConnectLoop) : Bool := s.running && !s.stopRequested

/-- Leaving the loop. -/
def finish (s : ConnectLoop) : ConnectLoop := { s with running := false, pc := .ended }

/-- After the return of `core.connect()`, whatever its status. -/
def returned (s : ConnectLoop) : ConnectLoop :=
  if s.needsDowngrade && !s.usingNonPreferred && s.running then
    { s with reconnectDelayMs := 2000, needsDowngrade := false, usingNonPreferred := true,
             pc := .downgrading }
  else { s with reconnectDelayMs := 2000, needsDowngrade := false, pc := .tried }

def step (s : ConnectLoop) : Event → Option ConnectLoop
  | .next =>
    match s.pc with
    | .head => some (if s.goesOn then { s with pc := .providing } else s.finish)
    | .tried => some (if s.goesOn then { s with pc := .waiting 0 } else s.finish)
    | .waiting elapsed =>
      some (if elapsed < s.reconnectDelayMs && s.goesOn then { s with pc := .sleeping elapsed }
        else { s with pc := .waited })
    | .waited =>
      some (if s.goesOn then
          { s with reconnectDelayMs := min (s.reconnectDelayMs * 2) maxReconnectDelayMs,
                   pc := .evaluating }
        else s.finish)
    | _ => none
  | .connect => if s.pc = .providing then some { s with pc := .connecting } else none
  | .connectReturned _ => if s.pc = .connecting then some s.returned else none
  | .threw =>
    if s.pc = .providing ∨ s.pc = .connecting ∨ s.pc = .downgrading then some { s with pc := .tried }
    else none
  | .evaluated error =>
    if s.pc = .downgrading ∨ s.pc = .evaluating then
      some (if error then s.finish else { s with pc := .head })
    else none
  | .slept =>
    match s.pc with
    | .sleeping elapsed => some { s with pc := .waiting (elapsed + 200) }
    | _ => none
  | .askDowngrade => some { s with needsDowngrade := true }
  | .stop => some { s with running := false }
  | .requestStop => some { s with stopRequested := true }

/-- What a step does, with the guard that let it happen. -/
inductive Fires : ConnectLoop → Event → ConnectLoop → Prop
  | begins {s : ConnectLoop} (hpc : s.pc = .head) (hgo : s.goesOn = true) :
      Fires s .next { s with pc := .providing }
  | waits {s : ConnectLoop} (hpc : s.pc = .tried) (hgo : s.goesOn = true) :
      Fires s .next { s with pc := .waiting 0 }
  | sleeps {s : ConnectLoop} {elapsed : Nat} (hpc : s.pc = .waiting elapsed)
      (hlt : elapsed < s.reconnectDelayMs) (hgo : s.goesOn = true) :
      Fires s .next { s with pc := .sleeping elapsed }
  | waited {s : ConnectLoop} {elapsed : Nat} (hpc : s.pc = .waiting elapsed)
      (hdone : s.goesOn = true → s.reconnectDelayMs ≤ elapsed) : Fires s .next { s with pc := .waited }
  | resets {s : ConnectLoop} (hpc : s.pc = .waited) (hgo : s.goesOn = true) :
      Fires s .next
        { s with reconnectDelayMs := min (s.reconnectDelayMs * 2) maxReconnectDelayMs, pc := .evaluating }
  | ends {s : ConnectLoop} (hpc : s.pc = .head ∨ s.pc = .tried ∨ s.pc = .waited)
      (hgo : s.goesOn = false) : Fires s .next s.finish
  | calls {s : ConnectLoop} (hpc : s.pc = .providing) : Fires s .connect { s with pc := .connecting }
  | returned {s : ConnectLoop} (error : Bool) (hpc : s.pc = .connecting) :
      Fires s (.connectReturned error) s.returned
  | threw {s : ConnectLoop} (hpc : s.pc = .providing ∨ s.pc = .connecting ∨ s.pc = .downgrading) :
      Fires s .threw { s with pc := .tried }
  | failed {s : ConnectLoop} (hpc : s.pc = .downgrading ∨ s.pc = .evaluating) :
      Fires s (.evaluated true) s.finish
  | evaluated {s : ConnectLoop} (hpc : s.pc = .downgrading ∨ s.pc = .evaluating) :
      Fires s (.evaluated false) { s with pc := .head }
  | slept {s : ConnectLoop} {elapsed : Nat} (hpc : s.pc = .sleeping elapsed) :
      Fires s .slept { s with pc := .waiting (elapsed + 200) }
  | asked {s : ConnectLoop} : Fires s .askDowngrade { s with needsDowngrade := true }
  | stopped {s : ConnectLoop} : Fires s .stop { s with running := false }
  | requested {s : ConnectLoop} : Fires s .requestStop { s with stopRequested := true }

theorem fires_of_next {s t : ConnectLoop} (h : s.step .next = some t) : Fires s .next t := by
  cases hpc : s.pc with
  | head | tried | waited =>
    simp only [step, hpc] at h
    obtain rfl := Option.some.inj h
    cases hgo : s.goesOn with
    | true =>
      rw [if_pos rfl]
      first | exact .begins hpc hgo | exact .waits hpc hgo | exact .resets hpc hgo
    | false =>
      rw [if_neg (by decide)]
      exact .ends (by simp [hpc]) hgo
  | waiting elapsed =>
    simp only [step, hpc] at h
    obtain rfl := Option.some.inj h
    split
    · rename_i hcond
      simp only [Bool.and_eq_true, decide_eq_true_eq] at hcond
      exact .sleeps hpc hcond.1 hcond.2
    · rename_i hcond
      refine .waited hpc fun hgo => ?_
      simp only [hgo, Bool.and_true, decide_eq_true_eq] at hcond
      exact Nat.le_of_not_lt hcond
  | providing | connecting | downgrading | sleeping | evaluating | ended =>
    simp only [step, hpc] at h
    cases h

/-- The inversion of `step`. -/
theorem fires_of_step {s t : ConnectLoop} {e : Event} (h : s.step e = some t) : Fires s e t := by
  cases e with
  | next => exact fires_of_next h
  | connect =>
    obtain ⟨hpc, ⟨⟩⟩ := Option.ite_none_right_eq_some.mp h
    exact .calls hpc
  | connectReturned error =>
    obtain ⟨hpc, ⟨⟩⟩ := Option.ite_none_right_eq_some.mp h
    exact .returned error hpc
  | threw =>
    obtain ⟨hpc, ⟨⟩⟩ := Option.ite_none_right_eq_some.mp h
    exact .threw hpc
  | evaluated error =>
    obtain ⟨hpc, ⟨⟩⟩ := Option.ite_none_right_eq_some.mp h
    cases error with
    | true => exact .failed hpc
    | false => exact .evaluated hpc
  | slept =>
    simp only [step] at h
    split at h
    · rename_i hpc
      obtain rfl := Option.some.inj h
      exact .slept hpc
    · cases h
  | askDowngrade =>
    obtain rfl := Option.some.inj h
    exact .asked
  | stop =>
    obtain rfl := Option.some.inj h
    exact .stopped
  | requestStop =>
    obtain rfl := Option.some.inj h
    exact .requested

/-- The end of an attempt: for the downgrade, or for a wait. -/
theorem returned_cases (s : ConnectLoop) :
    (s.needsDowngrade = true ∧ s.usingNonPreferred = false ∧ s.running = true ∧ s.returned = { s with
        reconnectDelayMs := 2000, needsDowngrade := false, usingNonPreferred := true, pc := .downgrading }) ∨
      s.returned = { s with reconnectDelayMs := 2000, needsDowngrade := false, pc := .tried } := by
  unfold returned
  split
  · rename_i h
    simp only [Bool.and_eq_true, Bool.not_eq_true'] at h
    exact Or.inl ⟨h.1.1, h.1.2, h.2, rfl⟩
  · exact Or.inr rfl

/-! ## Attempts and waits -/

/-- How an attempt ended. -/
inductive Attempt where
  | returned (error : Bool)
  | threw
  deriving DecidableEq

inductive Entry where
  | attempt (a : Attempt)
  | wait (ms : Nat)

/-- What a step adds to the history of attempts and waits. -/
def record (s : ConnectLoop) : Event → List Entry
  | .connectReturned error => [.attempt (.returned error)]
  | .threw => if s.pc = .downgrading then [] else [.attempt .threw]
  | .next =>
    match s.pc with
    | .waiting elapsed =>
      if elapsed < s.reconnectDelayMs && s.goesOn then [] else [.wait elapsed]
    | _ => []
  | _ => []

def Entry.attempt? : Entry → Option Attempt
  | .attempt a => some a
  | .wait _ => none

def Entry.wait? : Entry → Option Nat
  | .attempt _ => none
  | .wait ms => some ms

/-- How the attempts of a run ended, in order. -/
def attempts (s : ConnectLoop) (es : List Event) : List Attempt :=
  (collect step record s es).filterMap Entry.attempt?

/-- The waits of a run that are over, in milliseconds of sleep. -/
def waits (s : ConnectLoop) (es : List Event) : List Nat :=
  (collect step record s es).filterMap Entry.wait?

/-- The wait after an attempt, if the delay was `delay` before it. -/
def waitFor (delay : Nat) : Attempt → Nat
  | .returned _ => 2000
  | .threw => delay

def nextDelay (delay : Nat) (a : Attempt) : Nat := min (waitFor delay a * 2) maxReconnectDelayMs

/-- The delay after some attempts and the waits after them. -/
def delayAfter (attempts : List Attempt) : Nat := attempts.foldl nextDelay 2000

/-- The waits after attempts, from a delay on. -/
def waitsFrom : Nat → List Attempt → List Nat
  | _, [] => []
  | delay, a :: as => waitFor delay a :: waitsFrom (nextDelay delay a) as

theorem waitsFrom_length (delay : Nat) (as : List Attempt) :
    (waitsFrom delay as).length = as.length := by
  induction as generalizing delay with
  | nil => rfl
  | cons a as ih => rw [waitsFrom, List.length_cons, ih, List.length_cons]

theorem waitsFrom_concat (delay : Nat) (as : List Attempt) (a : Attempt) :
    waitsFrom delay (as ++ [a]) = waitsFrom delay as ++ [waitFor (as.foldl nextDelay delay) a] := by
  induction as generalizing delay with
  | nil => rfl
  | cons b as ih => rw [List.cons_append, waitsFrom, ih, waitsFrom, List.cons_append, List.foldl_cons]

theorem delayAfter_concat (as : List Attempt) (a : Attempt) :
    delayAfter (as ++ [a]) = nextDelay (delayAfter as) a := by
  rw [delayAfter, List.foldl_append, List.foldl_cons, List.foldl_nil, ← delayAfter]

/-- The delays are whole numbers of sleeps. -/
theorem dvd_delayAfter (as : List Attempt) : 200 ∣ delayAfter as := by
  suffices hgen : ∀ delay, 200 ∣ delay → 200 ∣ as.foldl nextDelay delay from hgen 2000 (by decide)
  induction as with
  | nil => exact fun delay h => h
  | cons a as ih =>
    intro delay h
    refine ih _ ?_
    have hwait : 200 ∣ waitFor delay a := by
      cases a with
      | returned error => exact ⟨10, rfl⟩
      | threw => exact h
    rw [nextDelay, maxReconnectDelayMs]
    omega

theorem dvd_waitFor (as : List Attempt) (a : Attempt) : 200 ∣ waitFor (delayAfter as) a := by
  cases a with
  | returned error => exact ⟨10, rfl⟩
  | threw => exact dvd_delayAfter as

/-! ## Runs of failed attempts -/

/-- Every attempt fails, there is no downgrade and nobody calls `stop()`. -/
def OnlyFailures (s : ConnectLoop) : Event → Prop
  | .connectReturned error => error = true ∧ (s.needsDowngrade = true → s.usingNonPreferred = true)
  | .stop => False
  | .requestStop => False
  | _ => True

/-- The last attempt has not been waited for. -/
def Pending (attempts : List Attempt) (waits : List Nat) (delay : Nat) : Prop :=
  ∃ as a, attempts = as ++ [a] ∧ waits = waitsFrom 2000 as ∧ delay = waitFor (delayAfter as) a

/-- The waits so far and the delay, by where the thread is. -/
def Fits (attempts : List Attempt) (waits : List Nat) (delay : Nat) : Pc → Prop
  | .head | .providing | .connecting | .evaluating | .ended =>
    waits = waitsFrom 2000 attempts ∧ delay = delayAfter attempts
  | .tried => Pending attempts waits delay
  | .waiting elapsed => Pending attempts waits delay ∧ elapsed ≤ delay ∧ 200 ∣ elapsed
  | .sleeping elapsed => Pending attempts waits delay ∧ elapsed + 200 ≤ delay ∧ 200 ∣ elapsed
  | .waited =>
    ∃ as a, attempts = as ++ [a] ∧ waits = waitsFrom 2000 attempts ∧
      delay = waitFor (delayAfter as) a
  | .downgrading => False

/-- In a run of failed attempts only a failed `eval_config` ends the thread. -/
structure History (log : List Entry) (s : ConnectLoop) : Prop where
  goesOn : s.pc ≠ .ended → s.goesOn = true
  fits : Fits (log.filterMap Entry.attempt?) (log.filterMap Entry.wait?) s.reconnectDelayMs s.pc

theorem history_start (nonPreferred needsDowngrade : Bool) :
    History [] (start nonPreferred needsDowngrade) :=
  ⟨fun _ => rfl, rfl, rfl⟩

/-- A step that records nothing and leaves the delay. -/
theorem History.move {log : List Entry} {s : ConnectLoop} {pc pc' : Pc} (h : History log s)
    (hpc : s.pc = pc) (hne : pc ≠ .ended)
    (hfits : Fits (log.filterMap Entry.attempt?) (log.filterMap Entry.wait?) s.reconnectDelayMs pc →
      Fits (log.filterMap Entry.attempt?) (log.filterMap Entry.wait?) s.reconnectDelayMs pc') :
    History (log ++ []) { s with pc := pc' } := by
  subst hpc
  rw [List.append_nil]
  exact ⟨fun _ => h.goesOn hne, hfits h.fits⟩

/-- An attempt ends and the delay is what the wait after it will be. -/
theorem History.tried {log : List Entry} {s t : ConnectLoop} (a : Attempt) (h : History log s)
    (hpc : s.pc = .providing ∨ s.pc = .connecting) (hgoes : t.goesOn = true) (hpc' : t.pc = .tried)
    (hdelay : t.reconnectDelayMs = waitFor s.reconnectDelayMs a) :
    History (log ++ [.attempt a]) t := by
  obtain ⟨hwaits, hd⟩ : log.filterMap Entry.wait? = waitsFrom 2000 (log.filterMap Entry.attempt?) ∧
      s.reconnectDelayMs = delayAfter (log.filterMap Entry.attempt?) := by
    have hfits := h.fits
    obtain hpc | hpc := hpc <;> rw [hpc] at hfits <;> exact hfits
  refine ⟨fun _ => hgoes, ?_⟩
  rw [hpc', List.filterMap_append, List.filterMap_append, hwaits, hdelay, hd]
  exact ⟨_, a, rfl, List.append_nil _, rfl⟩

/-- The wait is over: after as many sleeps as the delay has. -/
theorem History.waited {log : List Entry} {s : ConnectLoop} {elapsed : Nat} (h : History log s)
    (hpc : s.pc = .waiting elapsed) (hdone : s.reconnectDelayMs ≤ elapsed) :
    History (log ++ [.wait elapsed]) { s with pc := .waited } := by
  have hgoes : s.goesOn = true := h.goesOn (by simp [hpc])
  obtain ⟨⟨as, a, has, hwaits, hdelay⟩, hle, -⟩ : Fits _ _ s.reconnectDelayMs (.waiting elapsed) :=
    hpc ▸ h.fits
  have helapsed : elapsed = waitFor (delayAfter as) a := by omega
  refine ⟨fun _ => hgoes, as, a, ?_, ?_, hdelay⟩
  · rw [List.filterMap_append, has]
    exact List.append_nil _
  · rw [List.filterMap_append, List.filterMap_append, has, hwaits, helapsed]
    exact ((congrArg _ (List.append_nil _)).trans (waitsFrom_concat 2000 as a)).symm

/-- The delay is doubled for the next wait. -/
theorem History.resets {log : List Entry} {s : ConnectLoop} (h : History log s) (hpc : s.pc = .waited) :
    History (log ++ []) { s with
      reconnectDelayMs := min (s.reconnectDelayMs * 2) maxReconnectDelayMs, pc := .evaluating } := by
  have hgoes : s.goesOn = true := h.goesOn (by simp [hpc])
  obtain ⟨as, a, has, hwaits, hdelay⟩ : Fits _ _ s.reconnectDelayMs .waited := hpc ▸ h.fits
  rw [List.append_nil]
  refine ⟨fun _ => hgoes, hwaits, ?_⟩
  show min (s.reconnectDelayMs * 2) maxReconnectDelayMs = _
  rw [has, delayAfter_concat, hdelay, nextDelay]

theorem history_step {log : List Entry} {s t : ConnectLoop} {e : Event} (h : History log s)
    (he : OnlyFailures s e) (hs : s.step e = some t) : History (log ++ s.record e) t := by
  have hnever (hpc : s.pc = .downgrading) : False := by
    have hfits := h.fits
    rw [hpc] at hfits
    exact hfits
  cases fires_of_step hs with
  | begins hpc =>
    simp only [record, hpc]
    exact h.move hpc (by simp) id
  | waits hpc =>
    simp only [record, hpc]
    exact h.move hpc (by simp) fun hfits => ⟨hfits, Nat.zero_le _, Nat.dvd_zero 200⟩
  | @sleeps elapsed hpc hlt hgo =>
    simp only [record, hpc, hgo, decide_eq_true hlt, Bool.and_self, if_true]
    refine h.move hpc (by simp) fun ⟨hpending, _, hdvd⟩ => ⟨hpending, ?_, hdvd⟩
    -- delays are whole numbers of sleeps
    obtain ⟨as, a, -, -, hdelay⟩ := hpending
    have hwhole : 200 ∣ s.reconnectDelayMs := hdelay ▸ dvd_waitFor as a
    omega
  | @waited elapsed hpc hdone =>
    have hle := hdone (h.goesOn (by simp [hpc]))
    simp only [record, hpc, decide_eq_false (Nat.not_lt.mpr hle), Bool.false_and, Bool.false_eq_true, if_false]
    exact h.waited hpc hle
  | resets hpc =>
    simp only [record, hpc]
    exact h.resets hpc
  | ends hpc hgo =>
    have hgo' := h.goesOn (by obtain hpc | hpc | hpc := hpc <;> simp [hpc])
    rw [hgo] at hgo'
    cases hgo'
  | calls hpc => exact h.move hpc (by simp) id
  | returned error hpc =>
    obtain ⟨rfl, hdown⟩ := he
    obtain ⟨hneeds, hnot, -⟩ | heq := s.returned_cases
    · rw [hdown hneeds] at hnot
      cases hnot
    · rw [heq]
      exact h.tried (.returned true) (Or.inr hpc) (h.goesOn (by simp [hpc])) rfl rfl
  | threw hpc =>
    obtain hpc | hpc | hpc := hpc
    · simp only [record, hpc, reduceCtorEq, if_false]
      exact h.tried .threw (Or.inl hpc) (h.goesOn (by simp [hpc])) rfl rfl
    · simp only [record, hpc, reduceCtorEq, if_false]
      exact h.tried .threw (Or.inr hpc) (h.goesOn (by simp [hpc])) rfl rfl
    · exact (hnever hpc).elim
  | failed hpc =>
    have hpc := hpc.resolve_left hnever
    have hfits := h.fits
    rw [hpc] at hfits
    simp only [record, List.append_nil]
    exact ⟨fun hne => absurd rfl hne, hfits⟩
  | evaluated hpc => exact h.move (hpc.resolve_left hnever) (by simp) id
  | slept hpc =>
    refine h.move hpc (by simp) fun ⟨hpending, hle, hdvd⟩ => ⟨hpending, hle, ?_⟩
    exact Nat.dvd_add hdvd (Nat.dvd_refl 200)
  | asked =>
    simp only [record, List.append_nil]
    exact ⟨h.goesOn, h.fits⟩
  | stopped => exact he.elim
  | requested => exact he.elim

theorem Pending.waits_eq {as : List Attempt} {ws : List Nat} {delay : Nat}
    (h : Pending as ws delay) : ws = waitsFrom 2000 (as.take ws.length) := by
  obtain ⟨as, a, rfl, rfl, -⟩ := h
  rw [waitsFrom_length, List.take_left]

theorem Fits.waits_eq {as : List Attempt} {ws : List Nat} {delay : Nat} {pc : Pc}
    (h : Fits as ws delay pc) : ws = waitsFrom 2000 (as.take ws.length) := by
  have hall (hws : ws = waitsFrom 2000 as) : ws = waitsFrom 2000 (as.take ws.length) := by
    rw [hws, waitsFrom_length, List.take_length]
  cases pc with
  | head | providing | connecting | evaluating | ended => exact hall h.1
  | tried => exact Pending.waits_eq h
  | waiting elapsed | sleeping elapsed => exact h.1.waits_eq
  | waited =>
    obtain ⟨_, _, -, hws, -⟩ := h
    exact hall hws
  | downgrading => exact h.elim

/-- In a run of failed attempts the waits are those the attempts give, one after another. -/
theorem waits_eq_waitsFrom {nonPreferred needsDowngrade : Bool} {es : List Event} {t : ConnectLoop}
    (hrun : run step (start nonPreferred needsDowngrade) es = some t)
    (honly : Along step OnlyFailures (start nonPreferred needsDowngrade) es) :
    waits (start nonPreferred needsDowngrade) es =
      waitsFrom 2000 ((attempts (start nonPreferred needsDowngrade) es).take
        (waits (start nonPreferred needsDowngrade) es).length) := by
  have hinv : History (collect step record (start nonPreferred needsDowngrade) es) t :=
    run_collect_guarded_inv record History (fun _ _ _ _ h he hs => history_step h he hs)
      (history_start _ _) honly hrun
  exact hinv.fits.waits_eq

/-! ## Exponential waits -/

/-- 2 seconds, doubled `k` times, up to 30 seconds. -/
def backoff (k : Nat) : Nat := min (2000 * 2 ^ k) 30000

theorem nextDelay_threw (k : Nat) : nextDelay (backoff k) .threw = backoff (k + 1) := by
  rw [nextDelay, waitFor, backoff, backoff, maxReconnectDelayMs, Nat.pow_succ]
  omega

theorem lt_backoff_succ (k : Nat) : 2000 < backoff (k + 1) := by
  have hpos : 0 < 2 ^ k := Nat.two_pow_pos k
  rw [backoff, Nat.pow_succ]
  omega

/-- From a delay that has been doubled, the waits go on doubling exactly if every attempt throws. -/
theorem waitsFrom_backoff_iff (as : List Attempt) (k : Nat) :
    (∀ i ms, (waitsFrom (backoff (k + 1)) as)[i]? = some ms → ms = backoff (k + 1 + i)) ↔
      ∀ a ∈ as, a = .threw := by
  induction as generalizing k with
  | nil => exact iff_of_true (fun i ms h => (by cases h)) fun a ha => (by cases ha)
  | cons a as ih =>
    rw [waitsFrom, List.forall_mem_cons]
    constructor
    · intro h
      have hfirst : waitFor (backoff (k + 1)) a = backoff (k + 1) := h 0 _ rfl
      have ha : a = .threw := by
        cases a with
        | threw => rfl
        | returned error =>
          have hlt := lt_backoff_succ k
          rw [← hfirst] at hlt
          exact absurd hlt (Nat.lt_irrefl 2000)
      refine ⟨ha, (ih (k + 1)).mp fun i ms hi => ?_⟩
      rw [ha, nextDelay_threw] at h
      have hnext := h (i + 1) ms hi
      rwa [show k + 1 + (i + 1) = k + 1 + 1 + i by omega] at hnext
    · rintro ⟨rfl, has⟩ i ms hi
      rw [nextDelay_threw] at hi
      cases i with
      | zero => exact (Option.some.inj hi).symm
      | succ i =>
        have hrest := (ih (k + 1)).mpr has i ms hi
        rwa [show k + 1 + (i + 1) = k + 1 + 1 + i by omega]

/-- The first attempt makes no difference. -/
theorem waitsFrom_start_iff (as : List Attempt) :
    (∀ i ms, (waitsFrom 2000 as)[i]? = some ms → ms = backoff i) ↔ ∀ a ∈ as.tail, a = .threw := by
  cases as with
  | nil => exact iff_of_true (fun i ms h => (by cases h)) fun a ha => (by cases ha)
  | cons a as =>
    have hwait : waitFor 2000 a = 2000 := by cases a <;> rfl
    have hnext : nextDelay 2000 a = backoff (0 + 1) := by rw [nextDelay, hwait]; rfl
    rw [waitsFrom, hwait, hnext, List.tail_cons, ← waitsFrom_backoff_iff as 0]
    constructor
    · intro h i ms hi
      rw [Nat.zero_add, Nat.add_comm]
      exact h (i + 1) ms hi
    · intro h i ms hi
      cases i with
      | zero => exact (Option.some.inj hi).symm
      | succ i =>
        have hrest := h i ms hi
        rwa [Nat.zero_add, Nat.add_comm] at hrest

/-- Over a run of failed attempts, each wait is twice the one before it, up to 30 seconds, exactly if
    every attempt after the first that was waited for threw an exception. -/
theorem waits_exponential_iff {nonPreferred needsDowngrade : Bool} {es : List Event}
    {t : ConnectLoop} (hrun : run step (start nonPreferred needsDowngrade) es = some t)
    (honly : Along step OnlyFailures (start nonPreferred needsDowngrade) es) :
    (∀ k ms, (waits (start nonPreferred needsDowngrade) es)[k]? = some ms →
        ms = min (2000 * 2 ^ k) 30000) ↔
      ∀ a ∈ ((attempts (start nonPreferred needsDowngrade) es).take
        (waits (start nonPreferred needsDowngrade) es).length).tail, a = .threw := by
  have hiff := waitsFrom_start_iff ((attempts (start nonPreferred needsDowngrade) es).take
    (waits (start nonPreferred needsDowngrade) es).length)
  rw [← waits_eq_waitsFrom hrun honly] at hiff
  simp only [backoff] at hiff
  exact hiff

/-- From the end of an attempt to the next, with a delay of two seconds. -/
def twoSeconds : List Event :=
  [.next] ++ (List.replicate 10 [.next, .slept]).flatten ++ [.next, .next, .evaluated false]

/-- `connect()` returns with an error, and the thread waits for two seconds. -/
def failedAttempt : List Event := [.next, .connect, .connectReturned true] ++ twoSeconds

theorem onlyFailures_failedAttempt :
    Along step OnlyFailures (start true false) (failedAttempt ++ failedAttempt) := by
  have hevents : ∀ e ∈ failedAttempt ++ failedAttempt,
      e = .connectReturned true ∨ ∀ s, OnlyFailures s e := by
    simp [failedAttempt, twoSeconds, OnlyFailures]
  -- no step takes the downgrade back
  refine along_of_inv (I := fun s => s.usingNonPreferred = true) ?_ ?_ rfl
  · intro e he s t hI hs
    cases fires_of_step hs with
    | returned =>
      obtain ⟨-, -, -, heq⟩ | heq := s.returned_cases <;> rw [heq]
      exact hI
    | _ => exact hI
  · intro e he s hI
    obtain rfl | hall := hevents e he
    · exact ⟨rfl, fun _ => hI⟩
    · exact hall s

theorem waits_exponential_iff_returns :
    ∃ t, run step (start true false) (failedAttempt ++ failedAttempt) = some t ∧
      ((∀ k ms, (waits (start true false) (failedAttempt ++ failedAttempt))[k]? = some ms →
          ms = min (2000 * 2 ^ k) 30000) ↔
        ∀ a ∈ ((attempts (start true false) (failedAttempt ++ failedAttempt)).take
          (waits (start true false) (failedAttempt ++ failedAttempt)).length).tail, a = .threw) := by
  have hrun : run step (start true false) (failedAttempt ++ failedAttempt) =
      some ⟨true, false, false, true, 4000, .head⟩ := rfl
  exact ⟨_, hrun, waits_exponential_iff hrun onlyFailures_failedAttempt⟩

/-- Two attempts that return with an error are both followed by two seconds. -/
theorem waits_not_doubled :
    (∃ t, run step (start true false) (failedAttempt ++ failedAttempt) = some t) ∧
      Along step OnlyFailures (start true false) (failedAttempt ++ failedAttempt) ∧
      attempts (start true false) (failedAttempt ++ failedAttempt) =
        [.returned true, .returned true] ∧
      waits (start true false) (failedAttempt ++ failedAttempt) = [2000, 2000] :=
  ⟨⟨_, rfl⟩, onlyFailures_failedAttempt, rfl, rfl⟩

end ConnectLoop

end Ovpn2ss.Vpn
