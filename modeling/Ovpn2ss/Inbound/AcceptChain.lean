/-
  One accept at a time.

  An accept chain is an `async_accept` that is outstanding, or a queued handler that will call
  `accept_loop` again. The handler decides that by whether the acceptor is open when it runs, not
  by whether it was when its accept was started. So the handler of an accept that `stop` aborted
  is harmless until the next `start` opens the acceptor: from then on it is a second chain beside
  the new one, and every restart of this kind adds one. The chains stay at most one exactly if no
  `start` reaches `accept_loop` while a handler is queued (`single_chain_iff`).
-/
import Ovpn2ss.Inbound.Listener

namespace Ovpn2ss.Inbound

open Ovpn2ss.Lib

namespace ShadowsocksInbound

variable {s s' : ShadowsocksInbound}

/-- The accepts outstanding and the queued handlers that would accept again. -/
def chains (s : ShadowsocksInbound) : Nat :=
  s.accepts + if s.acceptor.isOpen then s.handlers.length else 0

/-- A `start` that gets to `accept_loop` finds no handler in the queue. -/
def Settled (s : ShadowsocksInbound) : Event → Prop
  | .start a =>
    s.started = false → ({ s with started := true }.openTcpAcceptor a).1 = .ok () → s.handlers = []
  | _ => True

/-- There is at most one accept in all, none without an open acceptor, and the acceptor is open in
    a started listener only. -/
structure Single (s : ShadowsocksInbound) : Prop where
  one : s.accepts + s.handlers.length ≤ 1
  closed : s.acceptor.isOpen = false → s.accepts = 0
  idle : s.started = false → s.acceptor.isOpen = false

theorem single_new (config : ShadowsocksConfig) (crypto : Aead.ShadowsocksAeadFactory) :
    (new config crypto).Single :=
  ⟨Nat.zero_le 1, fun _ => rfl, fun _ => rfl⟩

theorem Single.chains_le (h : s.Single) : s.chains ≤ 1 := by
  have hone := h.one
  unfold chains
  split <;> omega

theorem Single.start (h : s.Single) {a : ListenAnswers} (hsettled : Settled s (.start a)) :
    (s.start a).2.Single := by
  cases hs : s.started with
  | true =>
    rw [start_of_started a hs]
    exact h
  | false =>
    have hnone : s.accepts = 0 := h.closed (h.idle hs)
    rcases start_cases a hs with ⟨r, acceptor, udp, hopen, hok, he⟩ | ⟨e, acceptor, -, he⟩ <;> rw [he]
    · refine ⟨?_, fun hclosed => ?_, fun hidle => by cases hidle⟩
      · simp [hnone, hsettled hs hok]
      · exact absurd (hopen.symm.trans hclosed) (by decide)
    · exact ⟨h.one, fun _ => hnone, fun hidle => by cases hidle⟩

theorem Single.stop (h : s.Single) : s.stop.Single := by
  refine ⟨?_, fun _ => rfl, fun _ => rfl⟩
  have hone := h.one
  simp only [ShadowsocksInbound.stop, List.length_append, List.length_replicate]
  omega

/-- The only handler runs, and starts the only accept. -/
theorem Single.onAccept (h : s.Single) {r : AcceptResult} (hr : r ∈ s.handlers) :
    ({ s with handlers := s.handlers.erase r }.onAccept r).Single := by
  have hone := h.one
  have hlen := List.length_erase_of_mem hr
  have hpos := List.length_pos_of_mem hr
  unfold ShadowsocksInbound.onAccept
  have hsession : ∀ t : ShadowsocksInbound, t.accepts = 0 → t.handlers.length = 0 →
      (t.started = false → t.acceptor.isOpen = false) →
      (if t.acceptor.isOpen then t.acceptLoop else t).Single := by
    intro t haccepts hhandlers hidle
    split
    · next hopen =>
      refine ⟨?_, fun hclosed => absurd (hopen.symm.trans hclosed) (by decide), hidle⟩
      simp only [acceptLoop]
      omega
    · exact ⟨by omega, fun _ => haccepts, hidle⟩
  dsimp only
  split
  · exact hsession _ (by dsimp only; omega) (by dsimp only; omega) h.idle
  · exact hsession _ (by dsimp only; omega) (by dsimp only; omega) h.idle

theorem single_step {e : Event} (h : s.Single) (hsettled : Settled s e) (hs : s.step e = some s') :
    s'.Single := by
  have hone := h.one
  cases fires_of_step hs with
  | start a => exact h.start hsettled
  | stop => exact h.stop
  | connection hl hpos | acceptError hpos =>
    refine ⟨?_, fun hclosed => ?_, h.idle⟩
    · simp only [List.length_append, List.length_singleton]
      omega
    · dsimp only at hclosed ⊢
      rw [h.closed hclosed]
  | handler hr => exact h.onAccept hr

/-- A `start` over a queued handler makes a second chain. -/
theorem settled_of_chains_le {e : Event} (hs : s.step e = some s') (hle : s'.chains ≤ 1) :
    Settled s e := by
  cases fires_of_step hs with
  | start a =>
    intro hstarted hok
    rcases start_cases a hstarted with ⟨r, acceptor, udp, hopen, -, he⟩ | ⟨e, acceptor, herr, -⟩
    · rw [he] at hle
      simp only [chains, hopen, if_true] at hle
      exact List.length_eq_zero_iff.mp (by omega)
    · rw [hok] at herr
      cases herr
  | stop | connection | acceptError | handler => trivial

/-- There is one accept chain in every state of a run exactly if no `start` of the run gets to
    `accept_loop` with a handler in the queue. -/
theorem single_chain_iff {config : ShadowsocksConfig} {crypto : Aead.ShadowsocksAeadFactory}
    {es : List Event} (h : run step (new config crypto) es = some s) :
    Always step (fun s => s.chains ≤ 1) (new config crypto) es ↔
      Along step Settled (new config crypto) es :=
  always_iff_along (fun _ hI => hI.chains_le) (fun _ _ _ hI hG hs => single_step hI hG hs)
    (fun _ _ _ _ hs hle => settled_of_chains_le hs hle) (single_new config crypto) h

/-- A client is accepted, and the listener is restarted once the aborted handler has run. -/
def demoRestart : List Event :=
  [.start listens, .connection, .handler .accepted, .stop, .handler .aborted, .start listens]

theorem single_chain_demo :
    ∃ s, run step demoInbound demoRestart = some s ∧ s.sessions.length = 1 ∧ s.accepts = 1 ∧
      Always step (fun s => s.chains ≤ 1) demoInbound demoRestart := by
  obtain ⟨s, h, hsessions, haccepts⟩ : ∃ s, run step demoInbound demoRestart = some s ∧
      s.sessions.length = 1 ∧ s.accepts = 1 := ⟨_, rfl, rfl, rfl⟩
  refine ⟨s, h, hsessions, haccepts, (single_chain_iff h).mpr ?_⟩
  refine ⟨fun _ _ => rfl, fun s₁ h₁ => ⟨trivial, fun s₂ h₂ => ⟨trivial, fun s₃ h₃ => ⟨trivial,
    fun s₄ h₄ => ⟨trivial, fun s₅ h₅ => ⟨fun _ _ => ?_, fun _ _ => trivial⟩⟩⟩⟩⟩⟩
  obtain rfl := Option.some.inj h₁
  obtain rfl := Option.some.inj h₂
  obtain rfl := Option.some.inj h₃
  obtain rfl := Option.some.inj h₄
  obtain rfl := Option.some.inj h₅
  rfl

/-- The listener is restarted before the aborted handler has run: the handler accepts again, and
    two accepts are outstanding. -/
theorem restart_doubles_accepts :
    ∃ s t, run step demoInbound [.start listens, .stop, .start listens] = some s ∧ s.chains = 2 ∧
      s.step (.handler .aborted) = some t ∧ t.accepts = 2 :=
  ⟨_, _, rfl, rfl, rfl, rfl⟩

end ShadowsocksInbound

end Ovpn2ss.Inbound
