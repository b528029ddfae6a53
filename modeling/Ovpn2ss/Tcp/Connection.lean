/-
  The remote connection of a session: one at most, and no call on a pcb that is not there, unless
  `on_err` comes in between.

  `Conn` is what a pcb can be to its owner, and `Conn.use` says which lwIP calls it allows when: a
  session may connect once, write, credit and shut down while the pcb is live, and close or abort it
  once. A `tcp_close` that lwIP refuses leaves the pcb with the caller, who has to abort it. Before
  `on_err` lwIP has freed the pcb itself. `connection_protocol`: the calls of a run of turns are
  allowed, and `pcb_` is set exactly while the pcb is live, as long as `on_err` never comes between a
  test of `pcb_` outside the lock and the section behind it. Where it does, that section hands lwIP
  a null pointer.
-/
import Ovpn2ss.Tcp.Exactness
import Ovpn2ss.Tcp.Sections

namespace Ovpn2ss.Tcp

open Ovpn2ss.Aead Ovpn2ss.Lib Ovpn2ss.Lwip

/-! ## What a pcb allows -/

/-- What has become of the session's pcb. -/
inductive Conn where
  | fresh
  | live
  /-- `tcp_close` was refused: the pcb is still the caller's. -/
  | refused
  | gone
  deriving DecidableEq

/-- A use of the pcb. -/
inductive Use where
  /-- A call of the session, with what lwIP answers in that handler. -/
  | call (lw : Answers) (act : Action)
  /-- A section behind a test takes `pcb_` as it is. -/
  | touch
  /-- lwIP frees the pcb. -/
  | freed

def Conn.call (c : Conn) (lw : Answers) : Action → Option Conn
  | .tcpConnect _ _ => if c = .fresh then some .live else none
  | .tcpWrite _ => if c = .live then some .live else none
  | .tcpRecved _ => if c = .live then some .live else none
  | .tcpShutdown => if c = .live then some .live else none
  | .tcpClose =>
    if c = .live then some (if lw.close = .ERR_OK then .gone else .refused) else none
  | .tcpAbort => if c = .live ∨ c = .refused then some .gone else none
  | _ => some c

/-- The pcb after a use of it, if that is allowed. -/
def Conn.use (c : Conn) : Use → Option Conn
  | .call lw act => c.call lw act
  | .touch => if c = .live then some .live else none
  | .freed => if c = .live then some .gone else none

/-- The calls that lwIP is given the pcb for. -/
def Action.onPcb : Action → Bool
  | .tcpConnect _ _ | .tcpWrite _ | .tcpRecved _ | .tcpShutdown | .tcpClose | .tcpAbort => true
  | _ => false

theorem Conn.run_quiet (c : Conn) (lw : Answers) {acts : List Action}
    (h : ∀ a ∈ acts, a.onPcb = false) : run Conn.use c (acts.map (.call lw)) = some c := by
  induction acts with
  | nil => rfl
  | cons a acts ih =>
    refine run_cons.mpr ⟨c, ?_, ih fun a ha => h a (List.mem_cons_of_mem _ ha)⟩
    have ha := h a List.mem_cons_self
    cases a <;> first | rfl | cases ha

/-- Closing ends a live pcb, whether lwIP takes the `tcp_close` or not. -/
theorem Conn.run_closeActs (lw : Answers) (pcb : TcpPcb) :
    run Conn.use .live ((TcpRelaySession.closeActs lw (some pcb)).map (.call lw)) = some .gone := by
  unfold TcpRelaySession.closeActs
  by_cases hc : lw.close = .ERR_OK
  · simp [run, Conn.use, Conn.call, hc]
  · simp [run, Conn.use, Conn.call, hc]

theorem Conn.run_writes (lw : Answers) (bufs : List Bytes) :
    run Conn.use .live ((bufs.map .tcpWrite).map (.call lw)) = some .live := by
  induction bufs with
  | nil => rfl
  | cons b bufs ih => exact run_cons.mpr ⟨.live, rfl, ih⟩

theorem Conn.run_credits (lw : Answers) (lens : List Nat) :
    run Conn.use .live ((lens.map .tcpRecved).map (.call lw)) = some .live := by
  induction lens with
  | nil => rfl
  | cons n lens ih => exact run_cons.mpr ⟨.live, rfl, ih⟩

/-- lwIP calls `on_err`. -/
def Input.isErr (i : Input) : Bool :=
  match i.event with
  | .err _ => true
  | _ => false

/-- The io thread has tested `pcb_` and is about to use it. -/
def Threaded.behindTest (x : Threaded) : Bool :=
  x.todo.head?.any Section.usesPcb

/-- `on_err` does not come between a test of `pcb_` and the section behind it. -/
def Threaded.unraced (x : Threaded) : Turn → Bool
  | .onErr => !x.behindTest
  | _ => true

/-- What a turn does to the pcb before the session makes its calls. -/
def Threaded.takes (x : Threaded) : Turn → List Use
  | .handle i => if i.isErr then [.freed] else []
  | .go => if x.behindTest then [.touch] else []
  | .onErr => [.freed]

namespace TcpRelaySession

variable {P : Platform} {lw : Answers} {c c' : Conn} {s s' s'' : TcpRelaySession}

/-! ## A session and its pcb -/

structure Tracks (c : Conn) (s : TcpRelaySession) : Prop where
  pcb : s.pcb.isSome = true ↔ c = .live
  fresh : s.gotTarget = false ∨ s.resolving ≠ none → c = .fresh
  asked : s.gotTarget = false → s.resolving = none
  settled : c ≠ .refused

theorem Tracks.of_same (h : Tracks c s) (hp : s'.pcb.isSome = s.pcb.isSome)
    (hg : s'.gotTarget = s.gotTarget) (hr : s'.resolving = s.resolving) : Tracks c s' := by
  refine ⟨?_, ?_, ?_, h.settled⟩
  · rw [hp]
    exact h.pcb
  · rw [hg, hr]
    exact h.fresh
  · rw [hg, hr]
    exact h.asked

/-- From `s` to `s'` the session makes calls that the pcb allows. -/
def Moves (lw : Answers) (c : Conn) (s s' : TcpRelaySession) : Prop :=
  ∃ acts c', s'.trace = s.trace ++ acts ∧ run Conn.use c (acts.map (.call lw)) = some c' ∧
    Tracks c' s'

theorem Moves.andThen (h : Moves lw c s s') (h' : ∀ c', Tracks c' s' → Moves lw c' s' s'') :
    Moves lw c s s'' := by
  obtain ⟨acts, c₁, ht, hrun, hc⟩ := h
  obtain ⟨acts', c₂, ht', hrun', hc'⟩ := h' c₁ hc
  refine ⟨acts ++ acts', c₂, by rw [ht', ht, List.append_assoc], ?_, hc'⟩
  rw [List.map_append]
  exact run_append.mpr ⟨c₁, hrun, hrun'⟩

theorem Moves.of_quiet (h : Tracks c s) {acts : List Action} (ht : s'.trace = s.trace ++ acts)
    (ha : ∀ a ∈ acts, a.onPcb = false) (hp : s'.pcb.isSome = s.pcb.isSome)
    (hg : s'.gotTarget = s.gotTarget) (hr : s'.resolving = s.resolving) : Moves lw c s s' :=
  ⟨acts, c, ht, c.run_quiet lw ha, h.of_same hp hg hr⟩

theorem Moves.of_update (h : Tracks c s) (ht : s'.trace = s.trace)
    (hp : s'.pcb.isSome = s.pcb.isSome) (hg : s'.gotTarget = s.gotTarget)
    (hr : s'.resolving = s.resolving) : Moves lw c s s' :=
  .of_quiet h (by rw [ht, List.append_nil]) (fun _ ha => (by cases ha)) hp hg hr

theorem Tracks.live (h : Tracks c s) {pcb : TcpPcb} (hp : s.pcb = some pcb) : c = .live :=
  h.pcb.mp (by rw [hp]; rfl)

/-- A live pcb is let go of. The target is known then and nothing is being resolved. -/
theorem Tracks.ended (h : Tracks .live s) (hp : s'.pcb = none) (hg : s'.gotTarget = s.gotTarget)
    (hr : s'.resolving = s.resolving) : Tracks .gone s' := by
  refine ⟨by rw [hp]; decide, fun hf => ?_, ?_, by decide⟩
  · rw [hg, hr] at hf
    exact absurd (h.fresh hf) (by decide)
  · rw [hg, hr]
    exact h.asked

/-! ## The handlers -/

theorem Tracks.close (h : Tracks c s) : Moves lw c s (s.close lw) := by
  cases hc : s.closing with
  | true =>
    rw [close_of_closing hc]
    exact .of_update h rfl rfl rfl rfl
  | false =>
    rw [close_of_open hc]
    cases hp : s.pcb with
    | none =>
      refine .of_quiet h rfl (fun a ha => ?_) (by rw [hp]) rfl rfl
      rw [List.mem_singleton.mp ha]
      rfl
    | some pcb =>
      obtain rfl := h.live hp
      refine ⟨_, .gone, rfl, ?_, h.ended rfl rfl rfl⟩
      exact run_cons.mpr ⟨.live, rfl, Conn.run_closeActs lw pcb⟩

theorem Tracks.readEncryptedStream (h : Tracks c s) : Moves lw c s s.readEncryptedStream := by
  unfold TcpRelaySession.readEncryptedStream
  split
  · exact .of_update h rfl rfl rfl rfl
  · refine .of_quiet h rfl (fun a ha => ?_) rfl rfl rfl
    rw [List.mem_singleton.mp ha]
    rfl

theorem Tracks.flushed (h : Tracks .live s) (pcb : TcpPcb) (sent rest : List Bytes) :
    Moves lw .live s (s.flushed pcb sent rest) := by
  refine ⟨_, .live, rfl, Conn.run_writes lw _, ⟨iff_of_true rfl rfl, h.fresh, h.asked, h.settled⟩⟩

theorem Tracks.flushToLwip (h : Tracks c s) : Moves lw c s (s.flushToLwip lw) := by
  rcases flushToLwip_cases lw s with
    ⟨-, he⟩ | ⟨pcb, pcb', sent, rest, hp, -, -, ⟨-, he⟩ | ⟨-, he⟩ | ⟨-, he⟩⟩ <;> rw [he]
  · exact .of_update h rfl rfl rfl rfl
  · obtain rfl := h.live hp
    exact h.flushed pcb' sent []
  · obtain rfl := h.live hp
    exact (h.flushed pcb' sent rest).andThen fun _ h' => .of_update h' rfl rfl rfl rfl
  · obtain rfl := h.live hp
    exact (h.flushed pcb' sent rest).andThen fun _ h' => h'.close

/-- The first connection of a session that has its target and resolves nothing. -/
theorem Tracks.connectIp (h : Tracks .fresh s) (hg : s.gotTarget = true) (hr : s.resolving = none)
    (ip : IpAddr) (port : Nat) : Moves lw .fresh s (s.connectIp lw ip port) := by
  have hnone : s.pcb = none := by
    cases hp : s.pcb with
    | none => rfl
    | some pcb => cases h.live hp
  have hlive {t : TcpRelaySession} {pcb : TcpPcb} (ht : t.trace = s.trace ++ [.tcpConnect ip port])
      (hp : t.pcb = some pcb) (htg : t.gotTarget = s.gotTarget) (htr : t.resolving = s.resolving) :
      Moves lw .fresh s t := by
    refine ⟨_, .live, ht, rfl, iff_of_true (by rw [hp]; rfl) rfl, fun hf => ?_, ?_, by decide⟩
    · rw [htg, htr, hg, hr] at hf
      simp at hf
    · rw [htg, hg]
      exact fun hg => (by cases hg)
  rcases connectIp_cases lw s ip port with he | he | he <;> rw [he]
  · exact hlive rfl rfl rfl rfl
  · have hc : Moves lw .fresh s { s with pcb := some tcpNew, activeSelf := true,
                                         trace := s.trace ++ [Action.tcpConnect ip port] } :=
      hlive rfl rfl rfl rfl
    exact hc.andThen fun _ h' => h'.close
  · have hsame : Moves lw .fresh s { s with pcb := none } := .of_update h rfl (by rw [hnone]) rfl rfl
    exact hsame.andThen fun _ h' => h'.close

theorem Tracks.queueLwip (h : Tracks c s) (bytes : Bytes) : Moves lw c s (s.queueLwip bytes) := by
  unfold TcpRelaySession.queueLwip
  split
  · exact .of_update h rfl rfl rfl rfl
  · refine .of_quiet h rfl (fun a ha => ?_) rfl rfl rfl
    rw [List.mem_singleton.mp ha]
    rfl

/-- The target becomes known: it is resolved, or connected to, or refused. -/
theorem Tracks.connectTarget (h : Tracks c s) (hg : s.gotTarget = false) (target : TargetAddress) :
    Moves lw c s ({ s with gotTarget := true }.connectTarget P lw target).2 := by
  obtain rfl := h.fresh (Or.inl hg)
  have hr := h.asked hg
  have hknown : Tracks .fresh { s with gotTarget := true } :=
    ⟨h.pcb, fun _ => rfl, fun hg => (by cases hg), by decide⟩
  have hmove : Moves lw .fresh s { s with gotTarget := true } :=
    ⟨[], .fresh, (List.append_nil _).symm, rfl, hknown⟩
  rcases connectTarget_cases P lw { s with gotTarget := true } target with
    ⟨-, r, he⟩ | ⟨-, -, e, he⟩ | ⟨-, ip, -, he⟩ <;> rw [he]
  · exact ⟨[.asyncResolve target.host target.port], .fresh, rfl, rfl, hknown.pcb, fun _ => rfl,
      fun hg => (by cases hg), by decide⟩
  · exact hmove
  · exact hknown.connectIp rfl hr ip target.port

/-- `on_connected`, after lwIP has changed the state of the pcb. -/
theorem Tracks.onConnected (h : Tracks c s) {pcb : TcpPcb} (hp : s.pcb = some pcb) (pcb' : TcpPcb)
    (err : ErrT) : Moves lw c s ({ s with pcb := some pcb' }.onConnected lw err) := by
  have h' : Tracks c { s with pcb := some pcb' } := h.of_same (by rw [hp]; rfl) rfl rfl
  exact onConnected_inv (Moves lw c s) h'.close h'.flushToLwip

theorem Tracks.maybeResumeClientRead (h : Tracks c s) :
    Moves lw c s (s.maybeResumeClientRead lw) := by
  rcases maybeResumeClientRead_cases lw s with he | ⟨pcb, -, -, -, he⟩ <;> rw [he]
  · exact .of_update h rfl rfl rfl rfl
  · have hresumed : Tracks c { s with clientReadPaused := false } := h.of_same rfl rfl rfl
    exact hresumed.flushToLwip.andThen fun _ h' => h'.readEncryptedStream

theorem Tracks.handleRemoteFin (h : Tracks c s) {pcb : TcpPcb} (hp : s.pcb = some pcb) :
    Moves lw c s (s.handleRemoteFin lw) := by
  obtain rfl := h.live hp
  have hsevered : Moves lw .live s (s.severed lw) := by
    refine ⟨_, .gone, rfl, ?_, h.ended rfl rfl rfl⟩
    rw [hp, List.map_append]
    refine run_append.mpr ⟨.live, Conn.run_quiet .live lw fun a ha => ?_, Conn.run_closeActs lw pcb⟩
    split at ha
    · cases ha
    · rw [List.mem_singleton.mp ha]
      rfl
  rw [handleRemoteFin_eq hp]
  split
  · exact hsevered.andThen fun _ h' => h'.close
  · exact hsevered

/-- lwIP has freed the pcb; the handler makes no call on it. -/
theorem Tracks.onErr (h : Tracks .live s) : Moves lw .gone s s.onErr := by
  rw [onErr_eq]
  refine ⟨_, .gone, rfl, Conn.run_quiet .gone lw fun a ha => ?_, h.ended rfl rfl rfl⟩
  split at ha
  · cases ha
  · rw [List.mem_singleton.mp ha]
    rfl

/-- While a name is being resolved the target is known and the pcb is yet to come. The answer changes
    neither. -/
theorem Tracks.asking (h : Tracks c s) {port : Nat} (hres : s.resolving = some port) :
    c = .fresh ∧ s.gotTarget = true ∧ Tracks .fresh { s with resolving := none } := by
  obtain rfl := h.fresh (Or.inr (by rw [hres]; exact Option.some_ne_none _))
  refine ⟨rfl, ?_, h.pcb, fun _ => rfl, fun _ => rfl, by decide⟩
  cases hg : s.gotTarget with
  | true => rfl
  | false =>
    rw [h.asked hg] at hres
    cases hres

theorem Tracks.flushToClient (h : Tracks c s) : Moves lw c s s.flushToClient := by
  unfold TcpRelaySession.flushToClient
  split
  · exact .of_update h rfl rfl rfl rfl
  · split
    · exact .of_update h rfl rfl rfl rfl
    · refine .of_quiet h rfl (fun a ha => ?_) rfl rfl rfl
      rw [List.mem_singleton.mp ha]
      rfl

theorem Tracks.queueSalt (h : Tracks c s) (rng : Option Salt) :
    Moves lw c s (s.queueSalt P rng).2 := by
  rcases queueSalt_cases P s rng with ⟨-, he⟩ | ⟨-, -, e, he⟩ | ⟨salt, k, -, -, -, he⟩ <;> rw [he] <;>
    exact .of_update h rfl rfl rfl rfl

theorem Tracks.enqueueClientPayload (h : Tracks c s) (rng : Option Salt) (bytes : Bytes) :
    Moves lw c s (s.enqueueClientPayload P rng bytes).2 := by
  unfold TcpRelaySession.enqueueClientPayload
  split
  · exact .of_update h rfl rfl rfl rfl
  · have hsalt : Moves lw c s (s.queueSalt P rng).2 := h.queueSalt rng
    rcases hq : s.queueSalt P rng with ⟨e | _, t⟩ <;> rw [hq] at hsalt
    · exact hsalt
    · refine hsalt.andThen fun c' h' => ?_
      dsimp only
      rcases t.crypto.encryptTcpChunk P.mbedtls bytes with ⟨e | encrypted, k⟩
      · exact .of_update h' rfl rfl rfl rfl
      · have hpush : Tracks c' ({ t with crypto := k }.pushClient encrypted) := h'.of_same rfl rfl rfl
        exact hpush.flushToClient

/-- The data callback credits what it took on the pcb it was called for. -/
theorem Tracks.onRecv (h : Tracks c s) {pcb : TcpPcb} (hp : s.pcb = some pcb) (bytes : Bytes)
    (rng : Option Salt) : Moves lw c s (s.onRecv P lw (some bytes) .ERR_OK rng) := by
  have hlog : Moves lw c s (s.log (.received bytes)) :=
    .of_quiet h rfl (fun a ha => (by rw [List.mem_singleton.mp ha]; rfl)) rfl rfl rfl
  have henq : Moves lw c s ((s.log (.received bytes)).enqueueClientPayload P rng bytes).2 :=
    hlog.andThen fun _ h' => h'.enqueueClientPayload rng bytes
  have hkeep : ((s.log (.received bytes)).enqueueClientPayload P rng bytes).2.pcb = s.pcb :=
    ((enqueueClientPayload_frame P (s.log (.received bytes)) rng bytes).conn (by decide)).2.1
  rcases onRecv_cases P lw s bytes rng with ⟨e, t, ht, he⟩ | ⟨t, ht, ⟨-, he⟩ | ⟨-, he⟩⟩ <;>
    rw [ht] at henq hkeep <;> rw [he]
  · exact henq.andThen fun _ h' => h'.close
  · exact henq.andThen fun _ h' => .of_update h' rfl rfl rfl rfl
  · refine henq.andThen fun c' h' => ?_
    obtain rfl := h'.live (hkeep.trans hp)
    exact ⟨[.tcpRecved bytes.length], .live, rfl, rfl, h'.of_same rfl rfl rfl⟩

/-- What was withheld is credited only while there is a pcb. -/
theorem Tracks.creditDeferred (h : Tracks c s) : Moves lw c s s.creditDeferred := by
  unfold TcpRelaySession.creditDeferred
  split
  · rename_i hgo
    obtain rfl := h.pcb.mp hgo.1
    exact ⟨_, .live, rfl, Conn.run_credits lw _, h.of_same rfl rfl rfl⟩
  · exact .of_update h rfl rfl rfl rfl

/-! ## The sections -/

/-- Behind a test that found the pcb, unless `on_err` came. -/
theorem Tracks.closeLocked (h : Tracks c s) (hp : s.pcb.isSome = true) :
    Moves lw c s { s.closePcb lw with activeSelf := false } := by
  obtain ⟨pcb, hp⟩ := Option.isSome_iff_exists.mp hp
  obtain rfl := h.live hp
  rw [closePcb_eq, hp]
  exact ⟨_, .gone, rfl, Conn.run_closeActs lw pcb, h.ended rfl rfl rfl⟩

theorem Tracks.shutdownPcb (h : Tracks c s) : Moves lw c s (s.shutdownPcb lw) := by
  rcases shutdownPcb_cases lw s with ⟨-, he⟩ | ⟨pcb, hp, ⟨pcb', he⟩ | he | he⟩ <;> rw [he]
  · exact .of_update h rfl rfl rfl rfl
  · obtain rfl := h.live hp
    exact ⟨[.tcpShutdown], .live, rfl, rfl, h.of_same (by rw [hp]; rfl) rfl rfl⟩
  · obtain rfl := h.live hp
    exact ⟨[.tcpShutdown, .tcpAbort], .gone, by simp [TcpRelaySession.abortPcb, log], rfl,
      h.ended rfl rfl rfl⟩
  · obtain rfl := h.live hp
    exact ⟨[.tcpAbort], .gone, rfl, rfl, h.ended rfl rfl rfl⟩

theorem Tracks.chunkSection (h : Tracks c s) (chunk view : Bytes) :
    Moves lw c s (s.chunkSection P lw chunk view).1 := by
  unfold TcpRelaySession.chunkSection
  split
  · exact h.queueLwip chunk
  · rename_i hg
    split
    · exact .of_update h rfl rfl rfl rfl
    · rename_i target bytes haddr
      have hc : Moves lw c s ({ s with gotTarget := true }.connectTarget P lw target).2 :=
        h.connectTarget (Bool.eq_false_iff.mpr hg) target
      split
      · rename_i he
        rwa [he] at hc
      · rename_i he
        rw [he] at hc
        exact hc.andThen fun _ h' => h'.queueLwip bytes

theorem Tracks.perform (h : Tracks c s) (sec : Section)
    (hp : sec.usesPcb = true → s.pcb.isSome = true) : Moves lw c s (s.perform P lw sec).1 := by
  have hsame : Moves lw c s s := .of_update h rfl rfl rfl rfl
  have hlog {a : Action} (ha : a.onPcb = false) : ∀ b ∈ [a], b.onPcb = false := by
    intro b hb
    rw [List.mem_singleton.mp hb]
    exact ha
  cases sec with
  | close => exact hsame
  | closeSocket => exact .of_quiet h rfl (hlog rfl) rfl rfl rfl
  | closeTest =>
    dsimp only [TcpRelaySession.perform]
    split
    · exact hsame
    · exact .of_update h rfl rfl rfl rfl
  | closeLocked => exact h.closeLocked (hp rfl)
  | flushTest => exact hsame
  | flushLocked => exact h.flushToLwip
  | read => exact hsame
  | readSome => exact .of_quiet h rfl (hlog rfl) rfl rfl rfl
  | chunks view =>
    dsimp only [TcpRelaySession.perform]
    rcases s.crypto.decryptTcpChunk P.mbedtls view with ⟨e | _ | chunk, crypto, rest⟩
    · exact .of_update h rfl rfl rfl rfl
    · dsimp only
      split
      · exact .of_update h rfl rfl rfl rfl
      · exact .of_update h rfl rfl rfl rfl
    · have hkeyed : Moves lw c s { s with crypto := crypto } := .of_update h rfl rfl rfl rfl
      exact hkeyed.andThen fun _ h' => h'.chunkSection chunk rest
  | creditTest => exact hsame
  | creditLocked => exact h.creditDeferred
  | flushClient => exact h.flushToClient
  | shutdown => exact h.shutdownPcb
  | eofTest => exact hsame

/-- What a section leaves to do: if its test found the pcb, the section behind it comes next. -/
structure Ready (s : TcpRelaySession) (todo : List Section) : Prop where
  head : ∀ sec ∈ todo.head?, sec.usesPcb = true → s.pcb.isSome = true
  tail : ∀ sec ∈ todo.tail, sec.usesPcb = false

theorem Ready.of_plain {todo : List Section} (h : ∀ sec ∈ todo, sec.usesPcb = false) :
    Ready s todo := by
  refine ⟨fun sec hsec huses => ?_, fun sec hsec => h sec (List.mem_of_mem_tail hsec)⟩
  rw [h sec (List.mem_of_mem_head? hsec)] at huses
  cases huses

theorem Ready.append {todo rest : List Section} (h : Ready s todo)
    (hrest : ∀ sec ∈ rest, sec.usesPcb = false) : Ready s (todo ++ rest) := by
  cases todo with
  | nil => exact .of_plain hrest
  | cons sec todo =>
    refine ⟨h.head, fun sec hsec => ?_⟩
    rcases List.mem_append.mp hsec with hsec | hsec
    · exact h.tail sec hsec
    · exact hrest sec hsec

/-- A test, and the section behind it if the pcb is there. -/
theorem Ready.of_test {p : Prop} [Decidable p] {sec : Section} (h : p → s.pcb.isSome = true) :
    Ready s (if p then [sec] else []) := by
  split
  · rename_i hp
    exact ⟨fun _ _ _ => h hp, fun _ hsec => (by cases hsec)⟩
  · exact .of_plain (fun _ hsec => (by cases hsec))

theorem chunkSection_ready (s : TcpRelaySession) (chunk view : Bytes) :
    Ready (s.chunkSection P lw chunk view).1 (s.chunkSection P lw chunk view).2 := by
  rcases chunkSection_cases P lw s chunk view with
    ⟨e, t, -, h⟩ | ⟨t, -, h⟩ | ⟨-, h⟩ <;> rw [h] <;> exact .of_plain (by simp [Section.usesPcb])

theorem perform_ready (s : TcpRelaySession) (sec : Section) :
    Ready (s.perform P lw sec).1 (s.perform P lw sec).2 := by
  have hdone {t : TcpRelaySession} : Ready t [] := .of_plain (fun _ hsec => (by cases hsec))
  cases sec with
  | close =>
    dsimp only [perform]
    split <;> exact .of_plain (by simp [Section.usesPcb])
  | closeSocket => exact .of_plain (by simp [perform, Section.usesPcb])
  | closeTest =>
    dsimp only [perform]
    split
    · rename_i hp
      exact ⟨fun _ _ _ => hp, fun _ hsec => (by cases hsec)⟩
    · exact hdone
  | flushTest => exact .of_test id
  | read =>
    dsimp only [perform]
    split <;> exact .of_plain (by simp [Section.usesPcb])
  | chunks view =>
    dsimp only [perform]
    rcases s.crypto.decryptTcpChunk P.mbedtls view with ⟨e | _ | chunk, crypto, rest⟩
    · exact .of_plain (by simp [Section.usesPcb])
    · exact .of_plain (by simp [Section.usesPcb])
    · exact chunkSection_ready _ chunk rest
  | creditTest => exact .of_test And.left
  | eofTest =>
    dsimp only [perform]
    split <;> exact .of_plain (by simp [Section.usesPcb])
  | closeLocked => exact hdone
  | flushLocked => exact hdone
  | readSome => exact hdone
  | creditLocked => exact hdone
  | flushClient => exact hdone
  | shutdown => exact hdone

/-! ## The beginnings of handlers -/

/-- The events other than `on_err`. No handler begins behind a test. -/
theorem Tracks.begin {i : Input} {todo : List Section} (h : Tracks c s) (hi : i.isErr = false)
    (hb : s.begin P i = some (s', todo)) :
    Moves i.lw c s s' ∧ ∀ sec ∈ todo, sec.usesPcb = false := by
  obtain ⟨event, lw⟩ := i
  have hsame {t : TcpRelaySession} (ht : t.trace = s.trace) (hp : t.pcb = s.pcb)
      (hg : t.gotTarget = s.gotTarget) (hr : t.resolving = s.resolving) : Moves lw c s t :=
    .of_update h ht (by rw [hp]) hg hr
  -- a callback holds the lock until it returns
  have hcallback (hb : ((s.step P ⟨event, lw⟩).map fun s => (s, [])) = some (s', todo))
      (hm : Fires P s ⟨event, lw⟩ s' → Moves lw c s s') :
      Moves lw c s s' ∧ ∀ sec ∈ todo, sec.usesPcb = false := by
    obtain ⟨t, ht, he⟩ := Option.map_eq_some_iff.mp hb
    obtain ⟨rfl, rfl⟩ := Prod.mk.inj he
    exact ⟨hm (fires_of_step ht), fun _ hsec => (by cases hsec)⟩
  cases event with
  | saltRead salt =>
    simp only [TcpRelaySession.begin] at hb
    split at hb
    · cases salt with
      | none =>
        cases hb
        exact ⟨hsame rfl rfl rfl rfl, by simp [Section.usesPcb]⟩
      | some salt =>
        dsimp only at hb
        split at hb <;> cases hb <;> exact ⟨hsame rfl rfl rfl rfl, by simp [Section.usesPcb]⟩
    · cases hb
  | clientRead result =>
    simp only [TcpRelaySession.begin] at hb
    split at hb
    · cases result <;> cases hb <;> exact ⟨hsame rfl rfl rfl rfl, by simp [Section.usesPcb]⟩
    · cases hb
  | clientWrote ok =>
    simp only [TcpRelaySession.begin] at hb
    split at hb
    · cases hb
    · cases ok with
      | false =>
        cases hb
        exact ⟨hsame rfl rfl rfl rfl, by simp [Section.usesPcb]⟩
      | true =>
        cases hb
        refine ⟨.of_quiet h rfl (fun a ha => ?_) rfl rfl rfl, by simp [Section.usesPcb]⟩
        rw [List.mem_singleton.mp ha]
        rfl
  | resolved err ip =>
    simp only [TcpRelaySession.begin] at hb
    split at hb
    · cases hb
    · rename_i port hres
      obtain ⟨rfl, hg, hdone⟩ := h.asking hres
      have hmove : Moves lw .fresh s { s with resolving := none } :=
        ⟨[], .fresh, (List.append_nil _).symm, rfl, hdone⟩
      split at hb
      · cases ip with
        | none =>
          cases hb
          exact ⟨hmove, by simp [Section.usesPcb]⟩
        | some ip =>
          dsimp only at hb
          split at hb
          · cases hb
            exact ⟨hmove, by simp [Section.usesPcb]⟩
          · cases hb
            exact ⟨hdone.connectIp hg rfl ip port, by simp⟩
      · cases hb
        exact ⟨hmove, by simp⟩
  | connected err queuelen =>
    refine hcallback hb fun hf => ?_
    cases hf with
    | connected hp => exact h.onConnected hp _ err
  | recv p err rng =>
    refine hcallback hb fun hf => ?_
    cases hf with
    | recvError => exact h.close
    | remoteFin hp => exact h.handleRemoteFin hp
    | recvData hp => exact h.onRecv hp _ _
  | sent acked queuelen =>
    refine hcallback hb fun hf => ?_
    cases hf with
    | @sent _ _ _ pcb hp =>
      have h' : Tracks c { s with pcb := some { pcb with sndBuf := pcb.sndBuf + acked,
                                                         sndQueuelen := queuelen } } :=
        h.of_same (by rw [hp]; rfl) rfl rfl
      exact h'.maybeResumeClientRead
  | err e => cases hi

/-! ## Runs -/

/-- How a turn uses the pcb. -/
def uses (P : Platform) (x : Threaded) (t : Turn) : List Use :=
  x.takes t ++
    match turn P x t with
    | none => []
    | some x' => (x'.session.trace.drop x.session.trace.length).map (.call x'.lw)

theorem uses_eq {x x' : Threaded} {t : Turn} {acts : List Action} (ht : turn P x t = some x')
    (hacts : x'.session.trace = x.session.trace ++ acts) :
    uses P x t = x.takes t ++ acts.map (.call x'.lw) := by
  rw [uses, ht]
  dsimp only
  rw [hacts, List.drop_left]

/-- A session in turns, its pcb, and a handler that has not been overtaken. -/
structure Sound (c : Conn) (x : Threaded) : Prop where
  tracks : Tracks c x.session
  ready : Ready x.session x.todo

/-- A turn whose calls are allowed. -/
theorem Moves.turn {x x' : Threaded} {t : Turn} (ht : turn P x t = some x')
    (htakes : run Conn.use c (x.takes t) = some c') (hm : Moves x'.lw c' x.session x'.session)
    (hr : Ready x'.session x'.todo) : ∃ c', run Conn.use c (uses P x t) = some c' ∧ Sound c' x' := by
  obtain ⟨acts, c₂, hacts, hrun, hc⟩ := hm
  refine ⟨c₂, ?_, hc, hr⟩
  rw [uses_eq ht hacts]
  exact run_append.mpr ⟨c', htakes, hrun⟩

theorem sound_handle {x x' : Threaded} {i : Input} (h : Sound c x)
    (ht : turn P x (.handle i) = some x') :
    ∃ c', run Conn.use c (uses P x (.handle i)) = some c' ∧ Sound c' x' := by
  have hturn := ht
  simp only [TcpRelaySession.turn] at ht
  split at ht
  · obtain ⟨⟨s', todo'⟩, hb, rfl⟩ := Option.map_eq_some_iff.mp ht
    cases hi : i.isErr with
    | false =>
      obtain ⟨hmoves, hplain⟩ := h.tracks.begin hi hb
      exact Moves.turn hturn (by simp [Threaded.takes, hi]) hmoves (.of_plain hplain)
    | true =>
      obtain ⟨event, lw'⟩ := i
      cases event with
      | err e =>
        obtain ⟨t, hs, he⟩ := Option.map_eq_some_iff.mp hb
        obtain ⟨rfl, rfl⟩ := Prod.mk.inj he
        cases fires_of_step hs with
        | err hp =>
          obtain rfl := h.tracks.live hp
          exact Moves.turn hturn rfl h.tracks.onErr (.of_plain fun _ hsec => (by cases hsec))
      | _ => cases hi
  · cases ht

theorem sound_go {x x' : Threaded} (h : Sound c x) (ht : turn P x .go = some x') :
    ∃ c', run Conn.use c (uses P x .go) = some c' ∧ Sound c' x' := by
  obtain ⟨s, lw, todo⟩ := x
  cases todo with
  | nil => cases ht
  | cons sec todo =>
    obtain rfl := Option.some.inj ht
    have hready : Ready _ ((s.perform P lw sec).2 ++ todo) := (perform_ready s sec).append h.ready.tail
    have hp : sec.usesPcb = true → s.pcb.isSome = true := h.ready.head sec rfl
    have htouch : run Conn.use c (Threaded.takes ⟨s, lw, sec :: todo⟩ .go) = some c := by
      cases hsec : sec.usesPcb with
      | false => simp [Threaded.takes, Threaded.behindTest, hsec]
      | true =>
        obtain rfl := h.tracks.pcb.mp (hp hsec)
        simp [Threaded.takes, Threaded.behindTest, hsec, run, Conn.use]
    exact Moves.turn rfl htouch (h.tracks.perform sec hp) hready

/-- `on_err` is harmless where no test has found the pcb just before. -/
theorem sound_onErr {x x' : Threaded} (h : Sound c x) (hfree : x.behindTest = false)
    (ht : turn P x .onErr = some x') :
    ∃ c', run Conn.use c (uses P x .onErr) = some c' ∧ Sound c' x' := by
  have hturn := ht
  simp only [TcpRelaySession.turn] at ht
  split at ht
  · rename_i hp
    obtain rfl := Option.some.inj ht
    obtain rfl := h.tracks.pcb.mp hp
    refine Moves.turn hturn rfl h.tracks.onErr ⟨fun sec hsec huses => ?_, h.ready.tail⟩
    simp [Threaded.behindTest, Option.mem_def.mp hsec, huses] at hfree
  · cases ht

theorem sound_turn {x x' : Threaded} {t : Turn} (h : Sound c x) (hfree : x.unraced t = true)
    (ht : turn P x t = some x') : ∃ c', run Conn.use c (uses P x t) = some c' ∧ Sound c' x' := by
  cases t with
  | handle i => exact sound_handle h ht
  | go => exact sound_go h ht
  | onErr => exact sound_onErr h (by simpa [Threaded.unraced] using hfree) ht

/-- Once `on_err` has come between a test and the section behind it, the handler does not end
    without using a pcb that is gone. -/
theorem raced_not_allowed {x x' y : Threaded} {ts : List Turn} (h : Sound c x)
    (hraced : x.behindTest = true) (ht : turn P x .onErr = some x')
    (hrun : run (turn P) x' ts = some y) (hdone : y.todo = []) :
    run Conn.use c (uses P x .onErr ++ collect (turn P) (uses P) x' ts) ≠ some c' := by
  intro hall
  obtain ⟨m, hm, hrest⟩ := run_append.mp hall
  have hpcb : x.session.pcb.isSome = true := by
    by_contra hp
    simp [turn, hp] at ht
  obtain rfl : { x with session := x.session.onErr } = x' := by
    simpa [turn, hpcb] using ht
  have hnone : x.session.onErr.pcb = none := by rw [onErr_eq]
  -- the pcb is not live any more
  have hgone : m ≠ .live := by
    obtain rfl := h.tracks.pcb.mp hpcb
    have hlost : Moves x.lw .gone x.session x.session.onErr := h.tracks.onErr
    obtain ⟨acts, c₁, hacts, hcalls, hc⟩ := hlost
    rw [uses_eq ht hacts] at hm
    obtain rfl : c₁ = m := Option.some.inj (hcalls.symm.trans hm)
    intro hlive
    have hsome := hc.pcb.mpr hlive
    rw [hnone] at hsome
    cases hsome
  have htodo : x.todo ≠ [] := by
    intro hnil
    simp [Threaded.behindTest, hnil] at hraced
  cases ts with
  | nil =>
    obtain rfl := Option.some.inj hrun
    exact htodo hdone
  | cons t ts =>
    obtain ⟨x₂, hturn, -⟩ := run_cons.mp hrun
    -- the io thread is in the handler and there is no pcb to be lost, so it goes on
    cases t with
    | handle i => simp [turn, htodo] at hturn
    | go =>
      have htouch : Threaded.takes { x with session := x.session.onErr } .go = [.touch] :=
        if_pos hraced
      rw [collect, uses, htouch, List.append_assoc] at hrest
      obtain ⟨m', hm', -⟩ := run_cons.mp hrest
      simp [Conn.use, hgone] at hm'
    | onErr => simp [turn, hnone] at hturn

theorem unraced_of_allowed {x y : Threaded} {ts : List Turn} (h : Sound c x)
    (hrun : run (turn P) x ts = some y) (hdone : y.todo = [])
    (hall : run Conn.use c (collect (turn P) (uses P) x ts) = some c') :
    Along (turn P) (fun x t => x.unraced t = true) x ts := by
  induction ts generalizing c x with
  | nil => trivial
  | cons t ts ih =>
    obtain ⟨m, ht, hrest⟩ := run_cons.mp hrun
    rw [collect, ht, Option.map_some, Option.getD_some] at hall
    cases hfree : x.unraced t with
    | true =>
      obtain ⟨c₁, hfirst, hsound⟩ := sound_turn h hfree ht
      obtain ⟨c₂, hfirst', hall⟩ := run_append.mp hall
      obtain rfl := Option.some.inj (hfirst.symm.trans hfirst')
      exact (along_cons_of_some ht).mpr ⟨hfree, ih hsound hrest hall⟩
    | false =>
      cases t with
      | onErr =>
        have hraced : x.behindTest = true := by simpa [Threaded.unraced] using hfree
        exact absurd hall (raced_not_allowed h hraced ht hrest hdone)
      | handle i => cases hfree
      | go => cases hfree

theorem sound_start (crypto : ShadowsocksAeadSession) (lw : Answers) :
    Sound .fresh ⟨start crypto, lw, []⟩ := by
  refine ⟨⟨⟨fun hp => (by cases hp), fun hc => (by cases hc)⟩, fun _ => rfl, fun _ => rfl, by decide⟩, ?_⟩
  exact .of_plain (fun _ hsec => (by cases hsec))

/-- As long as `on_err` does not come between a test of `pcb_` and the section behind it, the calls of
    a run are allowed: the session connects at most once, uses the pcb only while it is live, and
    closes, aborts or loses it once, with an abort behind each `tcp_close` that lwIP refuses; and
    `pcb_` is set exactly while the pcb is live. If `on_err` comes there, the handler does not end
    without a use of the pcb that is not allowed. -/
theorem connection_protocol {crypto : ShadowsocksAeadSession} {ts : List Turn} {x : Threaded}
    (h : run (turn P) ⟨start crypto, lw, []⟩ ts = some x) :
    (Along (turn P) (fun x t => x.unraced t = true) ⟨start crypto, lw, []⟩ ts →
      ∃ c, run Conn.use .fresh (collect (turn P) (uses P) ⟨start crypto, lw, []⟩ ts) = some c ∧
        c ≠ .refused ∧ (x.session.pcb.isSome = true ↔ c = .live)) ∧
    (x.todo = [] → ∀ c,
      run Conn.use .fresh (collect (turn P) (uses P) ⟨start crypto, lw, []⟩ ts) = some c →
        Along (turn P) (fun x t => x.unraced t = true) ⟨start crypto, lw, []⟩ ts) := by
  refine ⟨fun hfree => ?_, fun hdone c hall => unraced_of_allowed (sound_start crypto lw) h hdone hall⟩
  obtain ⟨c, hrun, hc⟩ := run_collect_guarded_inv (uses P)
    (fun us x => ∃ c, run Conn.use .fresh us = some c ∧ Sound c x)
    (fun us x t x' hI hfree ht => by
      obtain ⟨c, hrun, hc⟩ := hI
      obtain ⟨c', hrun', hc'⟩ := sound_turn hc hfree ht
      exact ⟨c', run_append.mpr ⟨c, hrun, hrun'⟩, hc'⟩)
    ⟨.fresh, rfl, sound_start crypto lw⟩ hfree h
  exact ⟨c, hrun, hc.tracks.settled, hc.tracks.pcb⟩

/-- The demo session has the target, has called `tcp_connect` and comes to `flush_to_lwip`. -/
def demoFlush : List Turn :=
  [.handle ⟨.saltRead (some (zeroBlock SaltSize)), willing⟩, .go, .go,
    .handle ⟨.clientRead (.data (demoWire [ipTarget])), willing⟩, .go, .go]

/-- The pcb is lost right before the test in `flush_to_lwip`. -/
def demoLostBefore : List Turn := demoFlush ++ [Turn.onErr, Turn.go, Turn.go]

/-- The pcb is lost right behind the test. -/
def demoLostBehind : List Turn := demoFlush ++ [Turn.go, Turn.onErr, Turn.go, Turn.go]

theorem connection_protocol_demo :
    (∃ x c, run (turn demoPlatform) ⟨start demoCrypto, willing, []⟩ demoLostBefore = some x ∧
      run Conn.use .fresh (collect (turn demoPlatform) (uses demoPlatform)
        ⟨start demoCrypto, willing, []⟩ demoLostBefore) = some c ∧ c ≠ .live) ∧
    ∃ x, run (turn demoPlatform) ⟨start demoCrypto, willing, []⟩ demoLostBehind = some x ∧
      ∀ c, run Conn.use .fresh (collect (turn demoPlatform) (uses demoPlatform)
        ⟨start demoCrypto, willing, []⟩ demoLostBehind) ≠ some c := by
  constructor
  · obtain ⟨x, h, hpcb⟩ : ∃ x, run (turn demoPlatform) ⟨start demoCrypto, willing, []⟩
        demoLostBefore = some x ∧ x.session.pcb = none := ⟨_, rfl, rfl⟩
    obtain ⟨c, hc, -, hlive⟩ := (connection_protocol h).1 (by decide)
    refine ⟨x, c, h, hc, fun hl => ?_⟩
    rw [hpcb] at hlive
    cases hlive.mpr hl
  · obtain ⟨x, h, hdone⟩ : ∃ x, run (turn demoPlatform) ⟨start demoCrypto, willing, []⟩
        demoLostBehind = some x ∧ x.todo = [] := ⟨_, rfl, rfl⟩
    refine ⟨x, h, fun c hc => ?_⟩
    exact absurd ((connection_protocol h).2 hdone c hc) (by decide)

end TcpRelaySession

end Ovpn2ss.Tcp
