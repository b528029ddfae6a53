/-
  Client reads: how many `async_read_some` can be outstanding.

  All reads share `read_buf_`, and they are started in two places, the read handler and
  `maybe_resume_client_read`, that know of each other only through `client_read_paused_`.
  `Reading` is what holds between any two events (`reading_run`): at most two reads are
  outstanding, at most one while the client is paused or the connection is not yet made. The
  parameter `k` counts the read whose handler is running, so that the same invariant speaks
  about the middle of a handler.

  Two reads are outstanding if `on_connected` pauses a session whose read is still outstanding,
  and the resume after the next ACK starts another. `single_read` shows that this is the only
  way; `two_reads` runs it.
-/
import Ovpn2ss.Tcp.Client

namespace Ovpn2ss.Tcp.TcpRelaySession

open Ovpn2ss.Aead Ovpn2ss.Lib Ovpn2ss.Lwip
open Ovpn2ss.Aead.ShadowsocksAeadSession (OnlyReceived)

variable {P : Platform} {lw : Answers} {k : Nat} {W : List Piece} {s s' : TcpRelaySession}

/-- Which reads can be outstanding, while the handlers of `k` reads are running. -/
structure Reading (k : Nat) (s : TcpRelaySession) : Prop where
  fresh : s.gotTarget = false → s.pcb = none ∧ s.pendingLwip = [] ∧ s.clientReadPaused = false ∧
    s.resolving = none ∧ s.writes = [] ∧ s.reads + k ≤ 1 ∧ (s.closing = true → s.reads = 0)
  salt : s.saltPending = true → s.reads + k = 0 ∧ s.gotTarget = false
  resolving : s.resolving ≠ none → s.pcb = none ∧ s.clientReadPaused = false ∧ s.reads + k ≤ 1
  connecting : ∀ pcb, s.pcb = some pcb → pcb.state = .SYN_SENT →
    s.reads + k ≤ 1 ∧ (s.clientReadPaused = true → s.reads = 0)
  reads : s.reads + k ≤ 2
  paused : s.clientReadPaused = true → s.reads ≤ 1
  key : s.gotTarget = true ∨ 0 < s.reads + k → s.crypto.haveRecvKey = true

theorem reading_start (crypto : ShadowsocksAeadSession) : Reading 0 (start crypto) where
  fresh _ := ⟨rfl, rfl, rfl, rfl, rfl, Nat.zero_le _, fun _ => rfl⟩
  salt _ := ⟨rfl, rfl⟩
  resolving h := absurd rfl h
  connecting _ h := by cases h
  reads := Nat.zero_le _
  paused h := by cases h
  key h := by
    rcases h with h | h
    · cases h
    · cases h

/-- A session with a pcb has its target. -/
theorem Reading.gotTarget (h : Reading k s) {pcb : TcpPcb} (hp : s.pcb = some pcb) :
    s.gotTarget = true := by
  cases hg : s.gotTarget with
  | true => rfl
  | false =>
    have := (h.fresh hg).1
    rw [hp] at this
    cases this

theorem Reading.weaken (h : Reading 1 s) : Reading 0 s where
  fresh hg := by
    obtain ⟨h1, h2, h3, h4, h5, h6, h7⟩ := h.fresh hg
    exact ⟨h1, h2, h3, h4, h5, by omega, h7⟩
  salt hs := by
    have := (h.salt hs).1
    omega
  resolving hr := by
    obtain ⟨h1, h2, h3⟩ := h.resolving hr
    exact ⟨h1, h2, by omega⟩
  connecting pcb hp hst := by
    obtain ⟨h1, h2⟩ := h.connecting pcb hp hst
    exact ⟨by omega, h2⟩
  reads := by
    have := h.reads
    omega
  paused := h.paused
  key _ := h.key (Or.inr (by omega))

/-- Before the target is known, the read being handled is the only one. -/
theorem Reading.idle (h : Reading 1 s) (hg : s.gotTarget = false) : s.reads = 0 := by
  have := (h.fresh hg).2.2.2.2.2.1
  omega

/-- A session without a target is closed only when no read is outstanding. -/
theorem Reading.close (h : Reading k s) (hidle : s.gotTarget = false → s.reads = 0) :
    Reading k (s.close lw) := by
  cases hc : s.closing with
  | true => rwa [close_of_closing hc]
  | false =>
    rw [close_of_open hc]
    exact { h with
      fresh := fun hg => by
        obtain ⟨-, h2, h3, h4, h5, h6, -⟩ := h.fresh hg
        exact ⟨rfl, h2, h3, h4, h5, h6, fun _ => hidle hg⟩
      resolving := fun hr => ⟨rfl, (h.resolving hr).2⟩
      connecting := fun pcb hp => by cases hp }

theorem Reading.closeWithTarget (h : Reading k s) (hg : s.gotTarget = true) :
    Reading k (s.close lw) :=
  h.close fun hg' => absurd hg (Bool.eq_false_iff.mp hg')

/-- With a pcb the resolution is over. -/
theorem Reading.resolving_eq_none (h : Reading k s) {pcb : TcpPcb} (hp : s.pcb = some pcb) :
    s.resolving = none := by
  by_contra hr
  have hnone := (h.resolving hr).1
  rw [hp] at hnone
  cases hnone

theorem Reading.flushed (h : Reading k s) {pcb pcb' : TcpPcb} (hp : s.pcb = some pcb)
    (hst : pcb'.state = pcb.state) (sent rest : List Bytes) : Reading k (s.flushed pcb' sent rest) :=
  have htarget := h.gotTarget hp
  { h with
    fresh := fun hg => absurd htarget (Bool.eq_false_iff.mp hg)
    resolving := fun hr => absurd (h.resolving_eq_none hp) hr
    connecting := fun q hq hqst => by
      obtain rfl := Option.some.inj hq
      exact h.connecting pcb hp (hst ▸ hqst) }

/-- A flush may pause the client if at most one read is outstanding, none of them while the
    connection is being made. -/
theorem Reading.flushToLwip (h : Reading k s) (hr : s.reads ≤ 1)
    (hsyn : ∀ pcb, s.pcb = some pcb → pcb.state = .SYN_SENT → s.reads = 0) :
    Reading k (s.flushToLwip lw) := by
  rcases flushToLwip_cases lw s with
    ⟨-, he⟩ | ⟨pcb, pcb', sent, rest, hp, hst, -, ⟨-, he⟩ | ⟨-, he⟩ | ⟨-, he⟩⟩ <;> rw [he]
  · exact h
  · exact h.flushed hp hst sent []
  · have hf := h.flushed hp hst sent rest
    exact { hf with
      fresh := fun hg => absurd (h.gotTarget hp) (Bool.eq_false_iff.mp hg)
      resolving := fun hr => by
        have := (hf.resolving hr).1
        cases this
      connecting := fun q hq hqst => by
        refine ⟨(hf.connecting q hq hqst).1, fun _ => ?_⟩
        obtain rfl := Option.some.inj hq
        exact hsyn pcb hp (hst ▸ hqst)
      paused := fun _ => hr }
  · exact (h.flushed hp hst sent rest).closeWithTarget (h.gotTarget hp)

/-- The next read takes the place of the one that was handled. -/
theorem Reading.readEncryptedStream (h : Reading 1 s) : Reading 0 s.readEncryptedStream := by
  by_cases hheld : s.closing = true ∨ s.clientReadPaused = true
  · rw [readEncryptedStream_of_held hheld]
    exact h.weaken
  · rw [not_or, Bool.not_eq_true, Bool.not_eq_true] at hheld
    rw [readEncryptedStream_of_open hheld.1 hheld.2]
    exact { h with
      fresh := fun hg => by
        obtain ⟨h1, h2, h3, h4, h5, h6, -⟩ := h.fresh hg
        exact ⟨h1, h2, h3, h4, h5, h6, fun hc => absurd hc (Bool.eq_false_iff.mp hheld.1)⟩
      salt := fun hs => absurd (h.salt hs).1 (by omega)
      connecting := fun pcb hp hst => ⟨(h.connecting pcb hp hst).1,
        fun hpause => absurd hpause (Bool.eq_false_iff.mp hheld.2)⟩
      paused := fun hpause => absurd hpause (Bool.eq_false_iff.mp hheld.2)
      key := fun _ => h.key (Or.inr (by omega)) }

/-! ## The read handler -/

theorem Reading.withInput (h : Reading k s) {c : ShadowsocksAeadSession}
    (hc : OnlyReceived s.crypto c) (input : Bytes) : Reading k (s.withInput c input) :=
  { h with
    key := fun hk => by
      show c.haveRecvKey = true
      rw [show c = _ from hc]
      exact h.key hk }

theorem Reading.queued (h : Reading k s) (hg : s.gotTarget = true) (ps : List Bytes) :
    Reading k (s.queued ps) :=
  { h with
    fresh := fun hg' => absurd hg (Bool.eq_false_iff.mp hg') }

/-- A connection is made when there is a target but no pcb, and at most one read outstanding
    besides those handled. -/
theorem Reading.connectIp (h : Reading k s) (hg : s.gotTarget = true) (hres : s.resolving = none)
    (hr : s.reads + k ≤ 1) (hp : s.clientReadPaused = false) (ip : IpAddr) (port : Nat) :
    Reading k (s.connectIp lw ip port) := by
  have hpcb (pcb : TcpPcb) (acts : List Action) :
      Reading k { s with pcb := some pcb, activeSelf := true, trace := s.trace ++ acts } :=
    { h with
      fresh := fun hg' => absurd hg (Bool.eq_false_iff.mp hg')
      resolving := fun hr => absurd hres hr
      connecting := fun _ _ _ => ⟨hr, fun hp' => absurd hp' (Bool.eq_false_iff.mp hp)⟩ }
  have hnone : Reading k { s with pcb := none } :=
    { h with
      fresh := fun hg' => absurd hg (Bool.eq_false_iff.mp hg')
      resolving := fun hr => absurd hres hr
      connecting := fun _ hq => by cases hq }
  rcases connectIp_cases lw s ip port with he | he | he <;> rw [he]
  · exact hpcb synSent _
  · exact (hpcb tcpNew _).closeWithTarget hg
  · exact hnone.closeWithTarget hg

theorem Reading.processDecryptedChunk (h : Reading 1 s) (chunk : Bytes) :
    Reading 1 (s.processDecryptedChunk P lw chunk).2 := by
  unfold TcpRelaySession.processDecryptedChunk
  split
  · rename_i hg
    dsimp only
    rw [queueLwip_eq]
    exact h.queued hg _
  · rename_i hg
    rw [Bool.not_eq_true] at hg
    obtain ⟨h1, h2, h3, h4, h5, h6, h7⟩ := h.fresh hg
    split
    · exact h.close h.idle
    · rename_i target bytes _
      -- the target is known now, and this handler's read is the only one
      have ht : Reading 1 { s with gotTarget := true } :=
        { h with
          fresh := fun hg' => by cases hg'
          salt := fun hs => absurd (h.salt hs).1 (by omega)
          key := fun _ => h.key (Or.inr (by omega)) }
      have hc : Reading 1 ({ s with gotTarget := true }.connectTarget P lw target).2 ∧
          ({ s with gotTarget := true }.connectTarget P lw target).2.gotTarget = true := by
        rcases connectTarget_cases P lw { s with gotTarget := true } target with
          ⟨-, r, he⟩ | ⟨-, -, e, he⟩ | ⟨-, ip, -, he⟩ <;> rw [he]
        · refine ⟨{ ht with
            fresh := fun hg' => by cases hg'
            resolving := fun _ => ⟨h1, h3, h6⟩
            connecting := fun pcb hp => ?_ }, rfl⟩
          rw [show s.pcb = some pcb from hp] at h1
          cases h1
        · exact ⟨ht, rfl⟩
        · exact ⟨ht.connectIp rfl h4 h6 h3 ip target.port,
            (connectIp_frame lw _ ip target.port).target (by decide)⟩
      split
      · rename_i he
        rw [he] at hc
        exact hc.1
      · rename_i he
        rw [he] at hc
        dsimp only
        rw [queueLwip_eq]
        exact hc.1.queued hc.2 _

theorem Reading.onClientData (h : Reading 1 s) (bytes : Bytes) :
    Reading 0 (s.onClientData P lw bytes) := by
  have hall : Reading 1 (processAll P lw s (s.chunksOf P bytes)).2 :=
    processAll_inv P (Reading 1) _ (fun _ chunk _ h => h.processDecryptedChunk chunk) h
  have hinput := (processAll_input P lw s (s.chunksOf P bytes)).1
  rcases onClientData_cases P lw s bytes with ⟨t, hp, -, he⟩ | ⟨r, t, c, hp, -, hc, he⟩ <;>
    rw [hp] at hall hinput <;> rw [he]
  · have hin := hall.withInput (c := (s.decrypted P bytes).state)
      (by rw [hinput]; exact decrypted_onlyReceived P s bytes) (s.decrypted P bytes).rest
    refine (hin.flushToLwip ?_ fun pcb hpcb hst => ?_).readEncryptedStream
    · have := hin.reads
      omega
    · have := (hin.connecting pcb hpcb hst).1
      omega
  · have hin := hall.withInput (c := c) (by rw [hinput]; exact hc) (s.encryptedIn ++ bytes)
    exact (hin.close hin.idle).weaken

/-! ## The other handlers -/

/-- Without a pcb nothing is being connected. -/
theorem Reading.noPcb (h : Reading k s) (hg : s.gotTarget = true) (eof fin : Bool)
    (acts : List Action) :
    Reading k { s with clientEof := eof, remoteEof := fin, pcb := none, activeSelf := false,
                       trace := s.trace ++ acts } :=
  { h with
    fresh := fun hg' => absurd hg (Bool.eq_false_iff.mp hg')
    resolving := fun hr => ⟨rfl, (h.resolving hr).2⟩
    connecting := fun pcb hp => by cases hp }

theorem Reading.handleClientEof (h : Reading 1 s) : Reading 0 (s.handleClientEof lw) := by
  refine Reading.weaken ?_
  rcases handleClientEof_cases lw s with
    ⟨-, he⟩ | ⟨pcb, hpcb, ⟨-, -, he⟩ | ⟨-, acts, -, -, he⟩⟩ <;> rw [he]
  · have heof : Reading 1 { s with clientEof := true } := { h with }
    exact heof.close heof.idle
  · have hg := h.gotTarget hpcb
    have hst : (halfClosed lw pcb).state = .SYN_SENT → pcb.state = .SYN_SENT := by
      unfold halfClosed
      split
      · intro hq
        cases hs : pcb.state <;> rw [hs] at hq <;> first | rfl | cases hq
      · exact id
    have heof : Reading 1 { s with clientEof := true, pcb := some (halfClosed lw pcb),
                                   trace := s.trace ++ [.tcpShutdown] } :=
      { h with
        fresh := fun hg' => absurd hg (Bool.eq_false_iff.mp hg')
        resolving := fun hr => absurd (h.resolving_eq_none hpcb) hr
        connecting := fun q hq hqst => by
          obtain rfl := Option.some.inj hq
          exact h.connecting pcb hpcb (hst hqst) }
    dsimp only
    split
    · exact heof.close heof.idle
    · exact heof
  · exact (h.noPcb (h.gotTarget hpcb) true s.remoteEof acts).closeWithTarget (h.gotTarget hpcb)

theorem Reading.handleRemoteFin (h : Reading 0 s) {pcb : TcpPcb} (hp : s.pcb = some pcb) :
    Reading 0 (s.handleRemoteFin lw) := by
  have hg := h.gotTarget hp
  have hsev : Reading 0 (s.severed lw) := h.noPcb hg s.clientEof true _
  rw [handleRemoteFin_eq hp]
  split
  · exact hsev.closeWithTarget hg
  · exact hsev

theorem Reading.onErr (h : Reading 0 s) {pcb : TcpPcb} (hp : s.pcb = some pcb) :
    Reading 0 s.onErr := by
  have hg := h.gotTarget hp
  rw [onErr_eq]
  exact { h with
    fresh := fun hg' => absurd hg (Bool.eq_false_iff.mp hg')
    resolving := fun hr => ⟨rfl, (h.resolving hr).2⟩
    connecting := fun pcb hp => by cases hp }

/-- lwIP changes its own fields of the pcb, not the state it is connecting in. -/
theorem Reading.pcbUpdate (h : Reading k s) {pcb pcb' : TcpPcb} (hp : s.pcb = some pcb)
    (hst : pcb'.state ≠ .SYN_SENT) : Reading k { s with pcb := some pcb' } :=
  { h with
    fresh := fun hg' => absurd (h.gotTarget hp) (Bool.eq_false_iff.mp hg')
    resolving := fun hr => absurd (h.resolving_eq_none hp) hr
    connecting := fun q hq hqst => by
      obtain rfl := Option.some.inj hq
      exact absurd hqst hst }

/-- Resuming: the client was paused, so there is room for the read that is started. -/
theorem Reading.maybeResumeClientRead (h : Reading 0 s)
    (hst : ∀ pcb, s.pcb = some pcb → pcb.state ≠ .SYN_SENT) :
    Reading 0 (s.maybeResumeClientRead lw) := by
  rcases maybeResumeClientRead_cases lw s with he | ⟨pcb, hp, hpause, -, he⟩ <;> rw [he]
  · exact h
  · have hg := h.gotTarget hp
    have hr := h.paused hpause
    have hgo : Reading 1 { s with clientReadPaused := false } :=
      { fresh := fun hg' => absurd hg (Bool.eq_false_iff.mp hg')
        salt := fun hs => absurd hg (Bool.eq_false_iff.mp (h.salt hs).2)
        resolving := fun hr => absurd (h.resolving_eq_none hp) hr
        connecting := fun q hq hqst => absurd hqst (hst q hq)
        reads := Nat.succ_le_succ hr
        paused := fun hp' => by cases hp'
        key := fun _ => h.key (Or.inl hg) }
    exact (hgo.flushToLwip hr fun q hq hqst => absurd hqst (hst q hq)).readEncryptedStream

/-- Downstream work leaves the reads alone; it goes on only once there is a target. -/
theorem Reading.downstream (h : Reading 0 s) (hg : s.gotTarget = true) (hd : Downstream s s') :
    Reading 0 s' := by
  have htarget : s'.gotTarget = s.gotTarget := hd.keeps.pieces .target (by decide)
  have hsalt : s'.saltPending = s.saltPending := hd.keeps.pieces .salt (by decide)
  have hreads : s'.reads = s.reads := hd.keeps.pieces .reads (by decide)
  have hpause : s'.clientReadPaused = s.clientReadPaused := hd.keeps.pieces .pause (by decide)
  have hres : s'.resolving = s.resolving := hd.keeps.pieces .aim (by decide)
  have hkey : s'.crypto.haveRecvKey = s.crypto.haveRecvKey :=
    congrArg Prod.fst (hd.keeps.pieces .cipher (by decide))
  have hpcb : s'.pcb = s.pcb ∨ s'.pcb = none :=
    hd.closing_or_same.imp (fun h => h.2.1) (fun h => h.2.1)
  constructor
  · intro hg'
    rw [htarget, hg] at hg'
    cases hg'
  · rw [hsalt, hreads, htarget]
    exact h.salt
  · rw [hres, hpause, hreads]
    intro hr
    obtain ⟨h1, h2⟩ := h.resolving hr
    exact ⟨hpcb.elim (·.trans h1) id, h2⟩
  · rw [hpause, hreads]
    intro pcb hp
    rcases hpcb with he | he <;> rw [he] at hp
    · exact h.connecting pcb hp
    · cases hp
  · rw [hreads]
    exact h.reads
  · rw [hpause, hreads]
    exact h.paused
  · rw [htarget, hreads, hkey]
    exact h.key

theorem synchronised_ne_synSent {st : TcpState} (h : synchronised st = true) : st ≠ .SYN_SENT := by
  rintro rfl
  cases h

/-- The handler of a read runs with its read taken off the count. -/
theorem Reading.readDone (h : Reading 0 s) (hpos : 0 < s.reads) :
    Reading 1 { s with reads := s.reads - 1 } := by
  have hr : s.reads - 1 + 1 = s.reads := Nat.sub_add_cancel hpos
  exact
    { fresh := fun hg => by
        obtain ⟨h1, h2, h3, h4, h5, h6, h7⟩ := h.fresh hg
        exact ⟨h1, h2, h3, h4, h5, hr.trans_le h6, fun _ => by
          show s.reads - 1 = 0
          omega⟩
      salt := fun hs => absurd (h.salt hs).1 (by omega)
      resolving := fun hres => by
        obtain ⟨h1, h2, h3⟩ := h.resolving hres
        exact ⟨h1, h2, hr.trans_le h3⟩
      connecting := fun pcb hp hst => by
        obtain ⟨h1, -⟩ := h.connecting pcb hp hst
        refine ⟨hr.trans_le h1, fun _ => ?_⟩
        show s.reads - 1 = 0
        omega
      reads := hr.trans_le h.reads
      paused := fun hp => (Nat.sub_le _ _).trans (h.paused hp)
      key := fun _ => h.key (Or.inr hpos) }

/-- The salt comes before any read, and before the target. -/
theorem Reading.onSaltRead (h : Reading 0 s) (hsalt : s.saltPending = true) (salt : Option Salt) :
    Reading 0 ({ s with saltPending := false }.onSaltRead P lw salt) := by
  obtain ⟨hr, hg⟩ := h.salt hsalt
  obtain ⟨h1, h2, h3, h4, h5, -, -⟩ := h.fresh hg
  have hr0 : s.reads = 0 := hr
  rcases onSaltRead_cases P lw { s with saltPending := false } salt with he | ⟨key, he⟩ <;> rw [he]
  · have h0 : Reading 0 { s with saltPending := false } := { h with salt := fun hs => by cases hs }
    exact h0.close fun _ => hr0
  · have hkey : Reading 1 ({ s with saltPending := false }.keyed key) :=
      { fresh := fun _ => ⟨h1, h2, h3, h4, h5, Nat.succ_le_succ hr0.le, fun _ => hr0⟩
        salt := fun hs => by cases hs
        resolving := fun hr => absurd h4 hr
        connecting := fun pcb hp => by
          rw [show s.pcb = some pcb from hp] at h1
          cases h1
        reads := Nat.succ_le_succ (hr0.le.trans (Nat.zero_le 1))
        paused := fun hp => absurd hp (Bool.eq_false_iff.mp h3)
        key := fun _ => rfl }
    exact hkey.readEncryptedStream

theorem Reading.onResolved (h : Reading 0 s) (hres : s.resolving ≠ none) (err : ErrT)
    (ip : Option IpAddr) (port : Nat) :
    Reading 0 ({ s with resolving := none }.onResolved lw err ip port) := by
  have hg : s.gotTarget = true := by
    cases hg : s.gotTarget with
    | true => rfl
    | false => exact absurd (h.fresh hg).2.2.2.1 hres
  obtain ⟨-, hpause, hr⟩ := h.resolving hres
  have hdone : Reading 0 { s with resolving := none } :=
    { h with
      fresh := fun hg' => absurd hg (Bool.eq_false_iff.mp hg')
      resolving := fun hr => absurd rfl hr }
  exact onResolved_inv (Reading 0) (hdone.closeWithTarget hg)
    fun _ ip => hdone.connectIp hg rfl hr hpause ip port

/-- Every step keeps the invariant. -/
theorem reading_step {i : Input} (h : Reading 0 s) (hs : s.step P i = some s') : Reading 0 s' := by
  cases fires_of_step hs with
  | saltRead hsalt => exact h.onSaltRead hsalt _
  | clientData hpos => exact (h.readDone hpos).onClientData _
  | clientEof hpos => exact (h.readDone hpos).handleClientEof
  | clientError hpos => exact ((h.readDone hpos).close (h.readDone hpos).idle).weaken
  | @clientWrote lw ok buf writes hw =>
    have hg : s.gotTarget = true := by
      cases hg : s.gotTarget with
      | true => rfl
      | false =>
        rw [(h.fresh hg).2.2.2.2.1] at hw
        cases hw
    have hpop : Reading 0 { s with writes := writes } :=
      { h with fresh := fun hg' => absurd hg (Bool.eq_false_iff.mp hg') }
    exact hpop.downstream hg (onClientWrote_downstream _ _ _ _)
  | resolved hres =>
    have hne : s.resolving ≠ none := by rw [hres]; exact Option.some_ne_none _
    exact h.onResolved hne _ _ _
  | unheard =>
    exact { h with
      fresh := fun hg => by
        obtain ⟨h1, h2, h3, -, h5, h6, h7⟩ := h.fresh hg
        exact ⟨h1, h2, h3, rfl, h5, h6, h7⟩
      resolving := fun hr => absurd rfl hr }
  | @connected lw err queuelen pcb hp hst =>
    have hr : s.reads ≤ 1 := (h.connecting pcb hp hst).1
    have hest : Reading 0 { s with pcb := some { pcb with state := .ESTABLISHED,
                                                          sndQueuelen := queuelen } } :=
      h.pcbUpdate hp (by simp)
    refine onConnected_inv (Reading 0) (hest.closeWithTarget (h.gotTarget hp)) ?_
    refine hest.flushToLwip hr fun q hq hqst => ?_
    obtain rfl := Option.some.inj hq
    cases hqst
  | recvError hp => exact h.closeWithTarget (h.gotTarget hp)
  | remoteFin hp => exact h.handleRemoteFin hp
  | recvData hp => exact h.downstream (h.gotTarget hp) (onRecv_downstream P _ s _ _)
  | sent hp hst =>
    refine Reading.maybeResumeClientRead (h.pcbUpdate hp (synchronised_ne_synSent hst)) ?_
    intro q hq
    obtain rfl := Option.some.inj hq
    exact synchronised_ne_synSent hst
  | err hp => exact h.onErr hp

theorem reading_run {crypto : ShadowsocksAeadSession} {is : List Input} (h : Reaches P crypto is s) :
    Reading 0 s :=
  run_inv (Reading 0) (fun _ _ _ h hs => reading_step h hs) (reading_start crypto) h

/-! ## One read at a time -/

/-- At most one read is outstanding, the ones being handled included, and none while the
    client of an open session is paused. -/
structure Single (k : Nat) (s : TcpRelaySession) : Prop where
  reads : s.reads + k ≤ 1
  paused : s.closing = false → s.clientReadPaused = true → s.reads = 0

/-- Neither the reads nor the pause have changed, and a closed session is still closed. -/
structure SameReads (s s' : TcpRelaySession) : Prop where
  reads : s'.reads = s.reads
  paused : s'.clientReadPaused = s.clientReadPaused
  closing : s.closing = true → s'.closing = true

theorem Keeps.sameReads (h : Keeps W s s') (hr : .reads ∉ W) (hp : .pause ∉ W) : SameReads s s' :=
  ⟨h.pieces .reads hr, h.pieces .pause hp, fun hc => (h.closed hc).1⟩

theorem Single.same (h : Single k s) (hs : SameReads s s') : Single k s' := by
  refine ⟨by rw [hs.reads]; exact h.reads, ?_⟩
  intro hc hp
  rw [hs.reads]
  refine h.paused (Bool.eq_false_iff.mpr fun hc' => ?_) (hs.paused ▸ hp)
  rw [hs.closing hc'] at hc
  cases hc

/-- lwIP takes the whole backlog at once: at each chunk there is room for it, for the low
    water mark and in the queue, and lwIP does not run out of memory. -/
def Takes (lw : Answers) : List Bytes → TcpPcb → Prop
  | [], _ => True
  | pkt :: rest, pcb =>
    pkt.length ≤ tcpSndbuf pcb ∧ LwipSndLowWater ≤ tcpSndbuf pcb ∧
    tcpSndqueuelen pcb < LwipSndQueueHighWater ∧ (tcpWrite lw pcb (u16Sized pkt)).1 ≠ .ERR_MEM ∧
    ((tcpWrite lw pcb (u16Sized pkt)).1 = .ERR_OK → Takes lw rest (tcpWrite lw pcb (u16Sized pkt)).2)

theorem flushLoop_of_takes {ps : List Bytes} {pcb : TcpPcb} (h : Takes lw ps pcb) :
    (flushLoop lw ps pcb).stop ≠ .paused := by
  induction ps generalizing pcb with
  | nil => simp [flushLoop]
  | cons pkt rest ih =>
    obtain ⟨h1, h2, h3, h4, h5⟩ := h
    rw [flushLoop, if_neg (by omega)]
    rcases hw : tcpWrite lw pcb (u16Sized pkt) with ⟨err, pcb'⟩
    rw [hw] at h4 h5
    cases err with
    | ERR_OK => exact ih (h5 rfl)
    | ERR_MEM => exact absurd rfl h4
    | _ => simp

/-- A flush pauses the client only if lwIP does not take the backlog. -/
theorem flushToLwip_of_takes {pcb : TcpPcb} (hp : s.pcb = some pcb)
    (h : Takes lw s.pendingLwip pcb) : SameReads s (s.flushToLwip lw) := by
  have hstop := flushLoop_of_takes h
  unfold flushToLwip
  rw [hp]
  dsimp only
  split
  · exact ⟨rfl, rfl, id⟩
  · rename_i hs
    exact absurd hs hstop
  · exact ⟨(close_frame lw _).pieces .reads (by decide), (close_frame lw _).pieces .pause (by decide),
      fun _ => close_closing lw _⟩

theorem Single.flushToLwip (h : Single k s) (hr : s.reads = 0) : Single k (s.flushToLwip lw) := by
  have hf : (s.flushToLwip lw).reads = s.reads := (flushToLwip_frame lw s).pieces .reads (by decide)
  exact ⟨by rw [hf]; exact h.reads, fun _ _ => hf.trans hr⟩

theorem Single.readEncryptedStream (h : Single 1 s) : Single 0 s.readEncryptedStream := by
  by_cases hheld : s.closing = true ∨ s.clientReadPaused = true
  · rw [readEncryptedStream_of_held hheld]
    exact ⟨(Nat.le_succ _).trans h.reads, h.paused⟩
  · rw [not_or, Bool.not_eq_true, Bool.not_eq_true] at hheld
    rw [readEncryptedStream_of_open hheld.1 hheld.2]
    exact ⟨h.reads, fun _ hp => absurd hp (Bool.eq_false_iff.mp hheld.2)⟩

theorem Single.weaken (h : Single 1 s) : Single 0 s := ⟨(Nat.le_succ _).trans h.reads, h.paused⟩

theorem Single.onClientData (h : Single 1 s) (bytes : Bytes) :
    Single 0 (s.onClientData P lw bytes) := by
  refine onClientData_inv P (Single 1) (Single 0) ?_ ?_
    (h.same ((processAll_frame P lw s (s.chunksOf P bytes)).sameReads (by decide) (by decide)))
  · intro t c rest ht
    have hin : Single 1 (t.withInput c rest) := ht.same ⟨rfl, rfl, id⟩
    exact (hin.flushToLwip (Nat.le_zero.mp (Nat.le_of_succ_le_succ ht.reads))).readEncryptedStream
  · intro t c rest ht
    have hin : Single 1 (t.withInput c rest) := ht.same ⟨rfl, rfl, id⟩
    exact (hin.same ((close_frame lw _).sameReads (by decide) (by decide))).weaken

/-- Resuming finds no read outstanding, unless the session is closed and starts none. -/
theorem Single.maybeResumeClientRead (h : Single 0 s) : Single 0 (s.maybeResumeClientRead lw) := by
  rcases maybeResumeClientRead_cases lw s with he | ⟨pcb, -, hpause, -, he⟩ <;> rw [he]
  · exact h
  · have hflush := flushToLwip_frame lw { s with clientReadPaused := false }
    by_cases hclosing : s.closing = true
    · obtain ⟨hc, hr⟩ := hflush.closed hclosing
      rw [readEncryptedStream_of_held (Or.inl hc)]
      refine ⟨hr.trans h.reads, fun hopen => ?_⟩
      rw [hc] at hopen
      cases hopen
    · have hr0 := h.paused (Bool.eq_false_iff.mpr hclosing) hpause
      have hgo : Single 1 { s with clientReadPaused := false } :=
        ⟨Nat.succ_le_succ hr0.le, fun _ _ => hr0⟩
      exact (hgo.flushToLwip hr0).readEncryptedStream

/-- A connection is announced while no read is outstanding, or lwIP takes the backlog. -/
def ConnectsClear (s : TcpRelaySession) (i : Input) : Prop :=
  ∀ err queuelen pcb, i.event = .connected err queuelen → s.pcb = some pcb →
    s.reads = 0 ∨
      Takes i.lw s.pendingLwip { pcb with state := .ESTABLISHED, sndQueuelen := queuelen }

theorem single_step {i : Input} (hR : Reading 0 s) (h : Single 0 s) (hG : ConnectsClear s i)
    (hs : s.step P i = some s') : Single 0 s' := by
  -- with a read outstanding there is just the one, and an open session is not paused
  have hread (hpos : 0 < s.reads) : Single 1 { s with reads := s.reads - 1 } := by
    have hr := h.reads
    refine ⟨?_, fun _ _ => ?_⟩
    · show s.reads - 1 + 1 ≤ 1
      omega
    · show s.reads - 1 = 0
      omega
  have hf := fires_of_step hs
  have hkeeps := (fires_keeps hf).1
  cases hf with
  | saltRead hsalt =>
    have hr0 : s.reads = 0 := (hR.salt hsalt).1
    rcases onSaltRead_cases P _ { s with saltPending := false } _ with he | ⟨key, he⟩ <;> rw [he]
    · have hread : Single 0 { s with saltPending := false } := h.same ⟨rfl, rfl, id⟩
      exact hread.same ((close_frame _ _).sameReads (by decide) (by decide))
    · have hkey : Single 1 ({ s with saltPending := false }.keyed key) :=
        ⟨Nat.succ_le_succ hr0.le, fun _ _ => hr0⟩
      exact hkey.readEncryptedStream
  | clientData hpos => exact (hread hpos).onClientData _
  | clientEof hpos =>
    exact ((hread hpos).same ((handleClientEof_frame _ _).sameReads (by decide) (by decide))).weaken
  | clientError hpos =>
    exact ((hread hpos).same ((close_frame _ _).sameReads (by decide) (by decide))).weaken
  | @connected lw err queuelen pcb hp hst =>
    have hest : Single 0 { s with pcb := some { pcb with state := .ESTABLISHED,
                                                         sndQueuelen := queuelen } } :=
      h.same ⟨rfl, rfl, id⟩
    refine onConnected_inv (Single 0)
      (hest.same ((close_frame _ _).sameReads (by decide) (by decide))) ?_
    rcases hG err queuelen pcb rfl hp with hr | htakes
    · exact hest.flushToLwip hr
    · exact hest.same (flushToLwip_of_takes rfl htakes)
  | recvError => exact h.same ((close_frame _ s).sameReads (by decide) (by decide))
  | @sent lw acked queuelen pcb =>
    have hack : Single 0 { s with pcb := some { pcb with sndBuf := pcb.sndBuf + acked,
                                                         sndQueuelen := queuelen } } :=
      h.same ⟨rfl, rfl, id⟩
    exact hack.maybeResumeClientRead
  | _ => exact h.same (hkeeps.sameReads (by simp [footprint]) (by simp [footprint]))

/-- One read at a time: in every run in which `on_connected` never finds both a read outstanding
    and a backlog that lwIP does not take at once, at most one `async_read_some` is outstanding
    in every state. -/
theorem single_read {crypto : ShadowsocksAeadSession} {is : List Input}
    (hG : Along (step P) ConnectsClear (start crypto) is) (h : Reaches P crypto is s) :
    s.reads ≤ 1 := by
  have hinv := run_guarded_inv (fun s => Reading 0 s ∧ Single 0 s)
    (fun _ _ _ hI hG hs => ⟨reading_step hI.1 hs, single_step hI.1 hI.2 hG hs⟩)
    ⟨reading_start crypto, Nat.zero_le _, fun _ _ => rfl⟩ hG h
  exact hinv.2.reads

/-- The name is resolved and connected to while one byte waits. -/
def demoBacklog : List Input :=
  demoOpening [domainTarget, [7]] ++
    [⟨.resolved .ERR_OK (some ⟨false, [10, 0, 0, 1]⟩), willing⟩, ⟨.connected .ERR_OK 0, willing⟩]

theorem single_read_demo :
    Along (step demoPlatform) ConnectsClear (start demoCrypto) demoBacklog ∧
    ∃ s, Reaches demoPlatform demoCrypto demoBacklog s ∧ s.reads ≤ 1 := by
  have hG : Along (step demoPlatform) ConnectsClear (start demoCrypto) demoBacklog := by
    refine ⟨fun _ _ _ h => (by cases h), fun s1 h1 => ?_⟩
    obtain rfl := Option.some.inj h1
    refine ⟨fun _ _ _ h => (by cases h), fun s2 h2 => ?_⟩
    obtain rfl := Option.some.inj h2
    refine ⟨fun _ _ _ h => (by cases h), fun s3 h3 => ?_⟩
    obtain rfl := Option.some.inj h3
    refine ⟨fun err queuelen pcb h hp => ?_, fun _ _ => trivial⟩
    obtain rfl := Option.some.inj hp
    obtain ⟨rfl, rfl⟩ := Event.connected.inj h
    exact Or.inr ⟨by decide +kernel, by decide +kernel, by decide +kernel, by decide +kernel,
      fun _ => trivial⟩
  have hrun : ∃ s, Reaches demoPlatform demoCrypto demoBacklog s := ⟨_, rfl⟩
  obtain ⟨s, h⟩ := hrun
  exact ⟨hG, s, h, single_read hG h⟩

/-- With room above the low water mark, a chunk of 8158 bytes is written. -/
theorem flushLoop_big {big : Bytes} (hbig : big.length = 8158) (rest : List Bytes) {pcb : TcpPcb}
    (hroom : LwipSndLowWater ≤ pcb.sndBuf) (hq : pcb.sndQueuelen < LwipSndQueueHighWater) :
    flushLoop willing (big :: rest) pcb =
      let f := flushLoop willing rest { pcb with sndBuf := pcb.sndBuf - 8158,
                                                 sndQueuelen := pcb.sndQueuelen + 1 }
      { f with written := big :: f.written } := by
  have hu : u16Sized big = big := by
    rw [u16Sized, hbig]
    exact List.take_of_length_le hbig.le
  have hgo : ¬ (tcpSndbuf pcb < big.length ∨ tcpSndbuf pcb < LwipSndLowWater ∨
      LwipSndQueueHighWater ≤ tcpSndqueuelen pcb) := by
    simp only [LwipSndLowWater, TCP_MSS, tcpSndbuf, tcpSndqueuelen, hbig] at *
    omega
  rw [flushLoop, if_neg hgo, hu]
  simp only [tcpWrite, willing, hbig]

/-- Below the low water mark nothing is written. -/
theorem flushLoop_full {pkt : Bytes} (rest : List Bytes) {pcb : TcpPcb}
    (hfull : pcb.sndBuf < LwipSndLowWater) (lw : Answers) :
    flushLoop lw (pkt :: rest) pcb = ⟨[], pcb, pkt :: rest, .paused⟩ := by
  have hstop : tcpSndbuf pcb < pkt.length ∨ tcpSndbuf pcb < LwipSndLowWater ∨
      LwipSndQueueHighWater ≤ tcpSndqueuelen pcb :=
    Or.inr (Or.inl (lt_of_le_of_lt (Nat.min_le_left _ _) hfull))
  rw [flushLoop, if_pos hstop]

/-- Of six such chunks an empty send buffer takes five. -/
theorem flushLoop_six {big : Bytes} (hbig : big.length = 8158) :
    flushLoop willing [big, big, big, big, big, big] ⟨.ESTABLISHED, TCP_SND_BUF, 0⟩ =
      ⟨[big, big, big, big, big], ⟨.ESTABLISHED, 2730, 5⟩, [big], .paused⟩ := by
  rw [flushLoop_big hbig _ (by decide) (by decide), flushLoop_big hbig _ (by decide) (by decide),
    flushLoop_big hbig _ (by decide) (by decide), flushLoop_big hbig _ (by decide) (by decide),
    flushLoop_big hbig _ (by decide) (by decide), flushLoop_full _ (by decide)]
  rfl

/-- The backlog of a resolved name: `on_connected` writes five chunks and pauses the client whose
    read is outstanding, the ACK of the five resumes it, and a second read is started. -/
theorem two_reads_of_backlog {big : Bytes} (hbig : big.length = 8158)
    {client : ShadowsocksAeadSession} {port : Nat} (h : Waiting client s)
    (hres : s.resolving = some port) (hpend : s.pendingLwip = [big, big, big, big, big, big]) :
    ∃ s', run (step P) s [⟨.resolved .ERR_OK (some ⟨false, [10, 0, 0, 1]⟩), willing⟩,
      ⟨.connected .ERR_OK 0, willing⟩, ⟨.sent 40790 0, willing⟩] = some s' ∧ s'.reads = 2 := by
  obtain ⟨s1, h1, p1, q1, c1, r1⟩ : ∃ s1,
      s.step P ⟨.resolved .ERR_OK (some ⟨false, [10, 0, 0, 1]⟩), willing⟩ = some s1 ∧
      s1.pcb = some synSent ∧ s1.pendingLwip = [big, big, big, big, big, big] ∧ s1.closing = false ∧
      s1.reads = 1 :=
    ⟨{ s with resolving := none, pcb := some synSent, activeSelf := true,
              trace := s.trace ++ [.tcpConnect ⟨false, [10, 0, 0, 1]⟩ port] },
      by simp [step, hres, alive, h.reading, onResolved, h.isOpen, connectIp, willing, log],
      rfl, hpend, h.isOpen, h.reading⟩
  obtain ⟨s2, h2, p2, q2, z2, c2, r2⟩ : ∃ s2, s1.step P ⟨.connected .ERR_OK 0, willing⟩ = some s2 ∧
      s2.pcb = some ⟨.ESTABLISHED, 2730, 5⟩ ∧ s2.pendingLwip = [big] ∧
      s2.clientReadPaused = true ∧ s2.closing = false ∧ s2.reads = 1 :=
    ⟨{ s1 with pcb := some ⟨.ESTABLISHED, 2730, 5⟩, pendingLwip := [big], clientReadPaused := true,
               trace := s1.trace ++ [big, big, big, big, big].map .tcpWrite },
      by simp [step, p1, onConnected, flushToLwip, q1, synSent, tcpNew, flushLoop_six hbig],
      rfl, rfl, rfl, c1, r1⟩
  have hlast : flushLoop willing [big] ⟨.ESTABLISHED, 43520, 0⟩ =
      ⟨[big], ⟨.ESTABLISHED, 35362, 1⟩, [], .drained⟩ := by
    rw [flushLoop_big hbig _ (by decide) (by decide)]
    rfl
  obtain ⟨s3, h3, r3⟩ : ∃ s3, s2.step P ⟨.sent 40790 0, willing⟩ = some s3 ∧ s3.reads = 2 := by
    refine ⟨_, by simp [step, p2, synchronised, TCP_SND_BUF, TCP_MSS]; rfl, ?_⟩
    simp [onSent, maybeResumeClientRead, z2, q2, c2, r2, tcpSndbuf, LwipSndLowWater, TCP_MSS,
      flushToLwip, hlast, readEncryptedStream]
  exact ⟨s3, run_cons.mpr ⟨s1, h1, run_cons.mpr ⟨s2, h2, run_cons.mpr ⟨s3, h3, rfl⟩⟩⟩, r3⟩

/-- Two reads into `read_buf_` are outstanding: while a name is being resolved the client sends
    six chunks of 8158 bytes, then the name is resolved, connected to and acknowledged. -/
theorem two_reads : ∃ is s, Reaches demoPlatform demoCrypto is s ∧ s.reads = 2 := by
  obtain ⟨client, s, h, hw, hs, hp, hr⟩ := waiting_demo
  have hbig : (List.replicate 8158 (0 : UInt8)).length = 8158 := List.length_replicate
  obtain ⟨is, t, client', hrun, hw', hp', hr'⟩ := waiting_run (P := demoPlatform) standIn_seals
    standIn_inverts willing
    (List.replicate 6 (List.replicate 8158 0)) (by
      intro p hmem
      rw [List.eq_of_mem_replicate hmem, hbig]
      exact ⟨List.ne_nil_of_length_pos (by rw [hbig]; decide), by decide⟩) hw hs
  rw [hp, List.nil_append] at hp'
  obtain ⟨u, hu, hreads⟩ := two_reads_of_backlog hbig hw' (hr'.trans hr) hp'
  exact ⟨_, u, run_append.mpr ⟨s, h, run_append.mpr ⟨t, hrun, hu⟩⟩, hreads⟩

end Ovpn2ss.Tcp.TcpRelaySession
