/-
  Where a session connects to.

  `asked` is the target of the first processed chunk that holds one. Whatever the client sends later,
  and whatever happens in between, a session makes at most one connection: to that target's address
  and port, or to an address the resolver answered for its name (`connects_to_target`).

  `Aimed` says so of a state. Only `connect_ip` adds to the connections (`Unaimed` is everything
  else), and it runs when the target becomes known or when its name is resolved, each of them once.
-/
import Ovpn2ss.Tcp.Closed
import Ovpn2ss.Tcp.Connection

namespace Ovpn2ss.Tcp

open Ovpn2ss.Aead Ovpn2ss.Lib Ovpn2ss.Lwip

/-- The calls that look for the target or connect to it. -/
def Action.aims : Action → Bool
  | .asyncResolve _ _ => true
  | .tcpConnect _ _ => true
  | _ => false

theorem aims_of_piece {a : Action} (h : a.piece ≠ .aim) : a.aims = false := by
  cases a <;> first | rfl | exact absurd rfl h

namespace TcpRelaySession

variable {P : Platform} {lw : Answers} {W : List Piece} {s s' s'' : TcpRelaySession}

/-! ## Connections and targets -/

/-- Where a trace connects to. -/
def connections (trace : List Action) : List (IpAddr × Nat) :=
  trace.filterMap fun | .tcpConnect ip port => some (ip, port) | _ => none

@[simp] theorem connections_append (t u : List Action) :
    connections (t ++ u) = connections t ++ connections u :=
  List.filterMap_append

theorem connections_of_aims {acts : List Action} (h : ∀ a ∈ acts, a.aims = false) :
    connections acts = [] := by
  rw [connections, List.filterMap_eq_nil_iff]
  intro a ha
  have := h a ha
  cases a <;> first | rfl | cases this

/-- The target of the first chunk that holds one. -/
def asked (chunks : List Bytes) : Option TargetAddress :=
  chunks.findSome? fun chunk => (parseSsAddress chunk).map Prod.fst

theorem asked_of_none {chunks : List Bytes} (h : ∀ c ∈ chunks, parseSsAddress c = none) :
    asked chunks = none := by
  rw [asked, List.findSome?_eq_none_iff]
  intro c hc
  rw [h c hc]
  rfl

theorem asked_append {chunks : List Bytes} (more : List Bytes) :
    asked (chunks ++ more) = (asked chunks).or (asked more) :=
  List.findSome?_append

theorem asked_isSome {chunks : List Bytes} (h : ∃ c ∈ chunks, parseSsAddress c ≠ none) :
    ∃ target, asked chunks = some target := by
  rw [← Option.isSome_iff_exists, asked, List.isSome_findSome?]
  obtain ⟨c, hc, hne⟩ := h
  rw [List.any_eq_true]
  refine ⟨c, hc, ?_⟩
  rw [Option.isSome_map]
  exact Option.isSome_iff_ne_none.mpr hne

/-- From `s` to `s'` the session neither connected nor asked the resolver. -/
structure Unaimed (s s' : TcpRelaySession) : Prop where
  resolving : s'.resolving = s.resolving
  closing : s.closing = true → s'.closing = true
  trace : ∃ acts, s'.trace = s.trace ++ acts ∧ ∀ a ∈ acts, a.aims = false

theorem Unaimed.trans (h : Unaimed s s') (h' : Unaimed s' s'') : Unaimed s s'' := by
  obtain ⟨acts, ht, ha⟩ := h.trace
  obtain ⟨acts', ht', ha'⟩ := h'.trace
  refine ⟨h'.resolving.trans h.resolving, h'.closing ∘ h.closing, acts ++ acts', ?_, fun a hmem => ?_⟩
  · rw [ht', ht, List.append_assoc]
  · exact (List.mem_append.mp hmem).elim (ha a) (ha' a)

theorem Unaimed.of_acts {acts : List Action} (ht : s'.trace = s.trace ++ acts)
    (ha : ∀ a ∈ acts, a.aims = false) (hr : s'.resolving = s.resolving)
    (hc : s.closing = true → s'.closing = true) : Unaimed s s' :=
  ⟨hr, hc, acts, ht, ha⟩

theorem Unaimed.of_update (ht : s'.trace = s.trace) (hr : s'.resolving = s.resolving)
    (hc : s'.closing = s.closing) : Unaimed s s' :=
  .of_acts (by rw [ht, List.append_nil]) (by simp) hr fun h => hc.trans h

theorem Unaimed.connections (h : Unaimed s s') :
    TcpRelaySession.connections s'.trace = TcpRelaySession.connections s.trace := by
  obtain ⟨acts, ht, ha⟩ := h.trace
  rw [ht, connections_append, connections_of_aims ha, List.append_nil]

theorem Unaimed.grows (h : Unaimed s s') : s.trace <+: s'.trace := by
  obtain ⟨acts, ht, -⟩ := h.trace
  exact ⟨acts, ht.symm⟩

theorem Keeps.unaimed (h : Keeps W s s') (hW : .aim ∉ W) : Unaimed s s' := by
  obtain ⟨acts, ht, ha⟩ := h.trace
  exact .of_acts ht (fun a hmem => aims_of_piece fun hp => hW (hp ▸ ha a hmem))
    (h.pieces .aim hW) fun hc => (h.closed hc).1

/-- `ip` and `port` are those of the target asked for, or `ip` is one of the resolver's answers for
    its name. -/
def Aims (P : Platform) (A : IpAddr → Prop) (chunks : List Bytes) (trace : List Action) (ip : IpAddr)
    (port : Nat) : Prop :=
  ∃ target, asked chunks = some target ∧ port = target.port ∧
    ((target.type ≠ .Domain ∧ P.ipaddrAton target.host = some ip) ∨
      (target.type = .Domain ∧ .asyncResolve target.host target.port ∈ trace ∧ A ip))

/-- There is no connection, or one, to the target of the chunks. -/
structure Aimed (P : Platform) (A : IpAddr → Prop) (chunks : List Bytes) (s : TcpRelaySession) :
    Prop where
  conn : connections s.trace = [] ∨
    ∃ ip port, connections s.trace = [(ip, port)] ∧ Aims P A chunks s.trace ip port
  fresh : s.gotTarget = false ∨ s.resolving ≠ none → connections s.trace = []

/-- What an open session resolves is the name its client asked for. -/
def Resolves (chunks : List Bytes) (s : TcpRelaySession) : Prop :=
  ∀ port, s.resolving = some port → s.closing = false →
    ∃ target, asked chunks = some target ∧ target.type = .Domain ∧ port = target.port ∧
      .asyncResolve target.host target.port ∈ s.trace

variable {A : IpAddr → Prop} {chunks : List Bytes}

theorem Aimed.unaimed {chunks' : List Bytes} (h : Aimed P A chunks s) (hu : Unaimed s s')
    (hg : s'.gotTarget = s.gotTarget) (hc : asked chunks' = asked chunks) : Aimed P A chunks' s' := by
  refine ⟨?_, fun hf => ?_⟩
  · rw [hu.connections]
    refine h.conn.imp_right ?_
    rintro ⟨ip, port, hconn, target, ht, hp, haim⟩
    refine ⟨ip, port, hconn, target, hc.trans ht, hp, haim.imp_right ?_⟩
    exact fun ⟨hd, hmem, ha⟩ => ⟨hd, hu.grows.subset hmem, ha⟩
  · rw [hg, hu.resolving] at hf
    rw [hu.connections]
    exact h.fresh hf

theorem Resolves.unaimed {chunks' : List Bytes} (h : Resolves chunks s) (hu : Unaimed s s')
    (hc : asked chunks' = asked chunks) : Resolves chunks' s' := by
  intro port hport hopen
  have hopen' : s.closing = false := by
    cases hcl : s.closing with
    | false => rfl
    | true =>
      rw [hu.closing hcl] at hopen
      cases hopen
  obtain ⟨target, ht, hd, hp, hmem⟩ := h port (hu.resolving.symm.trans hport) hopen'
  exact ⟨target, hc.trans ht, hd, hp, hu.grows.subset hmem⟩

theorem Resolves.of_closing (h : s.closing = true) : Resolves chunks s := by
  intro port _ hopen
  rw [h] at hopen
  cases hopen

/-- Without a connection so far there is nothing to say. -/
theorem Aimed.of_none (h : connections s.trace = []) : Aimed P A chunks s :=
  ⟨Or.inl h, fun _ => h⟩

/-- `connect_ip` of a session that is not connected. -/
theorem Aimed.connectIp (h : connections s.trace = []) (hg : s.gotTarget = true)
    (hr : s.resolving = none) {ip : IpAddr} {port : Nat} (haim : Aims P A chunks s.trace ip port) :
    Aimed P A chunks (s.connectIp lw ip port) ∧ Resolves chunks (s.connectIp lw ip port) := by
  have hlive {t : TcpRelaySession} (ht : t.trace = s.trace ++ [.tcpConnect ip port])
      (htg : t.gotTarget = s.gotTarget) (htr : t.resolving = s.resolving) :
      Aimed P A chunks t ∧ Resolves chunks t := by
    have hconn : connections t.trace = [(ip, port)] := by
      rw [ht, connections_append, h]
      rfl
    refine ⟨⟨Or.inr ⟨ip, port, hconn, ?_⟩, fun hf => ?_⟩, fun p hp => ?_⟩
    · obtain ⟨target, hask, hport, haim⟩ := haim
      refine ⟨target, hask, hport, haim.imp_right fun ⟨hd, hmem, ha⟩ => ⟨hd, ?_, ha⟩⟩
      rw [ht]
      exact List.mem_append_left _ hmem
    · rw [htg, htr, hg, hr] at hf
      simp at hf
    · rw [htr, hr] at hp
      cases hp
  have hclose {t : TcpRelaySession} (ht : Aimed P A chunks t) :
      Aimed P A chunks (t.close lw) ∧ Resolves chunks (t.close lw) := by
    have hf := close_frame lw t
    exact ⟨ht.unaimed (hf.unaimed (by decide)) (hf.target (by decide)) rfl, .of_closing (close_closing lw t)⟩
  rcases connectIp_cases lw s ip port with he | he | he <;> rw [he]
  · exact hlive rfl rfl rfl
  · have hc := @hlive { s with pcb := some tcpNew, activeSelf := true,
                               trace := s.trace ++ [Action.tcpConnect ip port] } rfl rfl rfl
    exact hclose hc.1
  · exact hclose (.of_none h)

/-- The target becomes known: it is resolved or connected to, or refused. -/
theorem Aimed.connectTarget (P : Platform) (lw : Answers) (A : IpAddr → Prop) (hconn : connections s.trace = [])
    (hr : s.resolving = none) {target : TargetAddress} (hask : asked chunks = some target) :
    ∃ r t, { s with gotTarget := true }.connectTarget P lw target = (r, t) ∧ t.gotTarget = true ∧
      ((r = .ok () ∧ Aimed P A chunks t ∧ Resolves chunks t) ∨
        (r ≠ .ok () ∧ connections t.trace = [])) := by
  have hgot : ({ s with gotTarget := true }.connectTarget P lw target).2.gotTarget = true :=
    (connectTarget_frame P lw _ target).target (by decide)
  rcases connectTarget_cases P lw { s with gotTarget := true } target with
    ⟨hd, r, he⟩ | ⟨-, -, e, he⟩ | ⟨hty, ip, haton, he⟩ <;> rw [he] at hgot <;>
    refine ⟨_, _, he, hgot, ?_⟩
  · have htrace : connections (s.trace ++ [.asyncResolve target.host target.port]) = [] := by
      rw [connections_append, hconn]
      rfl
    rcases r with e | ⟨⟩
    · exact Or.inr ⟨fun hok => (by cases hok), htrace⟩
    · refine Or.inl ⟨rfl, .of_none htrace, fun port hport _ => ?_⟩
      refine ⟨target, hask, hd, (Option.some.inj hport).symm, ?_⟩
      exact List.mem_append_right _ List.mem_cons_self
  · exact Or.inr ⟨fun hok => (by cases hok), hconn⟩
  · have haim : Aims P A chunks s.trace ip target.port :=
      ⟨target, hask, rfl, Or.inl ⟨hty, haton⟩⟩
    exact Or.inl ⟨rfl, Aimed.connectIp (s := { s with gotTarget := true }) hconn rfl hr haim⟩

/-- The chunk with the target, and what follows it in the same read. -/
theorem Aimed.processAddress (P : Platform) (lw : Answers) (A : IpAddr → Prop) (hg : s.gotTarget = false)
    (hr : s.resolving = none) (hconn : connections s.trace = []) {chunk rest : Bytes} (post : List Bytes)
    {target : TargetAddress} (haddr : parseSsAddress chunk = some (target, rest))
    (hask : asked chunks = some target) :
    ∃ r t, TcpRelaySession.processAll P lw s (chunk :: post) = (r, t) ∧
      ((r = .ok () ∧ Aimed P A chunks t ∧ Resolves chunks t) ∨
        (r ≠ .ok () ∧ connections t.trace = [])) := by
  obtain ⟨r, t, he, hgot, h⟩ := Aimed.connectTarget P lw A hconn hr hask
  rw [processAll_address P hg haddr, he]
  rcases h with ⟨rfl, hc, hres⟩ | ⟨hr, hconn⟩
  · have hqueue := ((queued_frame t (payloads [rest])).unaimed (by decide)).trans
      ((queued_frame (t.queued (payloads [rest])) (payloads post)).unaimed (by decide))
    dsimp only
    rw [processAll_of_target P (s := t.queued (payloads [rest])) hgot]
    exact ⟨_, _, rfl, Or.inl ⟨rfl, hc.unaimed hqueue rfl rfl, hres.unaimed hqueue rfl⟩⟩
  · rcases r with e | ⟨⟩
    · exact ⟨_, _, rfl, Or.inr ⟨hr, hconn⟩⟩
    · exact absurd rfl hr

/-- Processing the chunks of a read: a session with a target queues them, one without takes the
    first target among them. -/
theorem Aimed.processAll (lw : Answers) (h : Aimed P A chunks s) (hr : Resolves chunks s)
    (he : Exact chunks s) (hnone : s.gotTarget = false → s.resolving = none) (more : List Bytes) :
    ∃ r t, TcpRelaySession.processAll P lw s more = (r, t) ∧
      Aimed P A (chunks ++ returned P lw s more) t ∧
      (r = .ok () → Resolves (chunks ++ returned P lw s more) t) := by
  cases hg : s.gotTarget with
  | true =>
    obtain ⟨target, hask⟩ := asked_isSome (he.known hg)
    have hmore : asked (chunks ++ more) = asked chunks := by
      rw [asked_append, hask]
      rfl
    have hq := (queued_frame s (payloads more)).unaimed (by decide)
    rw [returned_of_ok (processAll_of_target P hg more), processAll_of_target P hg]
    exact ⟨_, _, rfl, h.unaimed hq rfl hmore, fun _ => hr.unaimed hq hmore⟩
  | false =>
    have hask := asked_of_none (he.fresh hg)
    -- chunks without a target close the session, which goes on with the rest of the read
    have hbads (bad : List Bytes) : Unaimed s (if bad = [] then s else s.close lw) ∧
        (if bad = [] then s else s.close lw).gotTarget = false := by
      split
      · exact ⟨.of_update rfl rfl rfl, hg⟩
      · exact ⟨(close_frame lw s).unaimed (by decide), ((close_frame lw s).target (by decide)).trans hg⟩
    rcases address_split more with hbad | ⟨bad, chunk, post, target, rest, rfl, hbad, haddr⟩
    · have hp : TcpRelaySession.processAll P lw s (more ++ []) = _ := processAll_bad P hg hbad []
      rw [List.append_nil] at hp
      have hnil : asked (chunks ++ more) = asked chunks := by
        rw [asked_append, hask, asked_of_none hbad]
        rfl
      obtain ⟨hua, hug⟩ := hbads more
      rw [returned_of_ok hp, hp]
      exact ⟨_, _, rfl, h.unaimed hua (hug.trans hg.symm) hnil, fun _ => hr.unaimed hua hnil⟩
    · obtain ⟨hua, hug⟩ := hbads bad
      have hconn := hua.connections.trans (h.fresh (Or.inl hg))
      have hres := hua.resolving.trans (hnone hg)
      have hall : asked (chunks ++ (bad ++ chunk :: post)) = some target := by
        rw [asked_append, hask, asked_append, asked_of_none hbad, Option.none_or, Option.none_or,
          asked, List.findSome?_cons, haddr]
        rfl
      obtain ⟨r, t, hp, hc⟩ :=
        Aimed.processAddress P lw A hug hres hconn post haddr hall
      rw [← processAll_bad P hg hbad] at hp
      refine ⟨r, t, hp, ?_⟩
      rcases hc with ⟨rfl, hc⟩ | ⟨hr, hconn⟩
      · rw [returned_of_ok hp]
        exact ⟨hc.1, fun _ => hc.2⟩
      · exact ⟨.of_none hconn, fun hok => absurd hok hr⟩

theorem Aimed.onClientData (h : Aimed P A chunks s) (hr : Resolves chunks s) (he : Exact chunks s)
    (hnone : s.gotTarget = false → s.resolving = none) (bytes : Bytes) :
    Aimed P A (chunks ++ returned P lw s (s.chunksOf P bytes)) (s.onClientData P lw bytes) ∧
      Resolves (chunks ++ returned P lw s (s.chunksOf P bytes)) (s.onClientData P lw bytes) := by
  obtain ⟨r, t, hp, ht, htr⟩ := h.processAll lw hr he hnone (s.chunksOf P bytes)
  rcases onClientData_cases P lw s bytes with
    ⟨t', hp', -, hdata⟩ | ⟨r', t', c, hp', -, -, hdata⟩ <;>
    obtain ⟨rfl, rfl⟩ := Prod.mk.inj (hp.symm.trans hp') <;> rw [hdata]
  · let u := t.withInput (s.decrypted P bytes).state (s.decrypted P bytes).rest
    have hin : Unaimed t u := .of_update rfl rfl rfl
    have hu := hin.trans ((flushRead_frame lw u).unaimed (by decide))
    exact ⟨ht.unaimed hu ((flushRead_frame lw u).unread (by decide)).target rfl, (htr rfl).unaimed hu rfl⟩
  · let u := t.withInput c (s.encryptedIn ++ bytes)
    have hin : Unaimed t u := .of_update rfl rfl rfl
    have hf := close_frame lw u
    exact ⟨ht.unaimed (hin.trans (hf.unaimed (by decide))) (hf.target (by decide)) rfl,
      .of_closing (close_closing lw u)⟩

/-- The resolver's answer, of which `A` holds. -/
theorem Aimed.onResolved (h : Aimed P A chunks s) (hr : Resolves chunks s) {port : Nat}
    (hport : s.resolving = some port) (hgot : s.gotTarget = true) {err : ErrT} {ip : Option IpAddr}
    (hA : ∀ a, err = .ERR_OK → ip = some a → A a) :
    Aimed P A chunks ({ s with resolving := none }.onResolved lw err ip port) ∧
      Resolves chunks ({ s with resolving := none }.onResolved lw err ip port) := by
  have hconn := h.fresh (Or.inr (by rw [hport]; exact Option.some_ne_none _))
  have hclose : Aimed P A chunks ({ s with resolving := none }.close lw) ∧
      Resolves chunks ({ s with resolving := none }.close lw) := by
    refine ⟨.of_none ?_, .of_closing (close_closing lw _)⟩
    exact ((close_frame lw { s with resolving := none }).unaimed (by decide)).connections.trans hconn
  unfold TcpRelaySession.onResolved
  split
  · exact hclose
  · rename_i a
    split
    · exact hclose
    · rename_i hgo
      obtain ⟨herr, hopen⟩ : err = .ERR_OK ∧ s.closing = false := by simpa using hgo
      obtain ⟨target, hask, hd, hp, hmem⟩ := hr port hport hopen
      have haim : Aims P A chunks s.trace a port :=
        ⟨target, hask, hp, Or.inr ⟨hd, hmem, hA a herr rfl⟩⟩
      exact Aimed.connectIp (s := { s with resolving := none }) hconn hgot rfl haim

/-! ## Steps and runs -/

/-- Connections are made only when the client's data or the resolver's answer comes in. -/
theorem fires_unaimed {i : Input} (hf : Fires P s i s')
    (hd : ∀ bytes, i.event ≠ .clientRead (.data bytes)) (hr : ∀ err ip, i.event ≠ .resolved err ip) :
    Unaimed s s' := by
  have hkeeps := (fires_keeps hf).1
  cases hf with
  | clientData => exact absurd rfl (hd _)
  | clientEof _ heof => rcases heof with rfl | rfl <;> exact hkeeps.unaimed (by simp [footprint])
  | resolved => exact absurd rfl (hr _ _)
  | unheard => exact absurd rfl (hr _ _)
  | recvError => exact (close_frame _ s).unaimed (by decide)
  | _ => exact hkeeps.unaimed (by simp [footprint])

theorem step_gotTarget {i : Input} (hs : s.step P i = some s')
    (hd : ∀ bytes, i.event ≠ .clientRead (.data bytes)) : s'.gotTarget = s.gotTarget := by
  rcases step_reads hs with ⟨bytes, he, -⟩ | ⟨salt, -, -, rfl⟩ | ⟨-, hu⟩
  · exact absurd he (hd bytes)
  · rcases onSaltRead_cases P i.lw { s with saltPending := false } salt with he | ⟨key, he⟩ <;> rw [he]
    · exact (close_frame _ _).target (by decide)
    · exact ((readEncryptedStream_frame ({ s with saltPending := false }.keyed key)).unread (by decide)).target
  · exact hu.target

end TcpRelaySession

end Ovpn2ss.Tcp
