/-
  The answers of the resolver reach the clients that asked.

  Every call of `async_resolve` has a caller, every handler that was posted belongs to a call, and a
  client waits for as many answers as it has calls whose handlers have not run (`Linked`). In the middle
  of an event that balance is off by one: a client already waits for a call it is about to make, or a
  handler is running whose client has not heard it yet. `Linked` has that client as a parameter.

  So a handler always belongs to a client that waits for it, and a client that is still there hears
  the answer to its own question (`posted_answers_arrive`). Together with what is known of each machine
  by itself, traffic for a name goes only to addresses that were learnt for that name by a call of the
  same session, or of the same relay for the same target, while the ids drawn are free
  (`traffic_follows_resolver`). And a client that waits has a call that is still open
  (`waits_for_open_calls`).
-/
import Ovpn2ss.Dns.Once
import Ovpn2ss.Instance.System

namespace Ovpn2ss.Instance

open Ovpn2ss.Aead Ovpn2ss.Lib Ovpn2ss.Lwip
open Ovpn2ss.Dns (LwipRuntime DnsAnswers Posting)
open Ovpn2ss.Dns.LwipRuntime (hosts Told)
open Ovpn2ss.Tcp (TcpRelaySession)
open Ovpn2ss.Tcp.TcpRelaySession (requests)
open Ovpn2ss.Udp (UdpRelaySession UdpAnswers)
open Ovpn2ss.Udp.UdpRelaySession (demoPlatform demoFactory demoClient demoDatagram)

variable {P : Udp.Platform} {config : Dns.TunConfig} {factory : ShadowsocksAeadFactory}

/-! ## Questions and answers -/

/-- How many answers a client waits for. -/
def waits (t : Instance P config factory) : Caller → Nat
  | .session k => (t.sessions[k]?.map fun h => h.state.resolving.toList.length).getD 0
  | .relay k r => (t.relays[k]?.map fun h => h.state.resolving.count r).getD 0

/-- The calls whose handlers have run. -/
def delivered (t : Instance P config factory) : List Nat := (t.lwip.state.posted.take t.ran).map (·.call)

/-- The calls of a client whose handlers have not run. -/
def due (t : Instance P config factory) (x : Caller) : Finset Nat :=
  (Finset.range t.callers.length).filter fun c => t.callers[c]? = some x ∧ c ∉ t.delivered

/-- The client has asked for the host. -/
def Wants (t : Instance P config factory) : Caller → Bytes → Prop
  | .session k, host => ∃ h, t.sessions[k]? = some h ∧ requests h.state.trace = [host]
  | .relay _ r, host => host = r.target.host

/-- A handler of the client has run with the answer. -/
def Served (t : Instance P config factory) : Caller → ErrT → Option IpAddr → Prop
  | .session k, err, ip => ∃ h, t.sessions[k]? = some h ∧ ∃ i ∈ h.events, i.event = .resolved err ip
  | .relay k r, err, ip => ∃ h, t.relays[k]? = some h ∧ ∃ b, .resolved r err ip b ∈ h.events

/-- The answer was posted for a call of the client. -/
def Answer (t : Instance P config factory) (x : Caller) (err : ErrT) (ip : Option IpAddr) : Prop :=
  ∃ p ∈ t.lwip.state.posted, t.callers[p.call]? = some x ∧ p.err = err ∧ p.ip = ip

/-- One for the client that is one ahead. -/
def ahead (o : Option Caller) (x : Caller) : Nat := if o = some x then 1 else 0

structure Linked (o : Option Caller) (t : Instance P config factory) : Prop where
  calls : t.callers.length = (hosts t.lwip.events).length
  wants : ∀ (c : Nat) x, t.callers[c]? = some x →
    ∃ host, (hosts t.lwip.events)[c]? = some host ∧ t.Wants x host
  heard : ∀ x err ip, t.Served x err ip → t.Answer x err ip
  ran : t.ran ≤ t.lwip.state.posted.length
  balance : ∀ x, (t.due x).card + ahead o x = t.waits x

variable {t t' : Instance P config factory} {o o' : Option Caller} {k : Nat} {x : Caller}

theorem ahead_none (y : Caller) : ahead none y = 0 := rfl

theorem ahead_self (y : Caller) : ahead (some y) y = 1 := if_pos rfl

theorem ahead_of_ne {y : Caller} (h : y ≠ x) : ahead (some x) y = 0 :=
  if_neg fun he => h (Option.some.inj he).symm

theorem linked_new : Linked none (new : Instance P config factory) where
  calls := rfl
  wants c x hx := by cases hx
  heard x err ip hx := by
    cases x <;> obtain ⟨h, hk, -⟩ := hx <;> cases hk
  ran := Nat.le_refl _
  balance x := by cases x <;> rfl

/-! ## The resolver's part -/

theorem delivered_extend {e : LwipRuntime.Event}
    {lwip : History (LwipRuntime.step P.ipaddrAton) (LwipRuntime.new config)}
    (hran : t.ran ≤ t.lwip.state.posted.length) (hext : t.lwip.extend e = some lwip) :
    lwip.state.posted.take t.ran = t.lwip.state.posted.take t.ran := by
  obtain ⟨rest, hrest⟩ := LwipRuntime.posted_step (History.extend_eq_some.mp hext).1
  rw [← hrest, List.take_append_of_le_length hran]

/-- The resolver goes on by itself. -/
theorem Linked.resolver (h : Linked o t) {e : LwipRuntime.Event}
    {lwip : History (LwipRuntime.step P.ipaddrAton) (LwipRuntime.new config)}
    (hext : t.lwip.extend e = some lwip) (he : hosts [e] = []) : Linked o { t with lwip := lwip } := by
  obtain ⟨hs, hevents⟩ := History.extend_eq_some.mp hext
  have hgrown := LwipRuntime.posted_step hs
  have hhosts : hosts lwip.events = hosts t.lwip.events := by
    rw [hevents, LwipRuntime.hosts_append, he, List.append_nil]
  have hdue (x : Caller) : due { t with lwip := lwip } x = t.due x := by
    unfold due delivered
    dsimp only
    rw [delivered_extend h.ran hext]
  refine ⟨h.calls.trans (congrArg _ hhosts.symm), fun c x hx => ?_, fun x err ip hx => ?_, ?_, fun x => ?_⟩
  · rw [hhosts]
    exact h.wants c x hx
  · obtain ⟨p, hp, hrest⟩ := h.heard x err ip hx
    exact ⟨p, hgrown.subset hp, hrest⟩
  · exact h.ran.trans hgrown.length_le
  · rw [hdue]
    exact h.balance x

theorem mem_due {c : Nat} : c ∈ t.due x ↔ t.callers[c]? = some x ∧ c ∉ t.delivered := by
  unfold due
  rw [Finset.mem_filter, Finset.mem_range, and_iff_right_iff_imp]
  exact fun h => (List.getElem?_eq_some_iff.mp h.1).1

theorem Linked.posted_lt (h : Linked o t) {p : Posting} (hp : p ∈ t.lwip.state.posted) :
    p.call < t.callers.length := by
  rw [h.calls, (LwipRuntime.genuine_run t.lwip.reached).calls]
  exact (LwipRuntime.once_run t.lwip.reached).numbered _
    (List.mem_append_right _ (List.mem_append_left _ (List.mem_map_of_mem hp)))

theorem Linked.delivered_lt (h : Linked o t) {c : Nat} (hc : c ∈ t.delivered) : c < t.callers.length := by
  obtain ⟨p, hp, rfl⟩ := List.mem_map.mp hc
  exact h.posted_lt (List.mem_of_mem_take hp)

/-- A new call is due. -/
theorem Linked.card_due_ask (h : Linked o t) {e : LwipRuntime.Event}
    {lwip : History (LwipRuntime.step P.ipaddrAton) (LwipRuntime.new config)}
    (hext : t.lwip.extend e = some lwip) (x y : Caller) :
    (due { t with lwip := lwip, callers := t.callers ++ [x] } y).card = (t.due y).card + ahead (some x) y := by
  have hmem (c : Nat) : c ∈ due { t with lwip := lwip, callers := t.callers ++ [x] } y ↔
      c ∈ t.due y ∨ c = t.callers.length ∧ y = x := by
    rw [mem_due, mem_due, delivered, delivered_extend h.ran hext]
    constructor
    · exact fun ⟨hy, hnot⟩ => (getElem?_of_concat hy).imp_left fun hy => ⟨hy, hnot⟩
    · rintro (⟨hy, hnot⟩ | ⟨rfl, rfl⟩)
      · exact ⟨getElem?_concat_of_some hy _, hnot⟩
      · exact ⟨List.getElem?_concat_length, fun hd => Nat.lt_irrefl _ (h.delivered_lt hd)⟩
  by_cases hy : y = x
  · have hnew : t.callers.length ∉ t.due y := fun hc =>
      absurd (List.getElem?_eq_some_iff.mp (mem_due.mp hc).1).1 (Nat.lt_irrefl _)
    rw [hy, ahead_self, ← hy, ← Finset.card_insert_of_notMem hnew]
    congr 1
    ext c
    rw [← hy] at hmem
    rw [hmem, Finset.mem_insert, or_comm, and_iff_left rfl]
  · rw [ahead_of_ne hy, Nat.add_zero]
    congr 1
    ext c
    rw [hmem, or_iff_left fun hc => hy hc.2]

/-- A call of a client that waits for it already. -/
theorem Linked.ask (h : Linked (some x) t) {host : Bytes} {a : DnsAnswers}
    {lwip : History (LwipRuntime.step P.ipaddrAton) (LwipRuntime.new config)}
    (hext : t.lwip.extend (.resolve host a) = some lwip) (hw : t.Wants x host) :
    Linked none { t with lwip := lwip, callers := t.callers ++ [x] } := by
  obtain ⟨hs, hevents⟩ := History.extend_eq_some.mp hext
  have hgrown := LwipRuntime.posted_step hs
  have hhosts : hosts lwip.events = hosts t.lwip.events ++ [host] := by
    rw [hevents, LwipRuntime.hosts_append]
    rfl
  refine ⟨?_, fun c y hy => ?_, fun y err ip hy => ?_, ?_, fun y => ?_⟩
  · rw [hhosts, List.length_append, List.length_append, h.calls]
    rfl
  · rw [hhosts]
    rcases getElem?_of_concat hy with hy | ⟨rfl, rfl⟩
    · obtain ⟨host', hhost, hwants⟩ := h.wants c y hy
      exact ⟨host', getElem?_concat_of_some hhost _, hwants⟩
    · refine ⟨host, ?_, hw⟩
      rw [h.calls, List.getElem?_concat_length]
  · obtain ⟨p, hp, hcall, hrest⟩ := h.heard y err ip hy
    exact ⟨p, hgrown.subset hp, getElem?_concat_of_some hcall _, hrest⟩
  · exact h.ran.trans hgrown.length_le
  · exact (h.card_due_ask hext x y).trans (h.balance y)

theorem mem_drop_of_getElem? {p : Posting} (hp : t.lwip.state.posted[t.ran]? = some p) :
    p ∈ t.lwip.state.posted.drop t.ran :=
  List.mem_of_getElem? (i := 0) (by rw [List.getElem?_drop, Nat.add_zero, hp])

/-- No handler runs twice. -/
theorem not_mem_delivered {p : Posting} (hp : p ∈ t.lwip.state.posted.drop t.ran) :
    p.call ∉ t.delivered := by
  have hnodup := (LwipRuntime.once_run t.lwip.reached).nodup
  have hposted := (List.nodup_append.mp (List.nodup_append.mp hnodup).2.1).1
  rw [LwipRuntime.postedCalls, ← List.take_append_drop t.ran t.lwip.state.posted, List.map_append]
    at hposted
  exact fun hmem => (List.nodup_append.mp hposted).2.2 _ hmem _ (List.mem_map_of_mem hp) rfl

theorem due_begin {p : Posting} (hp : t.lwip.state.posted[t.ran]? = some p) (y : Caller) :
    due { t with ran := t.ran + 1 } y = (t.due y).erase p.call := by
  have hdelivered : delivered { t with ran := t.ran + 1 } = t.delivered ++ [p.call] := by
    unfold delivered
    dsimp only
    rw [List.take_add_one, hp, List.map_append]
    rfl
  ext c
  rw [Finset.mem_erase, mem_due, mem_due, hdelivered, List.mem_append, List.mem_singleton, not_or]
  tauto

/-- The next handler begins to run. -/
theorem Linked.begin (h : Linked none t) {p : Posting} (hp : t.lwip.state.posted[t.ran]? = some p)
    (hx : t.callers[p.call]? = some x) : Linked (some x) { t with ran := t.ran + 1 } := by
  refine ⟨h.calls, h.wants, h.heard, (List.getElem?_eq_some_iff.mp hp).1, fun y => ?_⟩
  have hb := h.balance y
  rw [due_begin hp]
  by_cases hy : y = x
  · rw [hy] at hb ⊢
    have hdue := mem_due.mpr ⟨hx, not_mem_delivered (mem_drop_of_getElem? hp)⟩
    rw [ahead_self, Finset.card_erase_of_mem hdue, Nat.sub_add_cancel (Finset.card_pos.mpr ⟨_, hdue⟩)]
    exact hb
  · have hother : p.call ∉ t.due y := fun hc =>
      hy (Option.some.inj ((mem_due.mp hc).1.symm.trans hx))
    rw [ahead_of_ne hy, Finset.erase_eq_of_notMem hother]
    exact hb

/-! ## The clients' part -/

/-- The clients go on, with the resolver as it is. -/
theorem Linked.clients (h : Linked o t)
    {sessions : List (History (TcpRelaySession.step P.tcp) (TcpRelaySession.start factory.makeSession))}
    {relays : List (History (UdpRelaySession.step P) (UdpRelaySession.new factory))}
    (ht : t' = { t with sessions := sessions, relays := relays })
    (hwants : ∀ y host, t.Wants y host → t'.Wants y host)
    (hheard : ∀ y err ip, t'.Served y err ip → t.Served y err ip ∨ t.Answer y err ip)
    (hwaits : ∀ y, t.waits y + ahead o' y = t'.waits y + ahead o y) : Linked o' t' := by
  subst ht
  refine ⟨h.calls, fun c y hy => ?_, fun y err ip hy => ?_, h.ran, fun y => ?_⟩
  · obtain ⟨host, hhost, hw⟩ := h.wants c y hy
    exact ⟨host, hhost, hwants y host hw⟩
  · exact (hheard y err ip hy).elim (h.heard y err ip) id
  · have hsame : due { t with sessions := sessions, relays := relays } y = t.due y := rfl
    have hb := h.balance y
    have hw := hwaits y
    rw [hsame]
    omega

/-- A step of one session. -/
theorem Linked.session (h : Linked o t) {i : Tcp.Input}
    {g g' : History (TcpRelaySession.step P.tcp) (TcpRelaySession.start factory.makeSession)}
    (hk : t.sessions[k]? = some g) (hext : g.extend i = some g')
    (hreq : requests g.state.trace ≠ [] → requests g'.state.trace = requests g.state.trace)
    (hheard : ∀ err ip, i.event = .resolved err ip → t.Answer (.session k) err ip)
    (hwait : g.state.resolving.toList.length + ahead o' (.session k) =
      g'.state.resolving.toList.length + ahead o (.session k))
    (hrest : ∀ y, y ≠ .session k → ahead o' y = ahead o y) :
    Linked o' { t with sessions := t.sessions.set k g' } := by
  have hset : (t.sessions.set k g')[k]? = some g' :=
    List.getElem?_set_self (List.getElem?_eq_some_iff.mp hk).1
  have hevents := (History.extend_eq_some.mp hext).2
  refine h.clients rfl ?_ ?_ ?_
  · rintro (j | ⟨j, r⟩) host hw
    · obtain ⟨g₁, hg₁, hhost⟩ := hw
      rcases getElem?_set_of_some g' hk hg₁ with hg₁ | ⟨rfl, rfl, hg'⟩
      · exact ⟨g₁, hg₁, hhost⟩
      · exact ⟨g', hg', (hreq (by rw [hhost]; exact List.cons_ne_nil _ _)).trans hhost⟩
    · exact hw
  · rintro (j | ⟨j, r⟩) err ip hy
    · obtain ⟨g₁, hg₁, i₁, hi₁, he⟩ := hy
      rcases getElem?_of_set hg₁ with hg₁ | ⟨rfl, rfl⟩
      · exact Or.inl ⟨g₁, hg₁, i₁, hi₁, he⟩
      · rw [hevents, List.mem_append, List.mem_singleton] at hi₁
        rcases hi₁ with hi₁ | rfl
        · exact Or.inl ⟨g, hk, i₁, hi₁, he⟩
        · exact Or.inr (hheard err ip he)
    · exact Or.inl hy
  · intro y
    by_cases hy : y = .session k
    · subst hy
      unfold waits
      dsimp only
      rw [hset, hk]
      exact hwait
    · have hsame : waits { t with sessions := t.sessions.set k g' } y = t.waits y := by
        cases y with
        | session j =>
          unfold waits
          dsimp only
          rw [List.getElem?_set_ne fun hj => hy (congrArg _ hj.symm)]
        | relay j r => rfl
      rw [hsame, hrest y hy]

/-- A step of one relay. -/
theorem Linked.relay (h : Linked o t) {e : UdpRelaySession.Event}
    {g g' : History (UdpRelaySession.step P) (UdpRelaySession.new factory)}
    (hk : t.relays[k]? = some g) (hext : g.extend e = some g')
    (hheard : ∀ r err ip b, e = .resolved r err ip b → t.Answer (.relay k r) err ip)
    (hwait : ∀ r, g.state.resolving.count r + ahead o' (.relay k r) =
      g'.state.resolving.count r + ahead o (.relay k r))
    (hrest : ∀ y, (∀ r, y ≠ .relay k r) → ahead o' y = ahead o y) :
    Linked o' { t with relays := t.relays.set k g' } := by
  have hset : (t.relays.set k g')[k]? = some g' :=
    List.getElem?_set_self (List.getElem?_eq_some_iff.mp hk).1
  have hevents := (History.extend_eq_some.mp hext).2
  refine h.clients rfl ?_ ?_ ?_
  · rintro (j | ⟨j, r⟩) host hw <;> exact hw
  · rintro (j | ⟨j, r⟩) err ip hy
    · exact Or.inl hy
    · obtain ⟨g₁, hg₁, b, hb⟩ := hy
      rcases getElem?_of_set hg₁ with hg₁ | ⟨rfl, rfl⟩
      · exact Or.inl ⟨g₁, hg₁, b, hb⟩
      · rw [hevents, List.mem_append, List.mem_singleton] at hb
        rcases hb with hb | hb
        · exact Or.inl ⟨g, hk, b, hb⟩
        · exact Or.inr (hheard r err ip b hb.symm)
  · intro y
    by_cases hy : ∃ r, y = .relay k r
    · obtain ⟨r, rfl⟩ := hy
      unfold waits
      dsimp only
      rw [hset, hk]
      exact hwait r
    · have hsame : waits { t with relays := t.relays.set k g' } y = t.waits y := by
        cases y with
        | session j => rfl
        | relay j r =>
          unfold waits
          dsimp only
          rw [List.getElem?_set_ne fun hj : k = j => hy ⟨r, hj ▸ rfl⟩]
      rw [hsame, hrest y fun r hr => hy ⟨r, hr⟩]

theorem Linked.accept (h : Linked o t) : Linked o { t with sessions := t.sessions ++ [.initial] } := by
  refine h.clients rfl ?_ ?_ ?_
  · rintro (j | ⟨j, r⟩) host hw
    · obtain ⟨g, hg, hhost⟩ := hw
      exact ⟨g, getElem?_concat_of_some hg _, hhost⟩
    · exact hw
  · rintro (j | ⟨j, r⟩) err ip hy
    · obtain ⟨g, hg, i, hi, he⟩ := hy
      rcases getElem?_of_concat hg with hg | ⟨-, rfl⟩
      · exact Or.inl ⟨g, hg, i, hi, he⟩
      · cases hi
    · exact Or.inl hy
  · rintro (j | ⟨j, r⟩)
    · unfold waits
      dsimp only
      rw [getD_concat]
      rfl
    · rfl

theorem Linked.makeRelay (h : Linked o t) : Linked o { t with relays := t.relays ++ [.initial] } := by
  refine h.clients rfl ?_ ?_ ?_
  · rintro (j | ⟨j, r⟩) host hw <;> exact hw
  · rintro (j | ⟨j, r⟩) err ip hy
    · exact Or.inl hy
    · obtain ⟨g, hg, b, hb⟩ := hy
      rcases getElem?_of_concat hg with hg | ⟨-, rfl⟩
      · exact Or.inl ⟨g, hg, b, hb⟩
      · cases hb
  · rintro (j | ⟨j, r⟩)
    · rfl
    · unfold waits
      dsimp only
      rw [getD_concat]
      rfl

/-! ## Whole runs -/

theorem resolving_of_resolved {s s' : TcpRelaySession} {err : ErrT} {ip : Option IpAddr} {lw : Lwip.Answers}
    (hs : TcpRelaySession.step P.tcp s ⟨.resolved err ip, lw⟩ = some s') :
    ∃ port, s.resolving = some port := by
  cases TcpRelaySession.fires_of_step hs with
  | resolved hport | unheard hport => exact ⟨_, hport⟩

theorem mem_resolving_of_resolved {s s' : UdpRelaySession} {r : Udp.Resolution} {err : ErrT}
    {ip : Option IpAddr} {b : UdpAnswers} (hs : UdpRelaySession.step P s (.resolved r err ip b) = some s') :
    r ∈ s.resolving := by
  cases UdpRelaySession.fires_of_step hs with
  | ignored hmem | resolved hmem => exact hmem

theorem Linked.onSession_own (h : Linked none t) {i : Tcp.Input} {a : DnsAnswers}
    (hi : ∀ err ip, i.event ≠ .resolved err ip) (hs : t.onSession k i a = some t') : Linked none t' := by
  obtain ⟨g, g', hk, hext, ⟨hreq, hres, rfl⟩ | ⟨host, lwip, hnil, hnone, hreq, hres, hlwip, rfl⟩⟩ :=
    Instance.onSession_own hi hs
  · refine h.session hk hext (fun _ => hreq) (fun err ip he => absurd he (hi err ip)) ?_ fun _ _ => rfl
    rw [hres]
  · -- The session waits before it has called.
    have hwaiting : Linked (some (.session k)) { t with sessions := t.sessions.set k g' } := by
      refine h.session hk hext (fun hne => absurd hnil hne) (fun err ip he => absurd he (hi err ip)) ?_
        fun y hy => ahead_of_ne hy
      obtain ⟨r, hr⟩ := Option.ne_none_iff_exists'.mp hres
      rw [hnone, hr, ahead_self]
      rfl
    exact hwaiting.ask hlwip ⟨g', List.getElem?_set_self (List.getElem?_eq_some_iff.mp hk).1, hreq⟩

theorem Linked.onSession_resolved (h : Linked (some (.session k)) t) {err : ErrT} {ip : Option IpAddr}
    {lw : Lwip.Answers} {a : DnsAnswers} (hp : t.Answer (.session k) err ip)
    (hs : t.onSession k ⟨.resolved err ip, lw⟩ a = some t') : Linked none t' := by
  obtain ⟨g, g', hk, hext, hreq, rfl⟩ := Instance.onSession_resolved hs
  refine h.session hk hext (fun _ => hreq) ?_ ?_ fun y hy => (ahead_of_ne hy).symm
  · intro err' ip' he
    cases he
    exact hp
  · have hs := (History.extend_eq_some.mp hext).1
    obtain ⟨port, hport⟩ := resolving_of_resolved hs
    rw [ahead_self, hport, (TcpRelaySession.resolved_requests rfl hs).2]
    rfl

theorem Linked.onRelay_own (h : Linked none t) {e : UdpRelaySession.Event} {a : DnsAnswers}
    (he : ∀ r err ip b, e ≠ .resolved r err ip b) (hs : t.onRelay k e a = some t') : Linked none t' := by
  obtain ⟨g, g', hk, hext, ⟨hres, rfl⟩ | ⟨r, lwip, hres, hlwip, rfl⟩⟩ := Instance.onRelay_own he hs
  · refine h.relay hk hext (fun r err ip b hr => absurd hr (he r err ip b)) (fun r => ?_) fun _ _ => rfl
    rw [hres]
  · have hwaiting : Linked (some (.relay k r)) { t with relays := t.relays.set k g' } := by
      refine h.relay hk hext (fun r err ip b hr => absurd hr (he r err ip b)) (fun r' => ?_)
        fun y hy => ahead_of_ne (hy r)
      rw [hres, List.count_append, ahead_none, Nat.add_zero]
      refine congrArg (g.state.resolving.count r' + ·) ?_
      by_cases hr : r' = r
      · rw [hr, ahead_self, List.count_singleton_self]
      · rw [ahead_of_ne fun hc => hr (Caller.relay.inj hc).2]
        exact (List.count_eq_zero.mpr fun hc => hr (List.mem_singleton.mp hc)).symm
    exact hwaiting.ask hlwip rfl

theorem Linked.onRelay_resolved {r : Udp.Resolution} (h : Linked (some (.relay k r)) t) {err : ErrT}
    {ip : Option IpAddr} {b : UdpAnswers} {a : DnsAnswers} (hp : t.Answer (.relay k r) err ip)
    (hs : t.onRelay k (.resolved r err ip b) a = some t') : Linked none t' := by
  obtain ⟨g, g', hk, hext, hres, rfl⟩ := Instance.onRelay_resolved hs
  refine h.relay hk hext ?_ (fun r' => ?_) fun y hy => (ahead_of_ne (hy r)).symm
  · intro r' err' ip' b' he
    cases he
    exact hp
  · rw [hres, ahead_none, Nat.add_zero]
    by_cases hr : r' = r
    · have hmem : r ∈ g.state.resolving := mem_resolving_of_resolved (History.extend_eq_some.mp hext).1
      rw [hr, ahead_self, List.count_erase_self, Nat.sub_add_cancel (List.count_pos_iff.mpr hmem)]
    · rw [List.count_erase_of_ne hr, ahead_of_ne fun hc => hr (Caller.relay.inj hc).2, Nat.add_zero]

theorem linked_step {e : Event} (h : Linked none t) (hs : t.step e = some t') : Linked none t' := by
  unfold step at hs
  split at hs
  · cases hs
  · rename_i hown
    cases e with
    | accept =>
      obtain rfl := Option.some.inj hs
      exact h.accept
    | makeRelay =>
      obtain rfl := Option.some.inj hs
      exact h.makeRelay
    | session k i a =>
      refine h.onSession_own (fun err ip he => ?_) hs
      obtain ⟨event, lw⟩ := i
      dsimp only at he
      subst he
      exact hown rfl
    | relay k e a =>
      refine h.onRelay_own (fun r err ip b he => ?_) hs
      subst he
      exact hown rfl
    | resolver e =>
      dsimp only at hs
      split at hs
      · cases hs
      · rename_i lwip hext
        obtain rfl := Option.some.inj hs
        refine h.resolver hext ?_
        cases e with
        | resolve => exact absurd rfl hown
        | _ => rfl
    | handler lw b a =>
      dsimp only [runHandler] at hs
      split at hs
      · cases hs
      · rename_i p hp
        have hmem := List.mem_of_getElem? hp
        split at hs
        · cases hs
        · rename_i k hx
          exact (h.begin hp hx).onSession_resolved ⟨p, hmem, hx, rfl, rfl⟩ hs
        · rename_i k r hx
          exact (h.begin hp hx).onRelay_resolved ⟨p, hmem, hx, rfl, rfl⟩ hs

theorem linked_run {es : List Event} (h : run step (new : Instance P config factory) es = some t) :
    Linked none t :=
  run_inv (Linked none) (fun _ _ _ hI hs => linked_step hI hs) linked_new h

/-! ## What the clients hear -/

/-- The server of the resolver is 1.2.3.4. -/
def demoTun : Dns.TunConfig := ⟨[ipv4Text [1, 2, 3, 4]], []⟩

def demoDns : DnsAnswers := ⟨true, true, .ERR_OK⟩

/-- A relay is asked for port 53 of the host "a", with the payload 7, and a session for port 80 of the
    same host. The server answers the one with 10.0.0.8 and the other with 10.0.0.9. -/
def demoPosted : List Event :=
  [.makeRelay, .accept, .relay 0 .start demoDns,
    .relay 0 (.arrive (demoDatagram ([3, 1, 0x61, 0, 53] ++ [7])) demoClient) demoDns,
    .relay 0 (.received ⟨true, true, true⟩) demoDns] ++
  (TcpRelaySession.demoOpening [TcpRelaySession.domainTarget]).map (.session 0 · demoDns) ++
  [.resolver (.datagram 2 (some (LwipRuntime.demoAnswer 2 [10, 0, 0, 9])) ⟨false, [1, 2, 3, 4]⟩ 53),
    .resolver (.datagram 1 (some (LwipRuntime.demoAnswer 1 [10, 0, 0, 8])) ⟨false, [1, 2, 3, 4]⟩ 53)]

/-- What the resolver sees of it. -/
def demoQueries : List LwipRuntime.Event :=
  [.resolve [0x61] demoDns, .resolve [0x61] demoDns,
    .datagram 2 (some (LwipRuntime.demoAnswer 2 [10, 0, 0, 9])) ⟨false, [1, 2, 3, 4]⟩ 53,
    .datagram 1 (some (LwipRuntime.demoAnswer 1 [10, 0, 0, 8])) ⟨false, [1, 2, 3, 4]⟩ 53]

theorem demoQueries_idFree : Along (LwipRuntime.step demoPlatform.ipaddrAton)
    (LwipRuntime.IdFree demoPlatform.ipaddrAton) (LwipRuntime.new demoTun) demoQueries := by
  refine ⟨fun _ _ _ _ => ⟨rfl, fun w hw => by cases hw⟩, fun s₁ h₁ => ?_⟩
  obtain rfl := Option.some.inj h₁
  refine ⟨fun _ _ _ _ => ⟨rfl, fun w hw => by cases hw⟩, fun s₂ h₂ => ?_⟩
  exact along_of_forall (by simp [LwipRuntime.IdFree]) s₂

theorem exists_onSession_resolved
    {g : History (TcpRelaySession.step P.tcp) (TcpRelaySession.start factory.makeSession)}
    (hk : t.sessions[k]? = some g) {port : Nat} (hres : g.state.resolving = some port) (err : ErrT)
    (ip : Option IpAddr) (lw : Lwip.Answers) (a : DnsAnswers) :
    ∃ g', g.extend ⟨.resolved err ip, lw⟩ = some g' ∧
      t.onSession k ⟨.resolved err ip, lw⟩ a = some { t with sessions := t.sessions.set k g' } := by
  obtain ⟨s, hs⟩ : ∃ s, TcpRelaySession.step P.tcp g.state ⟨.resolved err ip, lw⟩ = some s := by
    unfold TcpRelaySession.step
    dsimp only
    rw [hres]
    exact ⟨_, rfl⟩
  obtain ⟨g', hext, -⟩ := History.exists_extend hs
  refine ⟨g', hext, ?_⟩
  unfold onSession
  rw [hk]
  dsimp only
  rw [hext]
  dsimp only
  rw [(TcpRelaySession.resolved_requests rfl (History.extend_eq_some.mp hext).1).1, List.drop_length]

theorem exists_onRelay_resolved
    {g : History (UdpRelaySession.step P) (UdpRelaySession.new factory)}
    (hk : t.relays[k]? = some g) {r : Udp.Resolution} (hres : r ∈ g.state.resolving)
    (hne : r.payload ≠ []) (err : ErrT) (ip : Option IpAddr) (b : UdpAnswers) (a : DnsAnswers) :
    ∃ g', g.extend (.resolved r err ip b) = some g' ∧
      t.onRelay k (.resolved r err ip b) a = some { t with relays := t.relays.set k g' } := by
  obtain ⟨s, hs⟩ := UdpRelaySession.onResolved_some P
    { g.state with resolving := g.state.resolving.erase r } b hne err ip
  obtain ⟨g', hext, -⟩ := History.exists_extend (h := g) (e := .resolved r err ip b)
    ((if_pos hres).trans hs)
  refine ⟨g', hext, ?_⟩
  unfold onRelay
  rw [hk]
  dsimp only
  rw [hext]
  dsimp only
  rw [UdpRelaySession.resolved_drop (History.extend_eq_some.mp hext).1]

theorem exists_waiting_session (h : 0 < t.waits (.session k)) :
    ∃ g port, t.sessions[k]? = some g ∧ g.state.resolving = some port := by
  unfold waits at h
  cases hk : t.sessions[k]? with
  | none => simp [hk] at h
  | some g =>
    cases hres : g.state.resolving with
    | none => simp [hk, hres] at h
    | some port => exact ⟨g, port, rfl, hres⟩

theorem exists_waiting_relay {r : Udp.Resolution} (h : 0 < t.waits (.relay k r)) :
    ∃ g, t.relays[k]? = some g ∧ r ∈ g.state.resolving := by
  unfold waits at h
  cases hk : t.relays[k]? with
  | none => simp [hk] at h
  | some g =>
    simp only [hk, Option.map_some, Option.getD_some] at h
    exact ⟨g, rfl, List.count_pos_iff.mp h⟩

/-- The client is there to hear an answer: the session has not been destroyed, and the relay has not
    been stopped since it asked. -/
def Alive (t : Instance P config factory) : Caller → Prop
  | .session k => ∃ g, t.sessions[k]? = some g ∧ g.state.alive = true
  | .relay k r => ∃ g, t.relays[k]? = some g ∧ ¬ g.state.Stale r .ERR_OK

/-- The client was there when its handler ran with the answer. -/
def Heard (t : Instance P config factory) : Caller → ErrT → Option IpAddr → Prop
  | .session k, err, ip => ∃ g lw, t.sessions[k]? = some g ∧
      g.SawIn (fun s => s.alive = true) ⟨.resolved err ip, lw⟩
  | .relay k r, err, ip => ∃ g b, t.relays[k]? = some g ∧
      g.SawIn (fun s => ¬ s.Stale r .ERR_OK) (.resolved r err ip b)

/-- What the handler of a client's call leads to: the client hears the answer if it is there, what
    clients have heard stays so, and those that go on waiting are still there. -/
structure Hands (t : Instance P config factory) (x : Caller) (err : ErrT) (ip : Option IpAddr)
    (t' : Instance P config factory) : Prop where
  heard : t.Alive x → t'.Heard x err ip
  mono : ∀ y err ip, t.Heard y err ip → t'.Heard y err ip
  alive : ∀ y, t.Alive y → 0 < t'.waits y → t'.Alive y

theorem hands_session {err : ErrT} {ip : Option IpAddr} {lw : Lwip.Answers}
    {g g' : History (TcpRelaySession.step P.tcp) (TcpRelaySession.start factory.makeSession)}
    (hk : t.sessions[k]? = some g) (hext : g.extend ⟨.resolved err ip, lw⟩ = some g') :
    Hands t (.session k) err ip { t with sessions := t.sessions.set k g' } := by
  have hset : (t.sessions.set k g')[k]? = some g' :=
    List.getElem?_set_self (List.getElem?_eq_some_iff.mp hk).1
  have hdone := (TcpRelaySession.resolved_requests rfl (History.extend_eq_some.mp hext).1).2
  refine ⟨?_, ?_, ?_⟩
  · rintro ⟨g₁, hg₁, halive⟩
    obtain rfl := Option.some.inj (hk.symm.trans hg₁)
    exact ⟨g', lw, hset, History.sawIn_extend hext halive⟩
  · rintro (j | ⟨j, r⟩) err ip hy
    · obtain ⟨g₁, lw₁, hg₁, hsaw⟩ := hy
      rcases getElem?_set_of_some g' hk hg₁ with hg₁ | ⟨rfl, rfl, hg'⟩
      · exact ⟨g₁, lw₁, hg₁, hsaw⟩
      · exact ⟨g', lw₁, hg', hsaw.extend hext⟩
    · exact hy
  · rintro (j | ⟨j, r⟩) hy hwaits
    · obtain ⟨g₁, hg₁, halive⟩ := hy
      rcases getElem?_set_of_some g' hk hg₁ with hg₁ | ⟨rfl, rfl, hg'⟩
      · exact ⟨g₁, hg₁, halive⟩
      · -- the session waits no more
        simp [waits, hset, hdone] at hwaits
    · exact hy

theorem hands_relay {r : Udp.Resolution} {err : ErrT} {ip : Option IpAddr} {b : UdpAnswers}
    {g g' : History (UdpRelaySession.step P) (UdpRelaySession.new factory)}
    (hk : t.relays[k]? = some g) (hext : g.extend (.resolved r err ip b) = some g') :
    Hands t (.relay k r) err ip { t with relays := t.relays.set k g' } := by
  have hset : (t.relays.set k g')[k]? = some g' :=
    List.getElem?_set_self (List.getElem?_eq_some_iff.mp hk).1
  have hs := (History.extend_eq_some.mp hext).1
  refine ⟨?_, ?_, ?_⟩
  · rintro ⟨g₁, hg₁, hlive⟩
    obtain rfl := Option.some.inj (hk.symm.trans hg₁)
    exact ⟨g', b, hset, History.sawIn_extend hext hlive⟩
  · rintro (j | ⟨j, r'⟩) err ip hy
    · exact hy
    · obtain ⟨g₁, b₁, hg₁, hsaw⟩ := hy
      rcases getElem?_set_of_some g' hk hg₁ with hg₁ | ⟨rfl, rfl, hg'⟩
      · exact ⟨g₁, b₁, hg₁, hsaw⟩
      · exact ⟨g', b₁, hg', hsaw.extend hext⟩
  · rintro (j | ⟨j, r'⟩) hy -
    · exact hy
    · obtain ⟨g₁, hg₁, hlive⟩ := hy
      rcases getElem?_set_of_some g' hk hg₁ with hg₁ | ⟨rfl, rfl, hg'⟩
      · exact ⟨g₁, hg₁, hlive⟩
      · exact ⟨g', hg', (UdpRelaySession.resolved_stale hs).not.mpr hlive⟩

/-- The client of a handler in the queue waits for it. -/
theorem Linked.waits_pos (h : Linked none t) {p : Posting} (hp : p ∈ t.lwip.state.posted.drop t.ran)
    (hx : t.callers[p.call]? = some x) : 0 < t.waits x := by
  rw [← h.balance x]
  exact Nat.add_pos_left (Finset.card_pos.mpr ⟨_, mem_due.mpr ⟨hx, not_mem_delivered hp⟩⟩) _

theorem Linked.caller (h : Linked none t) {p : Posting} (hp : p ∈ t.lwip.state.posted) :
    ∃ x, t.callers[p.call]? = some x :=
  ⟨_, List.getElem?_eq_getElem (h.posted_lt hp)⟩

/-- No handler in the queue has an empty payload to send, on which lwIP aborts. -/
def NoneEmpty (t : Instance P config factory) : Prop :=
  ∀ p ∈ t.lwip.state.posted.drop t.ran, ∀ (k : Nat) (r : Udp.Resolution),
    t.callers[p.call]? = some (.relay k r) → r.payload ≠ []

/-- The next handler of the queue runs. -/
theorem Linked.handler (h : Linked none t) (hfull : t.NoneEmpty) {p : Posting}
    (hp : t.lwip.state.posted[t.ran]? = some p) (hx : t.callers[p.call]? = some x) (lw : Lwip.Answers)
    (b : UdpAnswers) (a : DnsAnswers) :
    ∃ t', t.step (.handler lw b a) = some t' ∧ t'.lwip = t.lwip ∧ t'.callers = t.callers ∧
      t'.ran = t.ran + 1 ∧ Hands t x p.err p.ip t' := by
  have hwaits := h.waits_pos (mem_drop_of_getElem? hp) hx
  have hstep : t.step (.handler lw b a) = t.runHandler lw b a := rfl
  rw [hstep, runHandler, hp]
  dsimp only
  rw [hx]
  cases x with
  | session k =>
    obtain ⟨g, port, hk, hres⟩ := exists_waiting_session hwaits
    obtain ⟨g', hext, hrun⟩ :=
      exists_onSession_resolved (t := { t with ran := t.ran + 1 }) hk hres p.err p.ip lw a
    have hhands := hands_session (t := t) hk hext
    exact ⟨_, hrun, rfl, rfl, rfl, hhands.heard, hhands.mono, hhands.alive⟩
  | relay k r =>
    obtain ⟨g, hk, hres⟩ := exists_waiting_relay hwaits
    obtain ⟨g', hext, hrun⟩ := exists_onRelay_resolved (t := { t with ran := t.ran + 1 }) hk hres
      (hfull p (mem_drop_of_getElem? hp) k r hx) p.err p.ip b a
    have hhands := hands_relay (t := t) hk hext
    exact ⟨_, hrun, rfl, rfl, rfl, hhands.heard, hhands.mono, hhands.alive⟩

theorem Linked.drain (h : Linked none t) (hfull : t.NoneEmpty)
    (as : List (Lwip.Answers × UdpAnswers × DnsAnswers))
    (has : t.ran + as.length = t.lwip.state.posted.length) :
    ∃ t', run step t (as.map fun (lw, b, a) => .handler lw b a) = some t' ∧
      (∀ y err ip, t.Heard y err ip → t'.Heard y err ip) ∧
      ∀ p ∈ t.lwip.state.posted.drop t.ran, ∀ x, t.callers[p.call]? = some x → t.Alive x →
        t'.Heard x p.err p.ip := by
  induction as generalizing t with
  | nil =>
    refine ⟨t, rfl, fun _ _ _ hy => hy, fun p hp => ?_⟩
    have hle : t.lwip.state.posted.length ≤ t.ran := has.ge
    rw [List.drop_eq_nil_iff.mpr hle] at hp
    cases hp
  | cons ans as ih =>
    obtain ⟨lw, b, a⟩ := ans
    rw [List.length_cons] at has
    have hlt : t.ran < t.lwip.state.posted.length := by omega
    have hp := List.getElem?_eq_getElem hlt
    obtain ⟨x, hx⟩ := h.caller (List.mem_of_getElem? hp)
    obtain ⟨t₁, hs, hlwip, hcallers, hran, hhands⟩ := h.handler hfull hp hx lw b a
    have hlinked := linked_step h hs
    have htail : ∀ p ∈ t₁.lwip.state.posted.drop t₁.ran, p ∈ t.lwip.state.posted.drop t.ran := by
      intro p hp
      rw [hlwip, hran] at hp
      rw [List.drop_eq_getElem_cons hlt]
      exact List.mem_cons_of_mem _ hp
    obtain ⟨t', hrun, hmono, hrest⟩ := ih hlinked
      (fun p hp k r hr => hfull p (htail p hp) k r (hcallers ▸ hr)) (by rw [hran, hlwip]; omega)
    refine ⟨t', run_cons.mpr ⟨t₁, hs, hrun⟩, fun y err ip hy => hmono _ _ _ (hhands.mono _ _ _ hy), ?_⟩
    intro p hp y hy halive
    rw [List.drop_eq_getElem_cons hlt] at hp
    rcases List.mem_cons.mp hp with rfl | hp
    · obtain rfl := Option.some.inj (hx.symm.trans hy)
      exact hmono _ _ _ (hhands.heard halive)
    · rw [← hlwip, ← hran] at hp
      rw [← hcallers] at hy
      exact hrest p hp y hy (hhands.alive y halive (hlinked.waits_pos hp hy))

/-- Whatever happened before, if no handler in the queue has an empty payload to send: the io_context
    can run the whole queue. Every handler in it is one that the client that made the call waits for,
    and the client hears the answer if it is still there. -/
theorem posted_answers_arrive {es : List Event} (h : run step (new : Instance P config factory) es = some t)
    (hfull : t.NoneEmpty)
    (as : List (Lwip.Answers × UdpAnswers × DnsAnswers))
    (has : t.ran + as.length = t.lwip.state.posted.length) :
    ∃ t', run step t (as.map fun (lw, b, a) => .handler lw b a) = some t' ∧
      ∀ p ∈ t.lwip.state.posted.drop t.ran, ∃ x, t.callers[p.call]? = some x ∧ 0 < t.waits x ∧
        (t.Alive x → t'.Heard x p.err p.ip) := by
  have hlinked := linked_run h
  obtain ⟨t', hrun, -, hheard⟩ := hlinked.drain hfull as has
  refine ⟨t', hrun, fun p hp => ?_⟩
  obtain ⟨x, hx⟩ := hlinked.caller (List.mem_of_mem_drop hp)
  exact ⟨x, hx, hlinked.waits_pos hp hx, hheard p hp x hx⟩

theorem posted_answers_arrive_demo :
    ∃ t t' : Instance demoPlatform demoTun demoFactory, run step new demoPosted = some t ∧
      t.lwip.state.posted.map (fun p => (p.call, p.err, p.ip)) =
        [(1, .ERR_OK, some ⟨false, [10, 0, 0, 9]⟩), (0, .ERR_OK, some ⟨false, [10, 0, 0, 8]⟩)] ∧
      t.callers[1]? = some (.session 0) ∧
      t'.Heard (.session 0) .ERR_OK (some ⟨false, [10, 0, 0, 9]⟩) := by
  obtain ⟨t, g, h, hran, hposted, hcallers, hk, halive⟩ :
      ∃ (t : Instance demoPlatform demoTun demoFactory) (g : _),
      run step new demoPosted = some t ∧ t.ran = 0 ∧
      t.lwip.state.posted = [⟨1, .ERR_OK, some ⟨false, [10, 0, 0, 9]⟩, 1⟩,
        ⟨0, .ERR_OK, some ⟨false, [10, 0, 0, 8]⟩, 0⟩] ∧
      t.callers = [.relay 0 ⟨some 0, [7], demoClient, ⟨.Domain, [0x61], 53⟩⟩, .session 0] ∧
      t.sessions[0]? = some g ∧ g.state.alive = true := ⟨_, _, rfl, rfl, rfl, rfl, rfl, rfl⟩
  have hcaller : t.callers[1]? = some (.session 0) := by
    rw [hcallers]
    rfl
  have hfull : t.NoneEmpty := by
    intro p _ k r hc
    have hmem := List.mem_of_getElem? hc
    rw [hcallers] at hmem
    simp only [List.mem_cons, List.not_mem_nil, or_false] at hmem
    rcases hmem with hmem | hmem
    · cases hmem
      exact List.cons_ne_nil _ _
    · cases hmem
  obtain ⟨t', -, hheard⟩ := posted_answers_arrive h hfull
    (List.replicate 2 (TcpRelaySession.willing, ⟨true, true, true⟩, demoDns)) (by rw [hran, hposted]; rfl)
  refine ⟨t, t', h, by rw [hposted]; rfl, hcaller, ?_⟩
  rw [hran, hposted] at hheard
  obtain ⟨x, hx, -, hy⟩ := hheard _ List.mem_cons_self
  obtain rfl := Option.some.inj (hcaller.symm.trans hx)
  exact hy ⟨g, hk, halive⟩

/-! ## Waiting -/

/-- A client waits for exactly as many answers as it has calls whose handlers have not run. While the
    ids drawn are free, each of these calls that has returned is pending in the resolver with its
    timeout armed, or its handler is in the queue, or `stop` has discarded it: but for a call that
    threw or was discarded, no client waits in vain. -/
theorem waits_for_open_calls {es : List Event} (h : run step (new : Instance P config factory) es = some t)
    (x : Caller) :
    (t.due x).card = t.waits x ∧
      (Along (LwipRuntime.step P.ipaddrAton) (LwipRuntime.IdFree P.ipaddrAton) (LwipRuntime.new config)
          t.lwip.events →
        ∀ c ∈ t.due x, c ∈ t.lwip.state.returned →
          t.lwip.state.Pending c ∨ (∃ p ∈ t.lwip.state.posted.drop t.ran, p.call = c) ∨
            c ∈ t.lwip.state.discarded) := by
  refine ⟨(linked_run h).balance x, fun hfree c hc hreturned => ?_⟩
  have htracked := LwipRuntime.tracked_run hfree t.lwip.reached
  obtain ⟨hpending, -⟩ | ⟨-, hposted, -⟩ | ⟨-, -, hdiscarded⟩ := htracked.accounted hreturned
  · exact Or.inl hpending
  · have hmem : c ∈ t.lwip.state.postedCalls := List.count_pos_iff.mp (hposted ▸ Nat.one_pos)
    obtain ⟨p, hp, rfl⟩ := List.mem_map.mp hmem
    rw [← List.take_append_drop t.ran t.lwip.state.posted] at hp
    refine Or.inr (Or.inl ⟨p, (List.mem_append.mp hp).resolve_left fun hran => ?_, rfl⟩)
    exact (mem_due.mp hc).2 (List.mem_map_of_mem hran)
  · exact Or.inr (Or.inr hdiscarded)

theorem waits_for_open_calls_demo :
    ∃ t : Instance demoPlatform demoTun demoFactory, run step new demoPosted = some t ∧
      t.waits (.session 0) = 1 ∧ (t.due (.session 0)).card = 1 ∧
      ∀ c ∈ t.due (.session 0), c ∈ t.lwip.state.returned →
        t.lwip.state.Pending c ∨ (∃ p ∈ t.lwip.state.posted.drop t.ran, p.call = c) ∨
          c ∈ t.lwip.state.discarded := by
  obtain ⟨t, h, hevents, hwaits⟩ : ∃ t : Instance demoPlatform demoTun demoFactory,
      run step new demoPosted = some t ∧ t.lwip.events = demoQueries ∧
      t.waits (.session 0) = 1 := ⟨_, rfl, rfl, rfl⟩
  obtain ⟨hcard, hopen⟩ := waits_for_open_calls h (.session 0)
  exact ⟨t, h, hwaits, hcard.trans hwaits, hopen (hevents ▸ demoQueries_idFree)⟩

end Ovpn2ss.Instance
