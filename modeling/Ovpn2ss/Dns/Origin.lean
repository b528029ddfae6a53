/-
  Where the results of the resolver come from.

  A call of `async_resolve` is known by its place among the calls, so the hosts of a run are the list
  that its number looks up. Whatever is posted for a call is then traced back to the run
  (`answers_genuine`): the address of a literal is the literal's, the address for a name was parsed
  from a datagram that the pcb of that call's own query received while the query was pending, and
  every other result is an error without an address. The exception is a datagram for a pcb that a
  collision of ids has left behind: its question was sent, its query is gone, and the answer goes to
  whatever query the freed memory names (`misled_by_collision`). While the ids drawn are free there
  is no such pcb (`not_dangled_of_idFree`).

  The second result goes the other way (`reply_reaches_caller`): while the ids drawn are free, the
  reply to a query reaches its call, whatever the other queries do in the meantime.
-/
import Ovpn2ss.Dns.Answers
import Ovpn2ss.Dns.Injection

namespace Ovpn2ss.Dns.LwipRuntime

open Ovpn2ss.Lib Ovpn2ss.Lwip

/-- The hosts that `async_resolve` was called with, in order. -/
def hosts (es : List Event) : List Bytes :=
  es.filterMap fun | .resolve host _ => some host | _ => none

section

variable (ipaddrAton : Bytes → Option IpAddr) (config : TunConfig)

/-- The query of the call was pending when its pcb received a datagram with the address. -/
def Told (es : List Event) (call : Nat) (ip : IpAddr) : Prop :=
  ∃ (es₁ es₂ : List Event) (id : Nat) (bytes : Bytes) (addr : IpAddr) (port : Nat) (s : LwipRuntime)
    (query : DnsQuery), es = es₁ ++ .datagram id (some bytes) addr port :: es₂ ∧
      run (step ipaddrAton) (new config) es₁ = some s ∧ s.dnsQueries.lookup id = some query ∧
      query.call = call ∧ parseDnsResponse bytes query.id query.qtype = some (some ip)

/-- A datagram went to a pcb whose query was gone. -/
def Dangled (es : List Event) : Prop := ∃ call id qtype p, .dangling call id qtype p ∈ es

/-- The call was for a name. -/
def Named (es : List Event) (call : Nat) : Prop :=
  ∃ host, (hosts es)[call]? = some host ∧ ipaddrAton host = none

/-- An address comes with `ERR_OK`, and is the literal's or was told. -/
structure Answered (es : List Event) (p : Posting) : Prop where
  ok_iff : p.err = .ERR_OK ↔ p.ip.isSome = true
  origin : (∃ host ip, (hosts es)[p.call]? = some host ∧ ipaddrAton host = some ip ∧ p.ip = some ip) ∨
    Named ipaddrAton es p.call ∧
      ∀ ip, p.ip = some ip → Told ipaddrAton config es p.call ip ∨ Dangled es

structure Genuine (es : List Event) (s : LwipRuntime) : Prop where
  calls : (hosts es).length = s.calls
  queries : ∀ id query, s.dnsQueries.lookup id = some query → Named ipaddrAton es query.call
  posted : ∀ p ∈ s.posted, Answered ipaddrAton config es p

end

variable {ipaddrAton : Bytes → Option IpAddr} {config : TunConfig} {es : List Event} {s s' : LwipRuntime}

theorem hosts_append (es fs : List Event) : hosts (es ++ fs) = hosts es ++ hosts fs :=
  List.filterMap_append

theorem hosts_mono {call : Nat} {host : Bytes} (h : (hosts es)[call]? = some host) (fs : List Event) :
    (hosts (es ++ fs))[call]? = some host := by
  obtain ⟨hlt, -⟩ := List.getElem?_eq_some_iff.mp h
  rw [hosts_append, List.getElem?_append_left hlt, h]

theorem Told.mono {call : Nat} {ip : IpAddr} (h : Told ipaddrAton config es call ip) (fs : List Event) :
    Told ipaddrAton config (es ++ fs) call ip := by
  obtain ⟨es₁, es₂, id, bytes, addr, port, t, query, rfl, hrest⟩ := h
  refine ⟨es₁, es₂ ++ fs, id, bytes, addr, port, t, query, ?_, hrest⟩
  rw [List.append_assoc, List.cons_append]

theorem Dangled.mono (h : Dangled es) (fs : List Event) : Dangled (es ++ fs) := by
  obtain ⟨call, id, qtype, p, hmem⟩ := h
  exact ⟨call, id, qtype, p, List.mem_append_left _ hmem⟩

theorem Named.mono {call : Nat} (h : Named ipaddrAton es call) (fs : List Event) :
    Named ipaddrAton (es ++ fs) call := by
  obtain ⟨host, hhost, hname⟩ := h
  exact ⟨host, hosts_mono hhost fs, hname⟩

theorem Answered.mono {p : Posting} (h : Answered ipaddrAton config es p) (fs : List Event) :
    Answered ipaddrAton config (es ++ fs) p := by
  refine ⟨h.ok_iff, ?_⟩
  obtain ⟨host, ip, hhost, hlit⟩ | ⟨hname, htold⟩ := h.origin
  · exact Or.inl ⟨host, ip, hosts_mono hhost fs, hlit⟩
  · exact Or.inr ⟨hname.mono fs, fun ip hip => (htold ip hip).imp (·.mono fs) (·.mono fs)⟩

/-- An event that makes the run longer by no call. -/
theorem Genuine.mono (h : Genuine ipaddrAton config es s) {fs : List Event} (hfs : hosts fs = []) :
    Genuine ipaddrAton config (es ++ fs) s where
  calls := by rw [hosts_append, hfs, List.append_nil, h.calls]
  queries id query hq := (h.queries id query hq).mono fs
  posted p hp := (h.posted p hp).mono fs

theorem Genuine.frame (h : Genuine ipaddrAton config es s) (hcalls : s'.calls = s.calls)
    (hqueries : s'.dnsQueries = s.dnsQueries) (hposted : s'.posted = s.posted) :
    Genuine ipaddrAton config es s' where
  calls := by rw [hcalls, h.calls]
  queries := hqueries ▸ h.queries
  posted := hposted ▸ h.posted

/-- A call begins. -/
theorem Genuine.begun (h : Genuine ipaddrAton config es s) (host : Bytes) (a : DnsAnswers) :
    Genuine ipaddrAton config (es ++ [.resolve host a]) s.begun where
  calls := by
    rw [hosts_append, List.length_append, h.calls]
    rfl
  queries id query hq := (h.queries id query hq).mono _
  posted p hp := (h.posted p hp).mono _

theorem Genuine.post (h : Genuine ipaddrAton config es s) {call : Nat} {err : ErrT}
    {ip : Option IpAddr} (hp : Answered ipaddrAton config es ⟨call, err, ip, call⟩) :
    Genuine ipaddrAton config es (s.post call err ip) where
  calls := h.calls
  queries := h.queries
  posted p hmem := by
    obtain hmem | hmem := List.mem_append.mp hmem
    · exact h.posted p hmem
    · obtain rfl := List.mem_singleton.mp hmem
      exact hp

theorem Genuine.completeDnsQuery (h : Genuine ipaddrAton config es s) {id : Nat} {err : ErrT}
    {ip : Option IpAddr} (cause : Nat) (hok : err = .ERR_OK ↔ ip.isSome = true)
    (htold : ∀ query, s.dnsQueries.lookup id = some query → ∀ addr, ip = some addr →
      Told ipaddrAton config es query.call addr ∨ Dangled es) :
    Genuine ipaddrAton config es (s.completeDnsQuery id err ip cause) := by
  refine ⟨(completeDnsQuery_calls ..).symm ▸ h.calls, ?_, ?_⟩
  · intro id' query hq
    exact h.queries id' query (lookup_of_lookup_completeDnsQuery hq)
  · intro p hp
    cases hq : s.dnsQueries.lookup id with
    | none =>
      rw [completeDnsQuery_of_free hq] at hp
      exact h.posted p hp
    | some query =>
      rw [completeDnsQuery_of_held hq] at hp
      obtain hp | hp := List.mem_append.mp hp
      · exact h.posted p hp
      · obtain rfl := List.mem_singleton.mp hp
        exact ⟨hok, Or.inr ⟨h.queries id query hq, htold query hq⟩⟩

/-- A query ends in failure. -/
theorem Genuine.fail (h : Genuine ipaddrAton config es s) (id : Nat) {err : ErrT} (cause : Nat)
    (herr : err ≠ .ERR_OK) : Genuine ipaddrAton config es (s.completeDnsQuery id err none cause) :=
  h.completeDnsQuery cause ⟨fun he => absurd he herr, fun hn => (by cases hn)⟩
    (fun _ _ _ hn => (by cases hn))

variable {id : Nat} {query : DnsQuery}

theorem lookup_of_lookup_asked {server : IpAddr} (h : (s.asked server).dnsQueries.lookup id = some query) :
    query = s.ownQuery server ∨ s.dnsQueries.lookup id = some query := by
  unfold asked at h
  dsimp only at h
  split at h
  · exact Or.inr h
  · exact (Table.lookup_of_lookup_insert h).imp And.right And.right

theorem Genuine.asked (h : Genuine ipaddrAton config es s) (a : DnsAnswers) {host : Bytes}
    (hname : Named ipaddrAton (es ++ [.resolve host a]) s.calls) (server : IpAddr) :
    Genuine ipaddrAton config (es ++ [.resolve host a]) (s.asked server) where
  calls := (h.begun host a).calls
  queries id query hq := by
    obtain rfl | hq := lookup_of_lookup_asked hq
    · exact hname
    · exact (h.begun host a).queries id query hq
  posted := (h.begun host a).posted

theorem Genuine.resolves (h : Genuine ipaddrAton config es s) {a : DnsAnswers} {host : Bytes}
    {r : Except String Unit} {t : LwipRuntime} (hr : Resolves ipaddrAton s a host r t) :
    Genuine ipaddrAton config (es ++ [.resolve host a]) t := by
  have hbegun := h.begun host a
  have hhost : (hosts (es ++ [.resolve host a]))[s.calls]? = some host := by
    rw [hosts_append, ← h.calls, List.getElem?_append_right (Nat.le_refl _), Nat.sub_self]
    rfl
  have hfailed {err : ErrT} (hname : ipaddrAton host = none) (herr : err ≠ .ERR_OK) :
      Answered ipaddrAton config (es ++ [.resolve host a]) ⟨s.calls, err, none, s.calls⟩ :=
    ⟨⟨fun he => absurd he herr, fun hn => (by cases hn)⟩,
      Or.inr ⟨⟨host, hhost, hname⟩, fun _ hn => (by cases hn)⟩⟩
  have hasked {server : IpAddr} (hreach : Reaches ipaddrAton s a host server) :
      Genuine ipaddrAton config (es ++ [.resolve host a]) (s.asked server) :=
    h.asked a ⟨host, hhost, hreach.named⟩ server
  cases hr with
  | @literal ip hlit =>
    exact hbegun.post ⟨⟨fun _ => rfl, fun _ => rfl⟩, Or.inl ⟨host, ip, hhost, hlit, rfl⟩⟩
  | badServer => exact hbegun
  | noServer hname => exact hbegun.post (hfailed hname (by decide))
  | noPcb hname =>
    have hdrawn : Genuine ipaddrAton config (es ++ [.resolve host a]) s.drawn := hbegun.frame rfl rfl rfl
    exact hdrawn.post (hfailed hname (by decide))
  | badName hreach => exact hasked hreach
  | noPbuf hreach => exact (hasked hreach).fail _ _ (by decide)
  | @refused server packet hreach herr =>
    have hsent : Genuine ipaddrAton config (es ++ [.resolve host a]) (s.questioned server packet) :=
      (hasked hreach).frame rfl rfl rfl
    exact hsent.fail _ _ herr
  | sent hreach =>
    rw [armTimeout_eq]
    exact (hasked hreach).frame rfl rfl rfl

/-- A datagram that completes the query under its id. -/
theorem Genuine.dnsRecv (h : Genuine ipaddrAton config es s) {p : Option Bytes}
    (hs : s.dnsRecv query p = some s')
    (htold : ∀ bytes ip, p = some bytes →
      parseDnsResponse bytes query.id query.qtype = some (some ip) →
        ∀ found, s.dnsQueries.lookup query.id = some found →
          Told ipaddrAton config es found.call ip ∨ Dangled es) :
    Genuine ipaddrAton config es s' := by
  obtain rfl | ⟨bytes, ip, hp, -, hip, rfl⟩ := dnsRecv_cases hs
  · exact h
  · refine h.completeDnsQuery _ (by cases ip <;> simp) fun found hfound addr haddr => ?_
    exact htold bytes addr hp (haddr ▸ hip) found hfound

theorem genuine_step {e : Event} (hrun : run (step ipaddrAton) (new config) es = some s)
    (h : Genuine ipaddrAton config es s) (hs : step ipaddrAton s e = some s') :
    Genuine ipaddrAton config (es ++ [e]) s' := by
  cases fires_of_step hs with
  | threw hr => exact h.resolves hr
  | returned hr => exact (h.resolves hr).frame rfl rfl rfl
  | configure | othersDraw | expire => exact (h.mono rfl).frame rfl rfl rfl
  | @datagram _ id p addr port query hq hrecv =>
    have hlonger : Genuine ipaddrAton config (es ++ [.datagram id p addr port]) s := h.mono rfl
    refine hlonger.dnsRecv hrecv fun bytes ip hp hip found hfound => Or.inl ?_
    -- the query under the id is the one the pcb is of
    rw [(once_run hrun).ids id query hq, hq] at hfound
    obtain rfl := Option.some.inj hfound
    exact ⟨es, [], id, bytes, addr, port, s, query, hp ▸ rfl, hrun, hq, rfl, hip⟩
  | @dangling _ call id qtype p _ _ hrecv =>
    have hlonger : Genuine ipaddrAton config (es ++ [.dangling call id qtype p]) s := h.mono rfl
    refine hlonger.dnsRecv hrecv fun bytes ip hp hip found hfound => Or.inr ?_
    exact ⟨call, id, qtype, p, List.mem_append_right _ List.mem_cons_self⟩
  | @timeout w hw =>
    have hgone : Genuine ipaddrAton config (es ++ [.timeout w]) { s with expired := s.expired.erase w } :=
      (h.mono rfl).frame rfl rfl rfl
    unfold onTimeout
    split
    · exact hgone.fail _ _ (by decide)
    · exact hgone
  | stop =>
    have hlonger : Genuine ipaddrAton config (es ++ [.stop]) s := h.mono rfl
    exact ⟨hlonger.calls, fun _ _ hq => (by cases hq), hlonger.posted⟩

theorem genuine_run (h : run (step ipaddrAton) (new config) es = some s) :
    Genuine ipaddrAton config es s := by
  have hnew : Genuine ipaddrAton config [] (new config) :=
    ⟨rfl, fun _ _ hq => (by cases hq), fun _ hp => (by cases hp)⟩
  exact run_history_inv (Genuine ipaddrAton config) hnew
    (fun es s e s' hrun hI hs => genuine_step hrun hI hs) h

/-- While the ids drawn are free, every pcb that is registered has its query. -/
theorem not_dangled_of_idFree (hfree : Along (step ipaddrAton) (IdFree ipaddrAton) (new config) es)
    (h : run (step ipaddrAton) (new config) es = some s) : ¬ Dangled es := by
  rintro ⟨call, id, qtype, p, hmem⟩
  obtain ⟨es₁, es₂, rfl⟩ := List.append_of_mem hmem
  obtain ⟨t, ht, hrest⟩ := run_append.mp h
  obtain ⟨u, hu, -⟩ := run_cons.mp hrest
  cases fires_of_step hu with
  | dangling hpcb hgone => exact hgone ((tracked_run hfree.of_append ht).not_dangling hpcb)

/-- Whatever is posted for a call, while the ids drawn are free: an address comes with `ERR_OK` and
    nothing else does. A literal is answered by its address; the address for a name was read from a
    datagram that the pcb of the call's own query got while the query was pending. -/
theorem answers_genuine (hfree : Along (step ipaddrAton) (IdFree ipaddrAton) (new config) es)
    (h : run (step ipaddrAton) (new config) es = some s) {p : Posting} (hp : p ∈ s.posted) :
    (p.err = .ERR_OK ↔ p.ip.isSome = true) ∧
      ∃ host, (hosts es)[p.call]? = some host ∧ ∀ ip, p.ip = some ip →
        ipaddrAton host = some ip ∨ ipaddrAton host = none ∧ Told ipaddrAton config es p.call ip := by
  obtain ⟨hok, ⟨host, ip, hhost, hlit, hip⟩ | ⟨⟨host, hhost, hname⟩, htold⟩⟩ := (genuine_run h).posted p hp
  · refine ⟨hok, host, hhost, fun ip' hip' => Or.inl ?_⟩
    rw [hlit, ← hip, hip']
  · refine ⟨hok, host, hhost, fun ip hip => Or.inr ⟨hname, ?_⟩⟩
    exact (htold ip hip).resolve_right (not_dangled_of_idFree hfree h)

/-- The first id is free. -/
theorem demo_idFree (host : Bytes) : IdFree demoAton (new demoConfig) (demoResolve host) :=
  fun _ _ _ _ => ⟨rfl, fun w hw => (by cases hw)⟩

/-- The name "a" and the literal "1", and the answer to the query for the name. -/
def demoEvents : List Event :=
  [demoResolve [0x61], demoResolve [0x31],
    .datagram 1 (some (demoAnswer 1 [1, 2, 3, 4])) ⟨false, [0, 0, 0, 1]⟩ 53]

/-- The address that the first call gets was told. -/
theorem answers_genuine_demo :
    ∃ s, run (step demoAton) (new demoConfig) demoEvents = some s ∧
      (⟨0, .ERR_OK, some ⟨false, [1, 2, 3, 4]⟩, 0⟩ : Posting) ∈ s.posted ∧
      Told demoAton demoConfig demoEvents 0 ⟨false, [1, 2, 3, 4]⟩ := by
  obtain ⟨s, hs, hp⟩ : ∃ s, run (step demoAton) (new demoConfig) demoEvents = some s ∧
      (⟨0, .ERR_OK, some ⟨false, [1, 2, 3, 4]⟩, 0⟩ : Posting) ∈ s.posted :=
    ⟨_, rfl, List.mem_cons_of_mem _ List.mem_cons_self⟩
  refine ⟨s, hs, hp, ?_⟩
  have hfree : Along (step demoAton) (IdFree demoAton) (new demoConfig) demoEvents := by
    refine ⟨demo_idFree _, fun t ht => ?_⟩
    obtain rfl := Option.some.inj ht
    refine ⟨fun server hname => (by cases hname), fun u _ => ?_⟩
    exact along_of_forall (by simp [IdFree]) u
  obtain ⟨-, host, hhost, horigin⟩ := answers_genuine hfree hs hp
  obtain rfl : [0x61] = host := Option.some.inj hhost
  obtain hlit | ⟨-, htold⟩ := horigin _ rfl
  · cases hlit
  · exact htold

/-- 65536 draws after the query for "a", the query for "b" gets its id and is lost, and its pcb
    stays. The answer for "b" then goes to the query whose id the freed memory still holds: the
    first call is told 6.6.6.6, which no datagram for its own pcb said. -/
theorem misled_by_collision :
    ∃ s, run (step demoAton) (new demoConfig) [demoResolve [0x61], .othersDraw 65535,
        demoResolve [0x62], .dangling 1 1 DnsTypeA (some (demoAnswer 1 [6, 6, 6, 6]))] = some s ∧
      s.posted = [⟨0, .ERR_OK, some ⟨false, [6, 6, 6, 6]⟩, 1⟩] ∧
      s.udpPcbs = [1] ∧ s.heldCalls = [] :=
  ⟨_, rfl, rfl, rfl, rfl⟩

/-! ## The reply to a query -/

/-- The event is none of those that end the query under `id`. -/
def Quiet (id : Nat) : Event → Prop
  | .datagram id' _ _ _ => id' ≠ id
  | .dangling _ id' _ _ => id' ≠ id
  | .timeout w => w.id ≠ id
  | .stop => False
  | _ => True

theorem lookup_completeDnsQuery_ne {id' : Nat} (hne : id ≠ id') (err : ErrT) (ip : Option IpAddr)
    (cause : Nat) :
    (s.completeDnsQuery id' err ip cause).dnsQueries.lookup id = s.dnsQueries.lookup id := by
  unfold completeDnsQuery
  split
  · rfl
  · exact AList.lookup_erase_ne hne

theorem lookup_asked_ne {server : IpAddr} (hne : id ≠ (s.ownQuery server).id) :
    (s.asked server).dnsQueries.lookup id = s.dnsQueries.lookup id := by
  unfold asked
  dsimp only
  split
  · rfl
  · exact AList.lookup_insert_ne hne

/-- Another call leaves the query alone if the id it draws is free. -/
theorem Resolves.lookup {a : DnsAnswers} {host : Bytes} {r : Except String Unit} {t : LwipRuntime}
    (hr : Resolves ipaddrAton s a host r t) (hq : s.dnsQueries.lookup id = some query)
    (hfree : IdFree ipaddrAton s (.resolve host a)) : t.dnsQueries.lookup id = some query := by
  have hne {server : IpAddr} (hreach : Reaches ipaddrAton s a host server) :
      id ≠ (s.ownQuery server).id := by
    rintro rfl
    have hnone := (hfree server hreach.named hreach.configured hreach.udpNew).1
    cases hnone.symm.trans hq
  have hasked {server : IpAddr} (hreach : Reaches ipaddrAton s a host server) :
      (s.asked server).dnsQueries.lookup id = some query := (lookup_asked_ne (hne hreach)).trans hq
  cases hr with
  | literal | badServer | noServer | noPcb => exact hq
  | badName hreach => exact hasked hreach
  | noPbuf hreach | refused hreach =>
    exact (lookup_completeDnsQuery_ne (hne hreach) _ _ _).trans (hasked hreach)
  | sent hreach =>
    rw [armTimeout_eq]
    exact hasked hreach

theorem dnsRecv_lookup_ne {other : DnsQuery} {p : Option Bytes} (hne : id ≠ other.id)
    (hs : s.dnsRecv other p = some s') : s'.dnsQueries.lookup id = s.dnsQueries.lookup id := by
  obtain rfl | ⟨-, -, -, -, -, rfl⟩ := dnsRecv_cases hs
  · rfl
  · exact lookup_completeDnsQuery_ne hne _ _ _

theorem pending_step {e : Event} (honce : Once s) (hq : s.dnsQueries.lookup id = some query)
    (hfree : IdFree ipaddrAton s e) (hquiet : Quiet id e) (hs : step ipaddrAton s e = some s') :
    s'.dnsQueries.lookup id = some query := by
  cases fires_of_step hs with
  | threw hr | returned hr => exact hr.lookup hq hfree
  | configure | othersDraw | expire => exact hq
  | @datagram _ id' p addr port other hother hrecv =>
    have hne : id ≠ other.id := (honce.ids id' other hother).symm ▸ Ne.symm hquiet
    exact (dnsRecv_lookup_ne hne hrecv).trans hq
  | dangling _ _ hrecv =>
    refine (dnsRecv_lookup_ne ?_ hrecv).trans hq
    exact Ne.symm hquiet
  | @timeout w hw =>
    unfold onTimeout
    split
    · exact (lookup_completeDnsQuery_ne (Ne.symm hquiet) _ _ _).trans hq
    · exact hq
  | stop => cases hquiet

/-- A call for a name whose question can be sent: the name is no address and can be encoded, there is
    a server, and lwIP has a pcb and a pbuf and takes the packet. -/
structure Asks (ipaddrAton : Bytes → Option IpAddr) (s : LwipRuntime) (a : DnsAnswers) (host : Bytes)
    (server : IpAddr) (packet : Bytes) : Prop where
  named : ipaddrAton host = none
  configured : dnsServer ipaddrAton s.activeConfig = .ok (some server)
  v4 : server.v6 = false
  encoded : makeDnsQuery (s.nextId % 65536) host DnsTypeA = .ok packet
  udpNew : a.udpNew = true
  pbufAlloc : a.pbufAlloc = true
  sendto : a.sendto = .ERR_OK

theorem Asks.sent {a : DnsAnswers} {host packet : Bytes} {server : IpAddr}
    (h : Asks ipaddrAton s a host server packet) (hfree : IdFree ipaddrAton s (.resolve host a))
    (hs : step ipaddrAton s (.resolve host a) = some s') :
    s'.sent = s.sent ++ [(packet.take (packet.length % 65536), server, DnsPort)] ∧
      s'.dnsQueries.lookup (s.nextId % 65536) = some ⟨s.calls, s.nextId % 65536, DnsTypeA⟩ := by
  have hnone := (hfree server h.named h.configured h.udpNew).1
  have hown : s.ownQuery server = ⟨s.calls, s.nextId % 65536, DnsTypeA⟩ := by
    rw [ownQuery, if_neg (by rw [h.v4]; decide)]
  have hcall : s.asyncResolve ipaddrAton a host =
      (.ok (), (s.questioned server packet).armTimeout (s.ownQuery server)) := by
    rw [asyncResolve_of_reaches ⟨h.named, h.configured, h.udpNew⟩, sendDnsQuery, emplace_eq, hown,
      h.encoded, h.pbufAlloc, h.sendto]
    simp only [Bool.not_true, Bool.false_eq_true, if_false, ne_eq, not_true_eq_false, ← hown]
    rfl
  simp only [step, hcall] at hs
  obtain rfl := Option.some.inj hs
  rw [armTimeout_eq]
  refine ⟨rfl, ?_⟩
  have hnone : s.dnsQueries.lookup (s.ownQuery server).id = none := hnone
  show (s.asked server).dnsQueries.lookup (s.ownQuery server).id = _
  rw [asked_of_free hnone, ← hown]
  exact AList.lookup_insert _

/-- A packet without a header gives no address. -/
theorem ne_nil_of_parse {bytes : Bytes} {id qtype : Nat} {ip : IpAddr}
    (h : parseDnsResponse bytes id qtype = some (some ip)) : bytes ≠ [] := by
  rintro rfl
  cases h

/-- The question for a name goes to the server, and the reply with its id brings the call the address
    of the first A record, whatever happens to other queries in between. -/
theorem reply_reaches_caller {es₀ : List Event} {a : DnsAnswers} {host packet : Bytes}
    {server : IpAddr} {s₁ s₂ : LwipRuntime} (h₀ : run (step ipaddrAton) (new config) es₀ = some s)
    (hasks : Asks ipaddrAton s a host server packet)
    (hfree : Along (step ipaddrAton) (IdFree ipaddrAton) s (.resolve host a :: es))
    (h₁ : step ipaddrAton s (.resolve host a) = some s₁)
    (hquiet : ∀ e ∈ es, Quiet (s.nextId % 65536) e) (h₂ : run (step ipaddrAton) s₁ es = some s₂)
    (m : Reply) (hid : m.id.toNat = s.nextId % 65536) {before after : List ResourceRecord}
    {r : ResourceRecord} (hsplit : m.answers = before ++ r :: after)
    (hbefore : ∀ x ∈ before, ¬ x.Matches DnsTypeA 4) (hr : r.Matches DnsTypeA 4)
    (trailing : Bytes) (addr : IpAddr) (port : Nat) :
    s₁.sent = s.sent ++ [(packet.take (packet.length % 65536), server, DnsPort)] ∧
      ∃ s₃, step ipaddrAton s₂
          (.datagram (s.nextId % 65536) (some (m.encode ++ trailing)) addr port) = some s₃ ∧
        s₃.posted = s₂.posted ++ [⟨s.calls, .ERR_OK, some ⟨false, r.rdata⟩, s.calls⟩] := by
  obtain ⟨hsent, hasked⟩ := hasks.sent hfree.1 h₁
  refine ⟨hsent, ?_⟩
  have hpending := run_guarded_inv (G := fun t e => IdFree ipaddrAton t e ∧ Quiet (s.nextId % 65536) e)
    (fun t => Once t ∧
      t.dnsQueries.lookup (s.nextId % 65536) = some ⟨s.calls, s.nextId % 65536, DnsTypeA⟩)
    (fun t e t' hI hG hs => ⟨once_step hI.1 hs, pending_step hI.1 hI.2 hG.1 hG.2 hs⟩)
    ⟨once_step (once_run h₀) h₁, hasked⟩ ((hfree.2 s₁ h₁).and_events hquiet) h₂
  have hparse := parse_first_a m trailing hsplit hbefore hr
  rw [hid] at hparse
  refine ⟨s₂.completeDnsQuery (s.nextId % 65536) .ERR_OK (some ⟨false, r.rdata⟩) s.calls, ?_, ?_⟩
  · have hrecv := dnsRecv_some s₂ ⟨s.calls, s.nextId % 65536, DnsTypeA⟩
      (ne_nil_of_parse hparse) hparse
    simp only [step, hpending.2, hrecv]
    rfl
  · simp only [completeDnsQuery, hpending.2]

/-- An A record for 1.2.3.4, its name a pointer to the question. -/
def demoRecord : ResourceRecord :=
  { aaaaRecord with type := 1, rdata := [1, 2, 3, 4], fits := by decide }

/-- A reply with the id 1 that has the A record behind an AAAA record. -/
def demoReply : Reply :=
  { aaaaReply with answers := [aaaaRecord, demoRecord], ancount_lt := by decide }

/-- Another query is asked, and fails on a datagram that is no answer. -/
def demoOthers : List Event := [demoResolve [0x62], .datagram 2 (some [0]) ⟨false, [6, 6, 6, 6]⟩ 9999]

theorem reply_reaches_caller_demo :
    ∃ s₁ s₂ s₃, step demoAton (new demoConfig) (demoResolve [0x61]) = some s₁ ∧
      run (step demoAton) s₁ demoOthers = some s₂ ∧
      step demoAton s₂ (.datagram 1 (some (demoReply.encode ++ [])) ⟨false, [0, 0, 0, 1]⟩ 53) =
        some s₃ ∧
      s₃.posted = s₂.posted ++ [⟨0, .ERR_OK, some ⟨false, [1, 2, 3, 4]⟩, 0⟩] := by
  obtain ⟨packet, hpacket⟩ : ∃ packet, makeDnsQuery 1 [0x61] DnsTypeA = .ok packet := ⟨_, rfl⟩
  have hasks : Asks demoAton (new demoConfig) ⟨true, true, .ERR_OK⟩ [0x61] ⟨false, [0, 0, 0, 1]⟩ packet :=
    ⟨rfl, rfl, rfl, hpacket, rfl, rfl, rfl⟩
  obtain ⟨s₁, s₂, h₁, h₂⟩ : ∃ s₁ s₂, step demoAton (new demoConfig) (demoResolve [0x61]) = some s₁ ∧
      run (step demoAton) s₁ demoOthers = some s₂ := ⟨_, _, rfl, rfl⟩
  have hfree : Along (step demoAton) (IdFree demoAton) (new demoConfig)
      (demoResolve [0x61] :: demoOthers) := by
    refine ⟨demo_idFree _, fun t ht => ?_⟩
    obtain rfl := Option.some.inj ht
    refine ⟨fun _ _ _ _ => ⟨rfl, fun w hw => (by cases hw)⟩, fun u hu => ?_⟩
    exact along_of_forall (by simp [IdFree]) u
  have hquiet : ∀ e ∈ demoOthers, Quiet ((new demoConfig).nextId % 65536) e := by
    intro e he
    simp only [demoOthers, List.mem_cons, List.not_mem_nil, or_false] at he
    obtain rfl | rfl := he
    · trivial
    · exact (by decide : (2 : Nat) ≠ 1)
  have h₀ : run (step demoAton) (new demoConfig) [] = some (new demoConfig) := rfl
  have hsplit : demoReply.answers = [aaaaRecord] ++ demoRecord :: [] := rfl
  obtain ⟨-, s₃, h₃, hposted⟩ := reply_reaches_caller h₀ hasks hfree h₁ hquiet h₂ demoReply rfl hsplit
    (by decide) (by decide) [] ⟨false, [0, 0, 0, 1]⟩ 53
  exact ⟨s₁, s₂, s₃, h₁, h₂, h₃, hposted⟩

end Ovpn2ss.Dns.LwipRuntime
