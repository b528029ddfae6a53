/-
  A call of `async_resolve` is in one place at a time: its query waits in `dns_queries_`, or its
  handler was posted, or `stop` discarded it.

  `tracked` lists the calls in those three places. Ids may come back while a query is pending, and then
  a call can complete the query of another, or leave its own nowhere. What does not depend on the
  ids is that no call is listed twice, so no handler is posted twice: a query is taken out of
  `dns_queries_` when its handler is posted, and it is put there, if at all, by the call itself
  (`once_run`).
-/
import Ovpn2ss.Dns.Resolver

namespace Ovpn2ss.Dns.LwipRuntime

open Ovpn2ss.Lib Ovpn2ss.Lwip

variable {ipaddrAton : Bytes → Option IpAddr} {s s' : LwipRuntime}

/-! ## The three places -/

/-- The calls whose handlers were posted. -/
def postedCalls (s : LwipRuntime) : List Nat := s.posted.map (·.call)

def tracked (s : LwipRuntime) : List Nat := s.heldCalls ++ (s.postedCalls ++ s.discarded)

structure Once (s : LwipRuntime) : Prop where
  ids : ∀ id query, s.dnsQueries.lookup id = some query → query.id = id
  nodup : s.tracked.Nodup
  numbered : ∀ c ∈ s.tracked, c < s.calls

theorem mem_heldCalls {c : Nat} :
    c ∈ s.heldCalls ↔ ∃ id query, s.dnsQueries.lookup id = some query ∧ query.call = c := by
  unfold heldCalls
  rw [List.mem_map]
  constructor
  · rintro ⟨query, hmem, hc⟩
    obtain ⟨id, hid⟩ := Table.mem_values.mp hmem
    exact ⟨id, query, hid, hc⟩
  · rintro ⟨id, query, hid, hc⟩
    exact ⟨query, Table.mem_values.mpr ⟨id, hid⟩, hc⟩

theorem heldCalls_erase {id : Nat} {query : DnsQuery} (h : s.dnsQueries.lookup id = some query) :
    s.heldCalls.Perm (query.call :: { s with dnsQueries := s.dnsQueries.erase id }.heldCalls) :=
  (Table.values_erase h).map _

/-- A query whose id is found again elsewhere would be tracked twice. -/
theorem Once.call_inj (h : Once s) {id id' : Nat} {query query' : DnsQuery}
    (hq : s.dnsQueries.lookup id = some query) (hq' : s.dnsQueries.lookup id' = some query')
    (hc : query.call = query'.call) : id = id' := by
  by_contra hne
  have hnodup : (query.call :: { s with dnsQueries := s.dnsQueries.erase id }.heldCalls).Nodup :=
    (heldCalls_erase hq).nodup_iff.mp (List.nodup_append.mp h.nodup).1
  refine (List.nodup_cons.mp hnodup).1 (mem_heldCalls.mpr ⟨id', query', ?_, hc.symm⟩)
  rw [AList.lookup_erase_ne (Ne.symm hne)]
  exact hq'

theorem Once.disjoint (h : Once s) {c : Nat} (hheld : c ∈ s.heldCalls) :
    c ∉ s.postedCalls ∧ c ∉ s.discarded := by
  have hdisj := (List.nodup_append'.mp h.nodup).2.2 hheld
  exact ⟨fun hc => hdisj (List.mem_append_left _ hc), fun hc => hdisj (List.mem_append_right _ hc)⟩

/-- The number of the next call is that of no other. -/
theorem Once.new_call (h : Once s) : s.calls ∉ s.tracked :=
  fun hmem => Nat.lt_irrefl _ (h.numbered _ hmem)

/-! ## Moving a call -/

theorem perm_posted (c : Nat) (held posted discarded : List Nat) :
    (held ++ ((posted ++ [c]) ++ discarded)).Perm (c :: (held ++ (posted ++ discarded))) := by
  have hmid := @List.perm_middle _ c (held ++ posted) discarded
  simpa using hmid

theorem tracked_post (s : LwipRuntime) (c : Nat) (err : ErrT) (ip : Option IpAddr) :
    (s.post c err ip).tracked.Perm (c :: s.tracked) := by
  unfold post tracked postedCalls
  rw [List.map_append]
  exact perm_posted c _ _ _

/-- Completing a query moves its call from the table to the posted. -/
theorem tracked_completeDnsQuery (s : LwipRuntime) (id : Nat) (err : ErrT) (ip : Option IpAddr)
    (cause : Nat) : (s.completeDnsQuery id err ip cause).tracked.Perm s.tracked := by
  cases hq : s.dnsQueries.lookup id with
  | none => rw [completeDnsQuery_of_free hq]
  | some query =>
    rw [completeDnsQuery_of_held hq]
    unfold tracked postedCalls
    rw [List.map_append]
    exact (perm_posted _ _ _ _).trans ((heldCalls_erase hq).append_right _).symm

theorem tracked_stop (s : LwipRuntime) : s.stop.tracked.Perm s.tracked := by
  show (s.postedCalls ++ (s.discarded ++ s.heldCalls)).Perm _
  rw [← List.append_assoc]
  exact List.perm_append_comm

/-- Calls move between the places. -/
theorem Once.of_perm (h : Once s) (hp : s'.tracked.Perm s.tracked)
    (hq : ∀ id query, s'.dnsQueries.lookup id = some query → s.dnsQueries.lookup id = some query)
    (hcalls : s'.calls = s.calls) : Once s' where
  ids id query hl := h.ids id query (hq id query hl)
  nodup := hp.nodup_iff.mpr h.nodup
  numbered c hc := hcalls ▸ h.numbered c (hp.mem_iff.mp hc)

theorem tracked_frame (hqueries : s'.dnsQueries = s.dnsQueries) (hposted : s'.posted = s.posted)
    (hdiscarded : s'.discarded = s.discarded) : s'.tracked = s.tracked := by
  rw [tracked, tracked, heldCalls, heldCalls, postedCalls, postedCalls, hqueries, hposted, hdiscarded]

theorem Once.frame (h : Once s) (hqueries : s'.dnsQueries = s.dnsQueries)
    (hposted : s'.posted = s.posted) (hdiscarded : s'.discarded = s.discarded)
    (hcalls : s'.calls = s.calls) : Once s' :=
  h.of_perm (tracked_frame hqueries hposted hdiscarded ▸ List.Perm.refl _)
    (fun _ _ hl => hqueries ▸ hl) hcalls

/-- A call that is nowhere yet takes its place. -/
theorem Once.add (h : Once s) {c : Nat}
    (hids : ∀ id query, s'.dnsQueries.lookup id = some query → query.id = id)
    (hp : s'.tracked.Perm (c :: s.tracked)) (hnew : c ∉ s.tracked) (hc : c < s.calls)
    (hcalls : s'.calls = s.calls) : Once s' := by
  refine ⟨hids, hp.nodup_iff.mpr (List.nodup_cons.mpr ⟨hnew, h.nodup⟩), fun c' hc' => ?_⟩
  rw [hcalls]
  rcases List.mem_cons.mp (hp.mem_iff.mp hc') with rfl | hc'
  · exact hc
  · exact h.numbered c' hc'

theorem lookup_of_lookup_completeDnsQuery {id id' : Nat} {err : ErrT} {ip : Option IpAddr}
    {cause : Nat} {query : DnsQuery}
    (h : (s.completeDnsQuery id' err ip cause).dnsQueries.lookup id = some query) :
    s.dnsQueries.lookup id = some query := by
  cases hq : s.dnsQueries.lookup id' with
  | none => rwa [completeDnsQuery_of_free hq] at h
  | some query' =>
    rw [completeDnsQuery_of_held hq] at h
    exact (Table.lookup_of_lookup_erase h).2

theorem completeDnsQuery_calls (s : LwipRuntime) (id : Nat) (err : ErrT) (ip : Option IpAddr)
    (cause : Nat) : (s.completeDnsQuery id err ip cause).calls = s.calls := by
  unfold completeDnsQuery
  split <;> rfl

theorem Once.completeDnsQuery (h : Once s) (id : Nat) (err : ErrT) (ip : Option IpAddr) (cause : Nat) :
    Once (s.completeDnsQuery id err ip cause) :=
  h.of_perm (tracked_completeDnsQuery s id err ip cause)
    (fun _ _ hl => lookup_of_lookup_completeDnsQuery hl) (completeDnsQuery_calls s id err ip cause)

theorem Once.post (h : Once s) {c : Nat} (hnew : c ∉ s.tracked) (hc : c < s.calls) (err : ErrT)
    (ip : Option IpAddr) : Once (s.post c err ip) :=
  h.add h.ids (tracked_post s c err ip) hnew hc rfl

theorem tracked_insert {query : DnsQuery} (hfree : s.dnsQueries.lookup query.id = none) :
    tracked { s with dnsQueries := s.dnsQueries.insert query.id query } = query.call :: s.tracked := by
  unfold tracked heldCalls
  rw [Table.values_insert hfree]
  rfl

/-- A new call puts its query into the table, under an id that is no key of it. -/
theorem Once.insert (h : Once s) {query : DnsQuery} (hfree : s.dnsQueries.lookup query.id = none)
    (hnew : query.call ∉ s.tracked) (hc : query.call < s.calls) :
    Once { s with dnsQueries := s.dnsQueries.insert query.id query } := by
  refine h.add (fun id query' hl => ?_) (tracked_insert hfree ▸ List.Perm.refl _) hnew hc rfl
  rcases Table.lookup_of_lookup_insert hl with ⟨rfl, rfl⟩ | ⟨-, hl⟩
  · rfl
  · exact h.ids id query' hl

/-! ## `async_resolve` -/

theorem Once.begun (h : Once s) : Once s.begun where
  ids := h.ids
  nodup := h.nodup
  numbered c hc := Nat.lt_succ_of_lt (h.numbered c hc)

theorem Once.drawn (h : Once s) : Once s.drawn := h.begun.frame rfl rfl rfl rfl

theorem Once.asked (h : Once s) (server : IpAddr) : Once (s.asked server) := by
  have hpcb : Once { s.drawn with udpPcbs := s.calls :: s.udpPcbs } := h.drawn.frame rfl rfl rfl rfl
  unfold LwipRuntime.asked
  split
  · exact hpcb.frame rfl rfl rfl rfl
  · rename_i hfree
    have hnone : s.dnsQueries.lookup (s.ownQuery server).id = none := by simpa using hfree
    have hin := hpcb.insert hnone h.new_call (Nat.lt_succ_self s.calls)
    exact hin

theorem Once.resolves (h : Once s) {a : DnsAnswers} {host : Bytes} {r : Except String Unit}
    {t : LwipRuntime} (hr : Resolves ipaddrAton s a host r t) : Once t := by
  cases hr with
  | literal | noServer => exact h.begun.post h.new_call (Nat.lt_succ_self _) _ _
  | badServer => exact h.begun
  | noPcb => exact h.drawn.post h.new_call (Nat.lt_succ_self _) _ _
  | badName => exact h.asked _
  | noPbuf => exact (h.asked _).completeDnsQuery _ _ _ _
  | @refused server packet =>
    have hsent : Once (s.questioned server packet) := (h.asked server).frame rfl rfl rfl rfl
    exact hsent.completeDnsQuery _ _ _ _
  | sent =>
    rw [armTimeout_eq]
    exact (h.asked _).frame rfl rfl rfl rfl

/-! ## Runs -/

theorem Once.dnsRecv (h : Once s) {query : DnsQuery} {p : Option Bytes}
    (hs : s.dnsRecv query p = some s') : Once s' := by
  obtain rfl | ⟨-, -, -, -, -, rfl⟩ := dnsRecv_cases hs
  · exact h
  · exact h.completeDnsQuery _ _ _ _

theorem Once.stop (h : Once s) : Once s.stop :=
  h.of_perm (tracked_stop s) (fun _ _ hl => (by cases hl)) rfl

theorem once_step {e : Event} (h : Once s) (hs : step ipaddrAton s e = some s') : Once s' := by
  cases fires_of_step hs with
  | threw hr => exact h.resolves hr
  | returned hr => exact (h.resolves hr).frame rfl rfl rfl rfl
  | configure | othersDraw | expire => exact h.frame rfl rfl rfl rfl
  | datagram _ hrecv | dangling _ _ hrecv => exact h.dnsRecv hrecv
  | @timeout w hw =>
    have hgone : Once { s with expired := s.expired.erase w } := h.frame rfl rfl rfl rfl
    unfold onTimeout
    split
    · exact hgone.completeDnsQuery _ _ _ _
    · exact hgone
  | stop => exact h.stop

theorem once_new (config : TunConfig) : Once (new config) where
  ids _ _ hl := by cases hl
  nodup := List.nodup_nil
  numbered c hc := by cases hc

theorem once_run {config : TunConfig} {es : List Event}
    (h : run (step ipaddrAton) (new config) es = some s) : Once s :=
  run_inv Once (fun _ _ _ hI hs => once_step hI hs) (once_new config) h

/-! ## What was posted stays -/

theorem posted_completeDnsQuery (s : LwipRuntime) (id : Nat) (err : ErrT) (ip : Option IpAddr)
    (cause : Nat) : s.posted <+: (s.completeDnsQuery id err ip cause).posted := by
  unfold completeDnsQuery
  split
  · exact List.prefix_refl _
  · exact List.prefix_append _ _

theorem Resolves.posted {a : DnsAnswers} {host : Bytes} {r : Except String Unit} {t : LwipRuntime}
    (hr : Resolves ipaddrAton s a host r t) : s.posted <+: t.posted := by
  cases hr with
  | literal | noServer | noPcb => exact List.prefix_append _ _
  | badServer | badName => exact List.prefix_refl _
  | @noPbuf server => exact posted_completeDnsQuery (s.asked server) _ _ _ _
  | @refused server packet => exact posted_completeDnsQuery (s.questioned server packet) _ _ _ _
  | sent =>
    rw [armTimeout_eq]
    exact List.prefix_refl _

theorem posted_step {e : Event} (hs : step ipaddrAton s e = some s') : s.posted <+: s'.posted := by
  cases fires_of_step hs with
  | threw hr | returned hr => exact hr.posted
  | configure | othersDraw | expire | stop => exact List.prefix_refl _
  | datagram _ hrecv | dangling _ _ hrecv =>
    obtain rfl | ⟨-, -, -, -, -, rfl⟩ := dnsRecv_cases hrecv
    · exact List.prefix_refl _
    · exact posted_completeDnsQuery _ _ _ _ _
  | @timeout w hw =>
    unfold onTimeout
    split
    · exact posted_completeDnsQuery { s with expired := s.expired.erase w } _ _ _ _
    · exact List.prefix_refl _

end Ovpn2ss.Dns.LwipRuntime
