/-
  Datagrams that have nothing to do with a query.

  `dns_recv` does not look at where a datagram comes from, and it completes its query whatever
  `parse_dns_response` says: a packet with another id is answered like a refusal of the server, with
  `ERR_VAL`. So the first datagram that reaches the pcb of a query ends it
  (`datagram_completes`), unless it is empty and ends the process. No unrelated datagram leaves a
  query undisturbed (`unrelated_datagram_disturbs`).
-/
import Ovpn2ss.Dns.Accounting

namespace Ovpn2ss.Dns.LwipRuntime

open Ovpn2ss.Lib Ovpn2ss.Lwip

variable {ipaddrAton : Bytes → Option IpAddr} {s s' : LwipRuntime} {query : DnsQuery}

/-! ## The first datagram ends the query -/

/-- The results the handler of `call` was posted with. -/
def resultsOf (s : LwipRuntime) (call : Nat) : List (ErrT × Option IpAddr) :=
  (s.posted.filter (·.call = call)).map fun p => (p.err, p.ip)

/-- Whatever a datagram holds and wherever it comes from, it ends the query; with an id that is not
    the query's, the handler is told `ERR_VAL`. -/
theorem datagram_completes (ipaddrAton : Bytes → Option IpAddr) (h : Once s) {id : Nat}
    (hq : s.dnsQueries.lookup id = some query) {bytes : Bytes} (hne : bytes ≠ []) (addr : IpAddr) (port : Nat) :
    ∃ s' err ip, step ipaddrAton s (.datagram id (some bytes) addr port) = some s' ∧
      s'.dnsQueries.lookup id = none ∧
      s'.resultsOf query.call = s.resultsOf query.call ++ [(err, ip)] ∧
      (readU16 bytes 0 ≠ some query.id → err = .ERR_VAL ∧ ip = none) := by
  obtain rfl := h.ids id query hq
  obtain ⟨ip, hip⟩ := parseDnsResponse_some bytes query.id query.qtype
  refine ⟨s.completeDnsQuery query.id (if ip.isSome then .ERR_OK else .ERR_VAL) ip query.call,
    if ip.isSome then .ERR_OK else .ERR_VAL, ip, ?_, lookup_completeDnsQuery .., ?_, ?_⟩
  · simp only [step, hq, dnsRecv_some s query hne hip]
  · simp only [completeDnsQuery, hq, resultsOf, List.filter_append, List.map_append]
    simp
  · intro hid
    have hnone : ip = none := Option.some.inj (hip.symm.trans (parseDnsResponse_otherId hid _))
    rw [hnone]
    exact ⟨rfl, rfl⟩

/-- An empty datagram aborts the process. -/
theorem datagram_aborts {id : Nat} (hq : s.dnsQueries.lookup id = some query) (addr : IpAddr)
    (port : Nat) : step ipaddrAton s (.datagram id (some []) addr port) = none := by
  simp only [step, hq]
  rfl

/-! ## Unrelated datagrams -/

/-- A datagram for the query under `id` that does not come from port 53 of the configured server, or
    does not have the query's id. -/
def Unrelated (ipaddrAton : Bytes → Option IpAddr) (s : LwipRuntime) (id : Nat) (query : DnsQuery) :
    Event → Prop
  | .datagram id' (some bytes) addr port => id' = id ∧
      (dnsServer ipaddrAton s.activeConfig ≠ .ok (some addr) ∨ port ≠ DnsPort ∨
        readU16 bytes 0 ≠ some query.id)
  | _ => False

/-- The event makes no difference to the query under `id`: it stays in `dns_queries_`, and
    whatever happens afterwards also happens without the event, with the same results for
    the handler. -/
def Undisturbed (ipaddrAton : Bytes → Option IpAddr) (s : LwipRuntime) (id : Nat) (query : DnsQuery)
    (e : Event) : Prop :=
  ∃ s', step ipaddrAton s e = some s' ∧ s'.dnsQueries.lookup id = some query ∧
    ∀ rest t, run (step ipaddrAton) s rest = some t →
      ∃ t', run (step ipaddrAton) s' rest = some t' ∧ t'.resultsOf query.call = t.resultsOf query.call

/-- In no run does an unrelated datagram leave a query undisturbed. -/
theorem unrelated_datagram_disturbs {config : TunConfig} {es : List Event} {id : Nat} {e : Event}
    (h : run (step ipaddrAton) (new config) es = some s)
    (hq : s.dnsQueries.lookup id = some query) (he : Unrelated ipaddrAton s id query e) :
    ¬ Undisturbed ipaddrAton s id query e := by
  rintro ⟨s', hs, hstays, -⟩
  match e, he with
  | .datagram _ (some bytes) addr port, ⟨rfl, _⟩ =>
    by_cases hne : bytes = []
    · rw [hne, datagram_aborts hq] at hs
      cases hs
    · obtain ⟨t, -, -, ht, hgone, -⟩ :=
        datagram_completes ipaddrAton (once_run h) hq hne addr port
      obtain rfl := Option.some.inj (hs.symm.trans ht)
      rw [hgone] at hstays
      cases hstays

/-- The answer `addr` under `id`. -/
def demoAnswer (id : UInt8) (addr : Bytes) : Bytes :=
  [0, id, 0x81, 0x80, 0, 0, 0, 1, 0, 0, 0, 0] ++ [0, 0, 1, 0, 1, 0, 0, 0, 0, 0, 4] ++ addr

/-- A datagram from 6.6.6.6 port 9999 for the first query. -/
def demoForged (id : UInt8) : Event :=
  .datagram 1 (some (demoAnswer id [6, 6, 6, 6])) ⟨false, [6, 6, 6, 6]⟩ 9999

theorem unrelated_datagram_disturbs_demo :
    ∃ s, run (step demoAton) (new demoConfig) [demoResolve [0x61]] = some s ∧
      s.dnsQueries.lookup 1 = some ⟨0, 1, DnsTypeA⟩ ∧
      Unrelated demoAton s 1 ⟨0, 1, DnsTypeA⟩ (demoForged 2) ∧
      ¬ Undisturbed demoAton s 1 ⟨0, 1, DnsTypeA⟩ (demoForged 2) := by
  obtain ⟨s, h, hq⟩ : ∃ s, run (step demoAton) (new demoConfig) [demoResolve [0x61]] = some s ∧
      s.dnsQueries.lookup 1 = some ⟨0, 1, DnsTypeA⟩ := ⟨_, rfl, rfl⟩
  have hun : Unrelated demoAton s 1 ⟨0, 1, DnsTypeA⟩ (demoForged 2) := ⟨rfl, .inr (.inl (by decide))⟩
  exact ⟨s, h, hq, hun, unrelated_datagram_disturbs h hq hun⟩

/-- A query for "a" to the server 0.0.0.1. Its answer 1.2.3.4 reaches the handler; after a datagram
    from elsewhere with another id the handler has `ERR_VAL` and the answer finds no pcb; and a
    datagram from elsewhere with the query's id is believed. -/
theorem forged_datagram_wins :
    (∃ s, run (step demoAton) (new demoConfig) [demoResolve [0x61],
        .datagram 1 (some (demoAnswer 1 [1, 2, 3, 4])) ⟨false, [0, 0, 0, 1]⟩ 53] = some s ∧
      s.resultsOf 0 = [(.ERR_OK, some ⟨false, [1, 2, 3, 4]⟩)]) ∧
    (∃ s, run (step demoAton) (new demoConfig) [demoResolve [0x61], demoForged 2] = some s ∧
      s.dnsQueries.lookup 1 = none ∧ s.udpPcbs = [] ∧ s.resultsOf 0 = [(.ERR_VAL, none)]) ∧
    ∃ s, run (step demoAton) (new demoConfig) [demoResolve [0x61], demoForged 1] = some s ∧
      s.resultsOf 0 = [(.ERR_OK, some ⟨false, [6, 6, 6, 6]⟩)] :=
  ⟨⟨_, rfl, rfl⟩, ⟨_, rfl, rfl, rfl, rfl⟩, _, rfl, rfl⟩

end Ovpn2ss.Dns.LwipRuntime
