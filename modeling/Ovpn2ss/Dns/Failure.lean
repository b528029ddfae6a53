/-
  What `async_resolve` leaves behind when it throws.

  It throws when the address of the DNS server is no address, before anything is done, and when
  `make_dns_query` rejects the name. The second comes after `udp_new_pcb`, `udp_recv` and
  `dns_queries_.emplace`, and nothing takes these back: the entry stays without a timer and the pcb
  stays registered (`asyncResolve_throws_unchanged_iff`). The name is the client's, and what makes
  it bad is an empty label or one of more than 63 bytes.
-/
import Ovpn2ss.Dns.Accounting

namespace Ovpn2ss.Dns

open Ovpn2ss.Aead Ovpn2ss.Lib Ovpn2ss.Lwip

/-! ## The names that are rejected -/

/-- The labels of a name. What is behind a last dot is a label only if it is not empty. -/
def labels (host : Bytes) : List Bytes :=
  let parts := host.splitOn 0x2e
  if parts.getLast? = some [] then parts.dropLast else parts

/-- A label that `make_dns_query` rejects. -/
def BadLabel (label : Bytes) : Prop := label.length = 0 ∨ 63 < label.length

instance (label : Bytes) : Decidable (BadLabel label) :=
  inferInstanceAs (Decidable (_ ∨ _))

def BadName (host : Bytes) : Prop := ∃ label ∈ labels host, BadLabel label

instance (host : Bytes) : Decidable (BadName host) :=
  inferInstanceAs (Decidable (∃ label ∈ labels host, BadLabel label))

section Labels

variable {label host : Bytes} {fuel : Nat}

theorem labels_nil : labels [] = [] := rfl

theorem splitOn_single (hdot : 0x2e ∉ label) : label.splitOn 0x2e = [label] :=
  List.splitOnP_eq_singleton fun _ hb => beq_false_of_ne (ne_of_mem_of_not_mem hb hdot)

theorem splitOn_dot (hdot : 0x2e ∉ label) (host : Bytes) :
    (label ++ 0x2e :: host).splitOn 0x2e = label :: host.splitOn 0x2e :=
  List.splitOnP_append_cons_of_forall_mem
    (fun _ hb => beq_false_of_ne (ne_of_mem_of_not_mem hb hdot)) _ (beq_self_eq_true _) _

theorem labels_single (hdot : 0x2e ∉ label) (hne : label ≠ []) : labels label = [label] := by
  unfold labels
  simp [splitOn_single hdot, hne]

theorem labels_dot (hdot : 0x2e ∉ label) : labels (label ++ 0x2e :: host) = label :: labels host := by
  obtain ⟨part, parts, hrest⟩ := List.exists_cons_of_ne_nil (List.splitOnP_ne_nil (· == 0x2e) host)
  have hrest : host.splitOn 0x2e = part :: parts := hrest
  unfold labels
  simp only [splitOn_dot hdot, hrest, List.getLast?_cons_cons]
  split <;> simp

theorem takeWhile_label (hdot : 0x2e ∉ label) :
    (label ++ host).takeWhile (· ≠ 0x2e) = label ++ host.takeWhile (· ≠ 0x2e) :=
  List.takeWhile_append_of_pos fun _ hb => decide_eq_true (ne_of_mem_of_not_mem hb hdot)

/-- The last iteration, with no dot ahead. -/
theorem encodeLabels_single (hdot : 0x2e ∉ label) (hne : label ≠ []) :
    encodeLabels (fuel + 1) label =
      if BadLabel label then .error "invalid DNS label"
      else .ok (UInt8.ofNat label.length :: label) := by
  have htake : label.takeWhile (· ≠ 0x2e) = label := by
    have h := @takeWhile_label label [] hdot
    rwa [List.append_nil, List.takeWhile_nil, List.append_nil] at h
  simp only [encodeLabels, htake, List.drop_length]
  rw [if_neg (by simpa using hne)]
  rfl

theorem encodeLabels_dot (hdot : 0x2e ∉ label) :
    encodeLabels (fuel + 1) (label ++ 0x2e :: host) =
      if BadLabel label then .error "invalid DNS label"
      else (encodeLabels fuel host).map fun labels => UInt8.ofNat label.length :: label ++ labels := by
  have htake : (label ++ 0x2e :: host).takeWhile (· ≠ 0x2e) = label := by
    rw [takeWhile_label hdot]
    simp
  simp only [encodeLabels, htake, List.drop_left]
  rw [if_neg (by simp)]
  cases encodeLabels fuel host <;> rfl

/-- A name is empty, or a label, or a label with its dot in front of a name. -/
theorem label_induction {P : Bytes → Prop} (nil : P [])
    (single : ∀ label, 0x2e ∉ label → label ≠ [] → P label)
    (dot : ∀ label host, 0x2e ∉ label → P host → P (label ++ 0x2e :: host)) (host : Bytes) :
    P host := by
  by_cases hmem : 0x2e ∈ host
  · obtain ⟨label, rest, hhost, hdot⟩ := List.eq_append_cons_of_mem hmem
    have hlt : rest.length < host.length := by
      rw [hhost, List.length_append, List.length_cons]
      omega
    rw [hhost]
    exact dot label rest hdot (label_induction nil single dot rest)
  · by_cases hne : host = []
    · rw [hne]
      exact nil
    · exact single host hmem hne
termination_by host.length

/-- The loop writes each label behind its length, unless one of them is bad. -/
theorem encodeLabels_eq (hfuel : host.length ≤ fuel) :
    encodeLabels fuel host =
      if BadName host then .error "invalid DNS label"
      else .ok ((labels host).flatMap fun label => UInt8.ofNat label.length :: label) := by
  induction host using label_induction generalizing fuel with
  | nil => cases fuel <;> rfl
  | single label hdot hne =>
    obtain ⟨n, rfl⟩ := Nat.exists_eq_add_of_lt
      (Nat.lt_of_lt_of_le (List.length_pos_iff.mpr hne) hfuel)
    simp only [Nat.zero_add, encodeLabels_single hdot hne, BadName, labels_single hdot hne,
      List.mem_singleton, exists_eq_left, List.flatMap_cons, List.flatMap_nil, List.append_nil]
  | dot label host hdot ih =>
    rw [List.length_append, List.length_cons] at hfuel
    obtain ⟨n, rfl⟩ := Nat.exists_eq_add_of_lt (show 0 < fuel by omega)
    rw [Nat.zero_add, encodeLabels_dot hdot, @ih n (by omega), labels_dot hdot]
    by_cases hbad : BadLabel label
    · rw [if_pos hbad, if_pos ⟨label, by rw [labels_dot hdot]; exact List.mem_cons_self, hbad⟩]
    · rw [if_neg hbad]
      have hiff : BadName (label ++ 0x2e :: host) ↔ BadName host := by
        rw [BadName, labels_dot hdot, List.exists_mem_cons_iff, or_iff_right hbad, BadName]
      by_cases hrest : BadName host
      · rw [if_pos hrest, if_pos (hiff.mpr hrest)]
        rfl
      · rw [if_neg hrest, if_neg (hiff.not.mpr hrest)]
        rfl

/-- `make_dns_query` in one equation. -/
theorem makeDnsQuery_eq (id : Nat) (host : Bytes) (qtype : Nat) :
    makeDnsQuery id host qtype =
      if BadName host then .error "invalid DNS label"
      else .ok (be16 id ++ be16 0x0100 ++ be16 1 ++ be16 0 ++ be16 0 ++ be16 0 ++
        (labels host).flatMap (fun label => UInt8.ofNat label.length :: label) ++ [0] ++
        be16 qtype ++ be16 DnsClassIn) := by
  rw [makeDnsQuery, encodeLabels_eq (Nat.le_refl host.length)]
  by_cases hbad : BadName host
  · rw [if_pos hbad, if_pos hbad]
  · rw [if_neg hbad, if_neg hbad]

theorem makeDnsQuery_error_iff (id qtype : Nat) :
    (∃ e, makeDnsQuery id host qtype = .error e) ↔ BadName host := by
  rw [makeDnsQuery_eq]
  by_cases hbad : BadName host
  · rw [if_pos hbad]
    exact iff_of_true ⟨_, rfl⟩ hbad
  · rw [if_neg hbad]
    exact iff_of_false (fun ⟨_, h⟩ => (by cases h)) hbad

end Labels

/-! ## What stays behind -/

namespace LwipRuntime

variable {ipaddrAton : Bytes → Option IpAddr}

/-- The call gets as far as `make_dns_query`: the name is no address, there is a DNS server and
    there is a pcb. -/
def Encodes (ipaddrAton : Bytes → Option IpAddr) (s : LwipRuntime) (a : DnsAnswers) (host : Bytes) :
    Prop :=
  ipaddrAton host = none ∧ (∃ server, dnsServer ipaddrAton s.activeConfig = .ok (some server)) ∧
    a.udpNew = true

/-- A bad name makes it throw, and then the pcb is still there. -/
theorem asyncResolve_badName {s : LwipRuntime} {a : DnsAnswers} {host : Bytes} {server : IpAddr}
    (hreach : Reaches ipaddrAton s a host server) (hbad : BadName host) :
    ∃ e, s.asyncResolve ipaddrAton a host = (.error e, s.asked server) := by
  obtain ⟨e, hname⟩ :=
    (makeDnsQuery_error_iff (s.ownQuery server).id (s.ownQuery server).qtype).mpr hbad
  refine ⟨e, ?_⟩
  rw [asyncResolve_of_reaches hreach, sendDnsQuery, emplace_eq, hname]
  rfl

/-- An exception of `async_resolve` leaves the tables as they were, except for a bad name that
    would have been sent. -/
theorem asyncResolve_throws_unchanged_iff (s : LwipRuntime) (a : DnsAnswers) (host : Bytes) :
    (∀ e t, s.asyncResolve ipaddrAton a host = (.error e, t) →
        t.dnsQueries = s.dnsQueries ∧ t.udpPcbs = s.udpPcbs) ↔
      ¬ (Encodes ipaddrAton s a host ∧ BadName host) := by
  constructor
  · rintro hunchanged ⟨⟨hname, ⟨server, hserver⟩, hnew⟩, hbad⟩
    obtain ⟨e, hthrows⟩ := asyncResolve_badName ⟨hname, hserver, hnew⟩ hbad
    exact List.cons_ne_self _ _ (hunchanged e _ hthrows).2
  · intro hgood e t h
    have hends := resolves_asyncResolve ipaddrAton s a host
    rw [h] at hends
    cases hends with
    -- before `make_dns_query` there is nothing to leave behind
    | badServer => exact ⟨rfl, rfl⟩
    | @badName server _ hreach hname =>
      have hencodes : Encodes ipaddrAton s a host :=
        ⟨hreach.named, ⟨server, hreach.configured⟩, hreach.udpNew⟩
      exact absurd ⟨hencodes, (makeDnsQuery_error_iff _ _).mp ⟨e, hname⟩⟩ hgood

/-- The name of a single dot: the exception leaves an entry without a timeout, and its pcb. -/
theorem bad_name_leaks :
    ∃ t, (new demoConfig).asyncResolve demoAton ⟨true, true, .ERR_OK⟩ [0x2e] =
        (.error "invalid DNS label", t) ∧
      t.dnsQueries.lookup 1 = some ⟨0, 1, DnsTypeA⟩ ∧ t.waiting = [] ∧ t.udpPcbs = [0] ∧
      (new demoConfig).dnsQueries.lookup 1 = none ∧ (new demoConfig).udpPcbs = [] :=
  ⟨_, rfl, rfl, rfl, rfl, rfl, rfl⟩

end LwipRuntime

end Ovpn2ss.Dns
