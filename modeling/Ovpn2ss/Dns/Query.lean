/-
  The packets `make_dns_query` makes, against the host they ask for.

  A dot at the end of a host adds nothing (`dropDot`); between the other dots are its labels. The
  QNAME is those labels, each behind its length, and a zero byte. It is a name in the sense of
  `Dns.Message`, so `skip_dns_name` walks over it, and the host can be read back from it up to the
  dot at the end.

  The QNAME has two octets more than the host without that dot. Nothing in `make_dns_query` counts
  them, and a domain of the Shadowsocks protocol has up to 255 bytes: those of 254 and 255 give
  names longer than the 255 octets the format allows (`qname_within_limit_iff`).
-/
import Ovpn2ss.AddressCodec
import Ovpn2ss.Dns.Failure
import Ovpn2ss.Dns.Message

namespace Ovpn2ss.Dns

open Ovpn2ss.Aead Ovpn2ss.Lwip Ovpn2ss.Lib

/-! ## Hosts and their labels -/

/-- A host without one dot at its end. -/
def dropDot (host : Bytes) : Bytes := if host.getLast? = some 0x2e then host.dropLast else host

/-- What is between the dots of a host; the empty host has no labels. -/
def hostLabels (host : Bytes) : List Bytes :=
  if dropDot host = [] then [] else (dropDot host).splitOn 0x2e

/-- Labels behind their lengths, and the root. -/
def qname (labels : List Bytes) : Bytes :=
  labels.flatMap (fun label => UInt8.ofNat label.length :: label) ++ [0]

theorem dropDot_single {label : Bytes} (hdot : 0x2e ∉ label) : dropDot label = label := by
  refine if_neg fun h => hdot ?_
  exact List.mem_of_getLast? h

theorem dropDot_dot {host : Bytes} (label : Bytes) (hne : host ≠ []) :
    dropDot (label ++ 0x2e :: host) = label ++ 0x2e :: dropDot host := by
  have hlast : (label ++ 0x2e :: host).getLast? = host.getLast? := by
    rw [List.getLast?_append, List.getLast?_cons_of_ne_nil hne,
      List.getLast?_eq_some_getLast hne, Option.some_or]
  have hdrop : (label ++ 0x2e :: host).dropLast = label ++ 0x2e :: host.dropLast := by
    rw [List.dropLast_append_cons, List.dropLast_cons_of_ne_nil hne]
  rw [dropDot, dropDot, hlast, hdrop]
  split <;> rfl

/-- The labels the loop meets are those between the dots of the host without its last dot. -/
theorem labels_eq_splitOn {host : Bytes} (hne : host ≠ []) :
    labels host = (dropDot host).splitOn 0x2e := by
  induction host using label_induction with
  | nil => exact absurd rfl hne
  | single label hdot hlabel =>
    rw [labels_single hdot hlabel, dropDot_single hdot, splitOn_single hdot]
  | dot label host hdot ih =>
    rw [labels_dot hdot]
    by_cases hhost : host = []
    · -- the dot is the last byte
      rw [hhost, labels_nil, dropDot, if_pos (by simp), List.dropLast_concat, splitOn_single hdot]
    · rw [ih hhost, dropDot_dot label hhost, splitOn_dot hdot]

theorem labels_length_le (host : Bytes) : (labels host).length ≤ host.length := by
  induction host using label_induction with
  | nil => exact Nat.le_refl 0
  | single label hdot hlabel =>
    rw [labels_single hdot hlabel]
    exact List.length_pos_iff.mpr hlabel
  | dot label host hdot ih =>
    rw [labels_dot hdot, List.length_cons, List.length_append, List.length_cons]
    omega

theorem intercalate_labels (host : Bytes) : [0x2e].intercalate (labels host) = dropDot host := by
  by_cases hne : host = []
  · rw [hne]
    rfl
  · rw [labels_eq_splitOn hne, List.intercalate_splitOn]

theorem dropDot_eq_nil_iff {host : Bytes} : dropDot host = [] ↔ host = [] ∨ host = [0x2e] := by
  constructor
  · intro h
    by_cases hlast : host.getLast? = some 0x2e
    · obtain ⟨init, rfl⟩ := List.getLast?_eq_some_iff.mp hlast
      rw [dropDot, if_pos hlast, List.dropLast_concat] at h
      rw [h]
      exact .inr rfl
    · rw [dropDot, if_neg hlast] at h
      exact .inl h
  · rintro (rfl | rfl) <;> rfl

/-- Only the single dot has a label more than the host has between its dots. -/
theorem labels_eq_hostLabels {host : Bytes} (hdot : host ≠ [0x2e]) : labels host = hostLabels host := by
  by_cases hne : host = []
  · rw [hne]
    rfl
  · have hdrop : dropDot host ≠ [] := fun h => (dropDot_eq_nil_iff.mp h).elim hne hdot
    rw [hostLabels, if_neg hdrop, labels_eq_splitOn hne]

theorem badName_iff (host : Bytes) :
    BadName host ↔ host = [0x2e] ∨
      dropDot host ≠ [] ∧ ∃ label ∈ (dropDot host).splitOn 0x2e, label = [] ∨ 63 < label.length := by
  by_cases hdot : host = [0x2e]
  · rw [hdot]
    exact iff_of_true ⟨[], by decide, .inl rfl⟩ (.inl rfl)
  · rw [or_iff_right hdot, BadName, labels_eq_hostLabels hdot, hostLabels]
    simp only [BadLabel, List.length_eq_zero_iff]
    split
    · rename_i hdrop
      simp [hdrop]
    · rename_i hdrop
      rw [and_iff_right hdrop]

/-! ## Names of hosts -/

theorem qname_cons (label : Bytes) (labels : List Bytes) :
    qname (label :: labels) = UInt8.ofNat label.length :: (label ++ qname labels) := by
  rw [qname, List.flatMap_cons, List.append_assoc]
  rfl

/-- Good labels are labels of the format. -/
theorem exists_labels {labels : List Bytes} (h : ∀ label ∈ labels, ¬ BadLabel label) :
    ∃ ls : List Label, ls.length = labels.length ∧
      ls.flatMap Label.encode ++ NameEnd.root.encode = qname labels := by
  induction labels with
  | nil => exact ⟨[], rfl, rfl⟩
  | cons label labels ih =>
    obtain ⟨hlabel, hlabels⟩ := List.forall_mem_cons.mp h
    obtain ⟨hne, hshort⟩ := not_or.mp hlabel
    obtain ⟨ls, hlen, henc⟩ := ih hlabels
    let l : Label := ⟨label, fun h0 => hne (by rw [h0]; rfl), Nat.le_of_not_lt hshort⟩
    refine ⟨l :: ls, by rw [List.length_cons, hlen, List.length_cons], ?_⟩
    rw [List.flatMap_cons, List.append_assoc, henc, qname_cons]
    rfl

/-- The QNAME of a host is a name of the format. -/
theorem exists_name {host : Bytes} (hlen : host.length ≤ 255) (hgood : ¬ BadName host) :
    ∃ n : Name, n.encode = qname (labels host) := by
  obtain ⟨ls, hcount, henc⟩ := exists_labels fun label hl hbad => hgood ⟨label, hl, hbad⟩
  have hshort : ls.length ≤ maxJumps := by
    rw [hcount]
    exact Nat.le_trans (labels_length_le host) hlen
  exact ⟨⟨ls, .root, hshort⟩, henc⟩

theorem ofNat_length_toNat {label : Bytes} (h : ¬ BadLabel label) :
    (UInt8.ofNat label.length).toNat = label.length := by
  have hshort : label.length < 64 := Nat.lt_succ_of_le (Nat.le_of_not_lt (not_or.mp h).2)
  exact UInt8.toNat_ofNat_of_lt' (Nat.lt_trans hshort (by decide))

/-- No QNAME is the beginning of another one. -/
theorem qname_inj {xs ys : List Bytes} {r s : Bytes} (hx : ∀ label ∈ xs, ¬ BadLabel label)
    (hy : ∀ label ∈ ys, ¬ BadLabel label) (h : qname xs ++ r = qname ys ++ s) : xs = ys := by
  -- a length byte is not the zero byte of the end
  have hzero : ∀ label : Bytes, ¬ BadLabel label → UInt8.ofNat label.length ≠ 0 := by
    intro label hgood h0
    have hnat := ofNat_length_toNat hgood
    rw [h0] at hnat
    exact hgood (.inl hnat.symm)
  induction xs generalizing ys with
  | nil =>
    cases ys with
    | nil => rfl
    | cons y ys =>
      rw [qname_cons] at h
      exact absurd (List.cons.inj h).1.symm (hzero y (hy y List.mem_cons_self))
  | cons x xs ih =>
    obtain ⟨hgx, hgxs⟩ := List.forall_mem_cons.mp hx
    cases ys with
    | nil =>
      rw [qname_cons] at h
      exact absurd (List.cons.inj h).1 (hzero x hgx)
    | cons y ys =>
      obtain ⟨hgy, hgys⟩ := List.forall_mem_cons.mp hy
      rw [qname_cons, qname_cons, List.cons_append, List.cons_append, List.append_assoc,
        List.append_assoc] at h
      obtain ⟨hhead, htail⟩ := List.cons.inj h
      have hlen : x.length = y.length := by
        rw [← ofNat_length_toNat hgx, ← ofNat_length_toNat hgy, hhead]
      obtain ⟨rfl, hrest⟩ := List.append_inj htail hlen
      rw [ih hgxs hgys hrest]

theorem qname_labels_length (host : Bytes) (hne : host ≠ []) :
    (qname (labels host)).length = (dropDot host).length + 2 := by
  induction host using label_induction with
  | nil => exact absurd rfl hne
  | single label hdot hlabel =>
    rw [labels_single hdot hlabel, dropDot_single hdot, qname_cons]
    simp [qname]
  | dot label host hdot ih =>
    rw [labels_dot hdot, qname_cons, List.length_cons, List.length_append]
    by_cases hhost : host = []
    · rw [hhost, labels_nil, dropDot, if_pos (by simp), List.dropLast_concat]
      rfl
    · rw [ih hhost, dropDot_dot label hhost, List.length_append, List.length_cons]
      omega

/-! ## The packet -/

def queryHeader (id : Nat) : Bytes :=
  be16 id ++ be16 0x0100 ++ be16 1 ++ be16 0 ++ be16 0 ++ be16 0

/-- What follows the QNAME. -/
def questionTail (qtype : Nat) : Bytes := be16 qtype ++ be16 DnsClassIn

theorem makeDnsQuery_ok_iff (id : Nat) (host : Bytes) (qtype : Nat) (packet : Bytes) :
    makeDnsQuery id host qtype = .ok packet ↔
      ¬ BadName host ∧ packet = queryHeader id ++ (qname (labels host) ++ questionTail qtype) := by
  have hpacket : be16 id ++ be16 0x0100 ++ be16 1 ++ be16 0 ++ be16 0 ++ be16 0 ++
        (labels host).flatMap (fun label => UInt8.ofNat label.length :: label) ++ [0] ++
        be16 qtype ++ be16 DnsClassIn =
      queryHeader id ++ (qname (labels host) ++ questionTail qtype) := by
    simp only [queryHeader, qname, questionTail, List.append_assoc]
  rw [makeDnsQuery_eq, hpacket]
  by_cases hbad : BadName host
  · rw [if_pos hbad]
    exact iff_of_false (fun h => (by cases h)) fun h => h.1 hbad
  · rw [if_neg hbad, and_iff_right hbad]
    exact ⟨fun h => (Except.ok.inj h).symm, fun h => congrArg _ h.symm⟩

theorem skipDnsName_query {id qtype : Nat} {host : Bytes} (hlen : host.length ≤ 255)
    (hgood : ¬ BadName host) :
    skipDnsName (queryHeader id ++ (qname (labels host) ++ questionTail qtype)) maxJumps 12 =
      some (some (12 + (qname (labels host)).length)) := by
  obtain ⟨n, hn⟩ := exists_name hlen hgood
  rw [← hn]
  exact skipDnsName_of_standsAt n ⟨queryHeader id, questionTail qtype, by simp, rfl⟩

/-- Which hosts `make_dns_query` takes, what it makes of them, and that it mixes up no two. -/
theorem makeDnsQuery_faithful (id : Nat) {host : Bytes} (qtype : Nat) (hlen : host.length ≤ 255) :
    ((∃ e, makeDnsQuery id host qtype = .error e) ↔ host = [0x2e] ∨
      dropDot host ≠ [] ∧ ∃ label ∈ (dropDot host).splitOn 0x2e, label = [] ∨ 63 < label.length) ∧
    ∀ packet, makeDnsQuery id host qtype = .ok packet →
      packet = queryHeader id ++ (qname (hostLabels host) ++ questionTail qtype) ∧
      (∃ stop, skipDnsName packet maxJumps 12 = some (some stop) ∧ stop + 4 = packet.length) ∧
      ∀ id' host' qtype', host'.length ≤ 255 → makeDnsQuery id' host' qtype' = .ok packet →
        dropDot host = dropDot host' := by
  refine ⟨(makeDnsQuery_error_iff id qtype).trans (badName_iff host), fun packet h => ?_⟩
  obtain ⟨hgood, rfl⟩ := (makeDnsQuery_ok_iff id host qtype packet).mp h
  have hdot : host ≠ [0x2e] := fun h0 => hgood ((badName_iff host).mpr (.inl h0))
  refine ⟨by rw [labels_eq_hostLabels hdot], ⟨_, skipDnsName_query hlen hgood, ?_⟩, ?_⟩
  · simp only [queryHeader, questionTail, List.length_append, be16_length]
    omega
  · intro id' host' qtype' hlen' h'
    obtain ⟨hgood', heq⟩ := (makeDnsQuery_ok_iff id' host' qtype' _).mp h'
    have hnames := (List.append_inj heq rfl).2
    rw [← intercalate_labels host, ← intercalate_labels host',
      qname_inj (fun label hl hbad => hgood ⟨label, hl, hbad⟩)
        (fun label hl hbad => hgood' ⟨label, hl, hbad⟩) hnames]

theorem makeDnsQuery_faithful_dots :
    ∃ packet, makeDnsQuery 7 [0x61, 0x2e, 0x62, 0x2e] DnsTypeA = .ok packet ∧
      packet = queryHeader 7 ++ (qname (hostLabels [0x61, 0x2e, 0x62, 0x2e]) ++
        questionTail DnsTypeA) := by
  have h : makeDnsQuery 7 [0x61, 0x2e, 0x62, 0x2e] DnsTypeA =
      .ok (queryHeader 7 ++ ([1, 0x61, 1, 0x62, 0] ++ questionTail DnsTypeA)) := rfl
  exact ⟨_, h, ((makeDnsQuery_faithful 7 DnsTypeA (by decide)).2 _ h).1⟩

/-! ## The limit of a name -/

/-- `parse_ss_address` returns `host` as a domain, for some bytes of a client. -/
def IsDomain (host : Bytes) : Prop :=
  ∃ bytes target rest, parseSsAddress bytes = some (target, rest) ∧ target.type = .Domain ∧
    target.host = host

/-- A domain is any string of at most 255 bytes. -/
theorem isDomain_iff (host : Bytes) : IsDomain host ↔ host.length ≤ 255 := by
  constructor
  · rintro ⟨bytes, target, rest, hparse, htype, rfl⟩
    obtain ⟨e, hspells, -⟩ := parseSsAddress_iff.mp hparse
    cases hspells with
    | ipv4 => cases htype
    | ipv6 => cases htype
    | domain n host port =>
      have hn := n.toNat_lt
      have hhost := host.property
      show host.val.length ≤ 255
      omega
  · intro hlen
    have hn : (UInt8.ofNat host.length).toNat = host.length :=
      UInt8.toNat_ofNat_of_lt' (Nat.lt_succ_of_le hlen)
    have hspells := Spells.domain (UInt8.ofNat host.length) ⟨host, hn.symm⟩ ⟨[0, 0], rfl⟩
    exact ⟨_, _, [], parseSsAddress_iff.mpr ⟨_, hspells, (List.append_nil _).symm⟩, rfl, rfl⟩

theorem qname_length_le_iff (host : Bytes) :
    (qname (labels host)).length ≤ 255 ↔ (dropDot host).length ≤ 253 := by
  by_cases hne : host = []
  · rw [hne]
    exact iff_of_true (by decide) (by decide)
  · rw [qname_labels_length host hne]
    omega

/-- A domain that is not rejected gets a QNAME of at most 255 octets exactly if it has at most 253
    bytes, not counting a dot at its end. -/
theorem qname_within_limit_iff (id : Nat) (host : Bytes) (qtype : Nat) :
    (IsDomain host ↔ host.length ≤ 255) ∧
      (((∃ e, makeDnsQuery id host qtype = .error e) ∨
          ∃ name, makeDnsQuery id host qtype =
            .ok (queryHeader id ++ (name ++ questionTail qtype)) ∧ name.length ≤ 255) ↔
        BadName host ∨ (dropDot host).length ≤ 253) := by
  refine ⟨isDomain_iff host, ?_⟩
  rw [makeDnsQuery_error_iff, ← qname_length_le_iff]
  by_cases hbad : BadName host
  · exact iff_of_true (.inl hbad) (.inl hbad)
  · rw [or_iff_right hbad, or_iff_right hbad]
    constructor
    · rintro ⟨name, hok, hlen⟩
      have heq := ((makeDnsQuery_ok_iff id host qtype _).mp hok).2
      rwa [List.append_cancel_right (List.append_cancel_left heq)] at hlen
    · intro hlen
      exact ⟨_, (makeDnsQuery_ok_iff id host qtype _).mpr ⟨hbad, rfl⟩, hlen⟩

/-- 254 bytes in four labels. -/
def longHost : Bytes :=
  List.replicate 63 0x61 ++ 0x2e :: (List.replicate 63 0x61 ++ 0x2e ::
    (List.replicate 63 0x61 ++ 0x2e :: List.replicate 62 0x61))

theorem labels_longHost :
    labels longHost = [List.replicate 63 0x61, List.replicate 63 0x61, List.replicate 63 0x61,
      List.replicate 62 0x61] := by
  have hdot (n : Nat) : (0x2e : UInt8) ∉ List.replicate n 0x61 := fun h =>
    absurd (List.eq_of_mem_replicate h) (by decide)
  rw [longHost, labels_dot (hdot 63), labels_dot (hdot 63), labels_dot (hdot 63),
    labels_single (hdot 62) (by simp)]

/-- The QNAME of this domain has 256 octets. -/
theorem longHost_qname :
    IsDomain longHost ∧ ∃ name, makeDnsQuery 1 longHost DnsTypeA =
      .ok (queryHeader 1 ++ (name ++ questionTail DnsTypeA)) ∧ name.length = 256 := by
  have hgood : ¬ BadName longHost := by
    rw [BadName, labels_longHost]
    simp [BadLabel]
  have hlen : longHost.length = 254 := by
    simp only [longHost, List.length_append, List.length_cons, List.length_replicate]
  refine ⟨(isDomain_iff _).mpr (by rw [hlen]; decide), _,
    (makeDnsQuery_ok_iff 1 longHost DnsTypeA _).mpr ⟨hgood, rfl⟩, ?_⟩
  rw [labels_longHost]
  simp only [qname_cons, List.length_cons, List.length_append, List.length_replicate]
  rfl

end Ovpn2ss.Dns
