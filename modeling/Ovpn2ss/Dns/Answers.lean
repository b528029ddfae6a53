/-
  Which record `parse_dns_response` takes its address from, and what it makes of it.

  A `Reply` is a message with QR set and RCODE 0. With question type A the parser returns the RDATA
  of the first answer that fits, over every reply and whatever follows it. `FirstMatch` says which
  record that is for a packet of any bytes, not only for replies: from the counts in the header
  and the pieces that stand in the packet. The bytes of an AAAA address are compared with the
  RDATA of that record.
-/
import Ovpn2ss.Dns.Message

namespace Ovpn2ss.Dns

open Ovpn2ss.Aead Ovpn2ss.Lwip Ovpn2ss.Lib

/-! ## Messages -/

structure Message where
  id : UInt16
  flags : UInt16
  questions : List Question
  answers : List ResourceRecord
  nscount : UInt16
  arcount : UInt16
  qdcount_lt : questions.length < 65536
  ancount_lt : answers.length < 65536

def Message.header (m : Message) : Bytes :=
  be16 m.id.toNat ++ (be16 m.flags.toNat ++ (be16 m.questions.length ++ (be16 m.answers.length ++
    (be16 m.nscount.toNat ++ be16 m.arcount.toNat))))

def Message.encode (m : Message) : Bytes :=
  m.header ++ (m.questions.flatMap Question.encode ++ m.answers.flatMap ResourceRecord.encode)

/-- A response that reports no error. -/
structure Reply extends Message where
  qr : flags.toNat &&& 0x8000 ≠ 0
  rcode : flags.toNat &&& 0x000f = 0

/-- A record of class IN with this type and this length of RDATA. -/
def ResourceRecord.Matches (qtype rdlen : Nat) (r : ResourceRecord) : Prop :=
  r.klass.toNat = DnsClassIn ∧ r.type.toNat = qtype ∧ r.rdata.length = rdlen

instance (qtype rdlen : Nat) (r : ResourceRecord) : Decidable (r.Matches qtype rdlen) :=
  inferInstanceAs (Decidable (_ ∧ _ ∧ _))

/-- A question type with addresses of one length asks for the records that match it. -/
theorem address_of_type {qtype rdlen : Nat} {f : Bytes → IpAddr}
    (h : ∀ rdata, addressOf qtype rdata = if rdata.length = rdlen then some (f rdata) else none)
    (r : ResourceRecord) :
    r.address qtype = if r.Matches qtype rdlen then some (f r.rdata) else none := by
  rw [ResourceRecord.address]
  split
  · rename_i hr
    rw [hr.2, h]
    exact if_congr ⟨fun hlen => ⟨hr.1, hr.2, hlen⟩, fun hm => hm.2.2⟩ rfl rfl
  · rename_i hr
    rw [if_neg fun hm => hr ⟨hm.1, hm.2.1⟩]

theorem address_a (r : ResourceRecord) :
    r.address DnsTypeA = if r.Matches DnsTypeA 4 then some ⟨false, r.rdata⟩ else none :=
  address_of_type (fun rdata => by simp [addressOf, DnsTypeA, DnsTypeAaaa]) r

theorem address_aaaa (r : ResourceRecord) :
    r.address DnsTypeAaaa =
      if r.Matches DnsTypeAaaa 16 then some ⟨true, storedWords r.rdata⟩ else none :=
  address_of_type (f := fun rdata => ⟨true, storedWords rdata⟩)
    (fun rdata => by simp [addressOf, DnsTypeA, DnsTypeAaaa]) r

/-- What the parser reads of the header of a reply, and where it goes from there. -/
theorem parseDnsResponse_reply (m : Reply) (trailing : Bytes) (qtype : Nat) :
    parseDnsResponse (m.encode ++ trailing) m.id.toNat qtype =
      findAnswer (m.encode ++ trailing) qtype m.answers.length
        (12 + (m.questions.flatMap Question.encode).length) := by
  have hall : StandsAt (m.encode ++ trailing) 0 m.encode := (standsAt_self _).append
  have hheader := hall.left
  have hlen : m.header.length = 12 := rfl
  have hid := readU16_of_standsAt m.id.toNat_lt hheader.left
  have hflags := readU16_of_standsAt m.flags.toNat_lt hheader.right.left
  have hqd := readU16_of_standsAt m.qdcount_lt hheader.right.right.left
  have han := readU16_of_standsAt m.ancount_lt hheader.right.right.right.left
  have hq := skipQuestions_of_standsAt m.questions hall.right.left
  have hroom := hheader.length_le
  rw [hlen] at hroom hq
  simp only [be16_length, Nat.zero_add] at hflags hqd han hq
  rw [parseDnsResponse, if_neg (by omega), hid]
  simp only [Option.bind_eq_bind, Option.bind_some]
  rw [if_neg (not_not.mpr rfl), hflags, Option.bind_some,
    if_neg (not_or.mpr ⟨m.qr, not_not.mpr m.rcode⟩), hqd, han, Option.bind_some, Option.bind_some, hq,
    Option.bind_some]

theorem answers_standsAt (m : Reply) (trailing : Bytes) :
    StandsAt (m.encode ++ trailing) (12 + (m.questions.flatMap Question.encode).length)
      (m.answers.flatMap ResourceRecord.encode) := by
  have hall : StandsAt (m.encode ++ trailing) 0 m.encode := (standsAt_self _).append
  have h := hall.right.right
  rwa [show 0 + m.header.length = 12 from rfl] at h

/-- The answer that a reply gives: the address of its first A record. -/
theorem parse_first_a (m : Reply) (trailing : Bytes) {before after : List ResourceRecord}
    {r : ResourceRecord} (hsplit : m.answers = before ++ r :: after)
    (hbefore : ∀ x ∈ before, ¬ x.Matches DnsTypeA 4) (hr : r.Matches DnsTypeA 4) :
    parseDnsResponse (m.encode ++ trailing) m.id.toNat DnsTypeA = some (some ⟨false, r.rdata⟩) := by
  have hanswers := answers_standsAt m trailing
  rw [hsplit, List.flatMap_append, List.flatMap_cons, ← List.append_assoc] at hanswers
  rw [parseDnsResponse_reply]
  refine findAnswer_first hanswers.left ?_ ?_ ?_
  · rw [hsplit, List.length_append, List.length_cons]
    omega
  · intro x hx
    rw [address_a, if_neg (hbefore x hx)]
  · rw [address_a, if_pos hr]

/-- With question type A the parser returns the RDATA of the first answer of class IN and type A
    with four bytes of RDATA, and nothing exactly if there is none. -/
theorem parse_reply_first_a (m : Reply) (trailing : Bytes) :
    (∀ before r after, m.answers = before ++ r :: after →
      (∀ x ∈ before, ¬ x.Matches DnsTypeA 4) → r.Matches DnsTypeA 4 →
        parseDnsResponse (m.encode ++ trailing) m.id.toNat DnsTypeA =
          some (some ⟨false, r.rdata⟩)) ∧
      (parseDnsResponse (m.encode ++ trailing) m.id.toNat DnsTypeA = some none ↔
        ∀ r ∈ m.answers, ¬ r.Matches DnsTypeA 4) := by
  refine ⟨fun before r after => parse_first_a m trailing, ?_, ?_⟩
  · intro hnone r hr hmatch
    -- the first match, which is `r` or stands before it, would have been returned
    cases hfind : m.answers.find? fun x => decide (x.Matches DnsTypeA 4) with
    | none => exact List.find?_eq_none.mp hfind r hr (decide_eq_true hmatch)
    | some x =>
      obtain ⟨hx, before, after, hsplit, hbefore⟩ := List.find?_eq_some_iff_append.mp hfind
      have hret := parse_first_a m trailing hsplit
        (fun y hy => by simpa using hbefore y hy) (of_decide_eq_true hx)
      rw [hnone] at hret
      cases hret
  · intro hnone
    rw [parseDnsResponse_reply, ← Nat.add_zero m.answers.length,
      findAnswer_of_standsAt m.answers 0 (answers_standsAt m trailing) fun r hr => by
        rw [address_a, if_neg (hnone r hr)]]
    rfl

/-! ## The bytes of an AAAA address -/

/-- `r` is the first answer of `packet` that matches: the packet has as many questions as its header
    says, and after them records without a match and then `r`, within its count of answers. -/
def FirstMatch (packet : Bytes) (qtype rdlen : Nat) (r : ResourceRecord) : Prop :=
  ∃ (questions : List Question) (before : List ResourceRecord) (ancount : Nat),
    readU16 packet 4 = some questions.length ∧ readU16 packet 6 = some ancount ∧
    before.length < ancount ∧
    StandsAt packet 12 (questions.flatMap Question.encode ++
      (before.flatMap ResourceRecord.encode ++ r.encode)) ∧
    (∀ x ∈ before, ¬ x.Matches qtype rdlen) ∧ r.Matches qtype rdlen

/-- What a packet went through if an address was found in it. -/
theorem parseDnsResponse_inv {packet : Bytes} {id qtype : Nat} {ip : IpAddr}
    (h : parseDnsResponse packet id qtype = some (some ip)) :
    ∃ qdcount ancount offset, 12 ≤ packet.length ∧ readU16 packet 4 = some qdcount ∧
      readU16 packet 6 = some ancount ∧ skipQuestions packet qdcount 12 = some (some offset) ∧
      findAnswer packet qtype ancount offset = some (some ip) := by
  unfold parseDnsResponse at h
  split at h
  · cases h
  · rename_i hlen
    obtain ⟨rid, -, h⟩ := Option.bind_eq_some_iff.mp h
    split at h
    · cases h
    · obtain ⟨flags, -, h⟩ := Option.bind_eq_some_iff.mp h
      split at h
      · cases h
      · obtain ⟨qdcount, hqd, h⟩ := Option.bind_eq_some_iff.mp h
        obtain ⟨ancount, han, h⟩ := Option.bind_eq_some_iff.mp h
        obtain ⟨offset, hskip, h⟩ := Option.bind_eq_some_iff.mp h
        cases offset with
        | none => cases h
        | some offset => exact ⟨qdcount, ancount, offset, Nat.le_of_not_lt hlen, hqd, han, hskip, h⟩

/-- An AAAA address is the RDATA of the first AAAA record, word by word as the host stores it. -/
theorem parse_aaaa_firstMatch {packet : Bytes} {id : Nat} {ip : IpAddr}
    (h : parseDnsResponse packet id DnsTypeAaaa = some (some ip)) :
    (∃ r, FirstMatch packet DnsTypeAaaa 16 r) ∧
      ∀ r, FirstMatch packet DnsTypeAaaa 16 r → ip = ⟨true, storedWords r.rdata⟩ := by
  obtain ⟨qdcount, ancount, offset, hlen, hqd, han, hskip, hfind⟩ := parseDnsResponse_inv h
  constructor
  · obtain ⟨questions, rfl, hq, rfl⟩ := skipQuestions_inv hlen hskip
    obtain ⟨before, r, hcount, hat, hnone, hip⟩ := findAnswer_inv hfind
    refine ⟨r, questions, before, ancount, hqd, han, hcount, standsAt_append.mpr ⟨hq, hat⟩, ?_, ?_⟩
    · intro x hx hm
      have hx' := hnone x hx
      rw [address_aaaa, if_pos hm] at hx'
      cases hx'
    · by_contra hm
      rw [address_aaaa, if_neg hm] at hip
      cases hip
  · rintro r ⟨questions, before, ancount', hqd', han', hcount, hat, hnone, hr⟩
    rw [hqd] at hqd'
    rw [han] at han'
    cases hqd'
    cases han'
    rw [skipQuestions_of_standsAt questions hat.left] at hskip
    cases hskip
    have hfirst : findAnswer packet DnsTypeAaaa ancount _ =
        some (some ⟨true, storedWords r.rdata⟩) :=
      findAnswer_first hat.right hcount (fun x hx => by rw [address_aaaa, if_neg (hnone x hx)])
        (by rw [address_aaaa, if_pos hr])
    rw [hfind] at hfirst
    cases hfirst
    rfl

/-- Each word of four bytes reads the same from both ends. -/
def SameReversed (bytes : Bytes) : Prop :=
  ∀ w, bytes[4 * w]? = bytes[4 * w + 3]? ∧ bytes[4 * w + 1]? = bytes[4 * w + 2]?

theorem sameReversed_cons (b0 b1 b2 b3 : UInt8) (rest : Bytes) :
    SameReversed (b0 :: b1 :: b2 :: b3 :: rest) ↔ b0 = b3 ∧ b1 = b2 ∧ SameReversed rest := by
  constructor
  · intro h
    obtain ⟨h03, h12⟩ := h 0
    refine ⟨Option.some.inj h03, Option.some.inj h12, fun w => ?_⟩
    exact h (w + 1)
  · rintro ⟨rfl, rfl, h⟩ w
    cases w with
    | zero => exact ⟨rfl, rfl⟩
    | succ w => exact h w

theorem storedWords_eq_self_iff {n : Nat} {bytes : Bytes} (h : bytes.length = 4 * n) :
    storedWords bytes = bytes ↔ SameReversed bytes := by
  induction n generalizing bytes with
  | zero =>
    rw [List.length_eq_zero_iff.mp h]
    exact iff_of_true rfl fun w => ⟨rfl, rfl⟩
  | succ n ih =>
    obtain ⟨b0, b1, b2, b3, rest, rfl, hrest⟩ := exists_word (n := 4 * n) h
    rw [sameReversed_cons, storedWords, List.cons.injEq, List.cons.injEq, List.cons.injEq,
      List.cons.injEq, ih hrest]
    constructor
    · rintro ⟨h03, h12, -, -, hr⟩
      exact ⟨h03.symm, h12.symm, hr⟩
    · rintro ⟨rfl, rfl, hr⟩
      exact ⟨rfl, rfl, rfl, rfl, hr⟩

/-- The address has the bytes of the RDATA it was read from exactly if each word of the RDATA reads
    the same from both ends. -/
theorem aaaa_bytes_eq_rdata_iff {packet : Bytes} {id : Nat} {ip : IpAddr}
    (h : parseDnsResponse packet id DnsTypeAaaa = some (some ip)) :
    (∃ r, FirstMatch packet DnsTypeAaaa 16 r) ∧
      ∀ r, FirstMatch packet DnsTypeAaaa 16 r → (ip.bytes = r.rdata ↔ SameReversed r.rdata) := by
  obtain ⟨hex, heq⟩ := parse_aaaa_firstMatch h
  refine ⟨hex, fun r hr => ?_⟩
  have hlen : r.rdata.length = 4 * 4 := by
    obtain ⟨_, _, _, _, _, _, _, _, hm⟩ := hr
    exact hm.2.2
  rw [heq r hr]
  exact storedWords_eq_self_iff hlen

/-- An AAAA record for 2001:db8::1, its name a pointer to the question. -/
def aaaaRecord : ResourceRecord where
  name := ⟨[], .pointer 0xc0 0x0c (by decide), Nat.zero_le _⟩
  type := 28
  klass := 1
  ttl := ⟨[0, 0, 0, 60], rfl⟩
  rdata := [0x20, 0x01, 0x0d, 0xb8, 0, 0, 0, 0, 0, 0, 0, 0, 0, 0, 0, 1]
  fits := by decide

def aaaaReply : Reply where
  id := 1
  flags := 0x8180
  questions := []
  answers := [aaaaRecord]
  nscount := 0
  arcount := 0
  qdcount_lt := by decide
  ancount_lt := by decide
  qr := by decide
  rcode := by decide

theorem aaaa_bytes_eq_rdata_iff_reply :
    ∃ ip, parseDnsResponse aaaaReply.encode 1 DnsTypeAaaa = some (some ip) ∧
      (∃ r, FirstMatch aaaaReply.encode DnsTypeAaaa 16 r) ∧
      ∀ r, FirstMatch aaaaReply.encode DnsTypeAaaa 16 r →
        (ip.bytes = r.rdata ↔ SameReversed r.rdata) := by
  have h : parseDnsResponse aaaaReply.encode 1 DnsTypeAaaa =
      some (some ⟨true, storedWords aaaaRecord.rdata⟩) := rfl
  exact ⟨_, h, aaaa_bytes_eq_rdata_iff h⟩

/-- 2001:db8::1 comes out as b80d:120::100:0. -/
theorem aaaa_bytes_reversed :
    parseDnsResponse aaaaReply.encode 1 DnsTypeAaaa =
        some (some ⟨true, [0xb8, 0x0d, 0x01, 0x20, 0, 0, 0, 0, 0, 0, 0, 0, 1, 0, 0, 0]⟩) ∧
      FirstMatch aaaaReply.encode DnsTypeAaaa 16 aaaaRecord ∧
      aaaaRecord.rdata ≠ [0xb8, 0x0d, 0x01, 0x20, 0, 0, 0, 0, 0, 0, 0, 0, 1, 0, 0, 0] := by
  refine ⟨rfl, ⟨[], [], 1, rfl, rfl, by decide, ?_, fun x hx => (by cases hx), by decide⟩, by decide⟩
  exact ⟨aaaaReply.header, [], rfl, rfl⟩

end Ovpn2ss.Dns
