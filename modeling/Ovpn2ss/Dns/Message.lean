/-
  The wire format of a DNS message, and `parse_dns_response` against it.

  `Name`, `Question` and `ResourceRecord` are the pieces of a message with the bounds the format
  puts on them, `encode` their bytes. A name is a list of labels with a zero byte or a compression
  pointer after it. The format allows 127 labels; the names here may have as many as the parser
  takes, `maxJumps`.

  The walk of the parser is tied to the format in both directions. Over the bytes of a piece it
  ends at the byte after it (`skipDnsName_of_standsAt`, `skipQuestions_of_standsAt`,
  `findAnswer_of_standsAt`); and wherever it ends well there was such a piece
  (`skipDnsName_inv`, `skipQuestions_inv`, `findAnswer_inv`). So the record whose address is
  returned is the first one of its section that fits the question, in every packet.

  The address of an A record is its RDATA. For an AAAA record `read_u32` turns each four bytes
  into a number of the host and `IP_ADDR6` stores that number: on a little-endian host the bytes
  of each word come out reversed (`addressOf`).
-/
import Ovpn2ss.Lib.Slice
import Ovpn2ss.Dns.Wire

namespace Ovpn2ss.Dns

open Ovpn2ss.Aead Ovpn2ss.Lwip Ovpn2ss.Lib

/-! ## Names -/

structure Label where
  bytes : Bytes
  nonempty : bytes ≠ []
  short : bytes.length ≤ 63

def Label.encode (l : Label) : Bytes := UInt8.ofNat l.bytes.length :: l.bytes

/-- What ends a name. Of a pointer the parser only looks at the two bits that mark it. -/
inductive NameEnd where
  | root
  | pointer (hi lo : UInt8) (mark : hi &&& 0xc0 = 0xc0)

def NameEnd.encode : NameEnd → Bytes
  | .root => [0]
  | .pointer hi lo _ => [hi, lo]

structure Name where
  labels : List Label
  last : NameEnd
  short : labels.length ≤ maxJumps

def Name.encode (n : Name) : Bytes := n.labels.flatMap Label.encode ++ n.last.encode

@[simp] theorem Label.encode_length (l : Label) : l.encode.length = 1 + l.bytes.length :=
  Nat.add_comm _ _

theorem Label.length_pos (l : Label) : 0 < l.bytes.length :=
  List.length_pos_iff.mpr l.nonempty

/-- The two top bits of a byte are clear exactly if it is a length a label can have. -/
theorem and_c0_eq_zero_iff (b : UInt8) : b &&& 0xc0 = 0 ↔ b.toNat < 64 := by
  have key : ∀ n : Fin 256, UInt8.ofNat n &&& 0xc0 = 0 ↔ n.val < 64 := by decide +kernel
  have hb := key ⟨b.toNat, b.toNat_lt⟩
  rwa [UInt8.ofNat_toNat] at hb

theorem namePart_label {packet : Bytes} {offset : Nat} (l : Label)
    (h : StandsAt packet offset l.encode) :
    namePart packet offset = some (.label (offset + l.encode.length)) := by
  have hle := h.length_le
  have hpos := l.length_pos
  have hshort := l.short
  rw [Label.encode_length] at hle ⊢
  have hbyte : packet[offset]? = some (UInt8.ofNat l.bytes.length) := h.getElem? (i := 0) (by simp)
  have hnat : (UInt8.ofNat l.bytes.length).toNat = l.bytes.length :=
    UInt8.toNat_ofNat_of_lt' (Nat.lt_of_le_of_lt hshort (by decide))
  have hmask : UInt8.ofNat l.bytes.length &&& 0xc0 = 0 :=
    (and_c0_eq_zero_iff _).mpr (by omega)
  have hzero : UInt8.ofNat l.bytes.length ≠ 0 := by
    intro h0
    rw [h0] at hnat
    simp at hnat
    omega
  rw [namePart, if_pos (by omega), hbyte, Option.bind_eq_bind, Option.bind_some, hmask,
    if_neg (by decide), if_neg (by simp), if_neg hzero, hnat, if_neg (by omega), Nat.add_assoc]

theorem namePart_end {packet : Bytes} {offset : Nat} (e : NameEnd)
    (h : StandsAt packet offset e.encode) :
    namePart packet offset = some (.done (offset + e.encode.length)) := by
  have hle := h.length_le
  cases e with
  | root =>
    have hbyte : packet[offset]? = some 0 := h.getElem? (i := 0) (by decide)
    have hlt : offset < packet.length := hle
    rw [namePart, if_pos hlt, hbyte]
    rfl
  | pointer hi lo mark =>
    have hbyte : packet[offset]? = some hi := h.getElem? (i := 0) (Nat.succ_pos _)
    have hlt : offset + 2 ≤ packet.length := hle
    rw [namePart, if_pos (by omega), hbyte, Option.bind_eq_bind, Option.bind_some, if_pos mark,
      if_neg (by omega)]
    rfl

/-- The loop of `skip_dns_name` over a name it has labels enough for. -/
theorem skipDnsName_labels {packet : Bytes} (e : NameEnd) (labels : List Label) {left offset : Nat}
    (hleft : labels.length ≤ left)
    (h : StandsAt packet offset (labels.flatMap Label.encode ++ e.encode)) :
    skipDnsName packet left offset =
      some (some (offset + (labels.flatMap Label.encode ++ e.encode).length)) := by
  induction labels generalizing left offset with
  | nil =>
    rw [List.flatMap_nil, List.nil_append] at h ⊢
    cases left <;> rw [skipDnsName, namePart_end e h]
  | cons l labels ih =>
    rw [List.flatMap_cons, List.append_assoc] at h ⊢
    cases left with
    | zero => simp at hleft
    | succ left =>
      have hlabels : labels.length ≤ left := Nat.le_of_succ_le_succ hleft
      rw [skipDnsName, namePart_label l h.left]
      simp only
      rw [ih hlabels h.right]
      simp only [List.length_append, Nat.add_assoc]

theorem skipDnsName_of_standsAt {packet : Bytes} {offset : Nat} (n : Name)
    (h : StandsAt packet offset n.encode) :
    skipDnsName packet maxJumps offset = some (some (offset + n.encode.length)) :=
  skipDnsName_labels n.last n.labels n.short h

/-- A length byte with as many bytes after it is a label. -/
theorem exists_label {packet : Bytes} {offset : Nat} {len : UInt8}
    (hlen : packet[offset]? = some len) (hmask : len &&& 0xc0 = 0) (hzero : len ≠ 0)
    (hroom : offset + 1 + len.toNat ≤ packet.length) :
    ∃ l : Label, StandsAt packet offset l.encode ∧ l.encode.length = 1 + len.toNat := by
  have hlt := (and_c0_eq_zero_iff len).mp hmask
  have hslice := length_slice hroom
  have hpos : len.toNat ≠ 0 := fun h0 => hzero (UInt8.toNat_inj.mp h0)
  let l : Label :=
    { bytes := (packet.drop (offset + 1)).take len.toNat
      nonempty := fun h0 => hpos (by rw [← hslice, h0]; rfl)
      short := by omega }
  have hbytes : l.encode = [len] ++ l.bytes := by
    rw [Label.encode, hslice, UInt8.ofNat_toNat]
    rfl
  refine ⟨l, ?_, by rw [Label.encode_length, hslice]⟩
  rw [hbytes]
  exact standsAt_append.mpr ⟨standsAt_singleton hlen, standsAt_slice hroom⟩

/-- What an iteration of `skip_dns_name` has seen if it did not end with false. -/
theorem namePart_inv {packet : Bytes} {offset : Nat} {part : NamePart}
    (h : namePart packet offset = some part) :
    part = .bad ∨
      (∃ e : NameEnd, StandsAt packet offset e.encode ∧
        part = .done (offset + e.encode.length)) ∨
      ∃ l : Label, StandsAt packet offset l.encode ∧ part = .label (offset + l.encode.length) := by
  unfold namePart at h
  split at h
  case isFalse => exact .inl (Option.some.inj h).symm
  case isTrue hlt =>
    obtain ⟨len, hlen⟩ := byte_some packet hlt
    rw [hlen, Option.bind_eq_bind, Option.bind_some] at h
    split at h
    · -- a pointer, with its second byte in the packet or not
      rename_i hmark
      split at h
      · exact .inl (Option.some.inj h).symm
      · rename_i hnext
        obtain ⟨lo, hlo⟩ := byte_some packet (Nat.lt_of_not_le hnext)
        refine .inr (.inl ⟨.pointer len lo hmark, ?_, (Option.some.inj h).symm⟩)
        exact standsAt_append.mpr ⟨standsAt_singleton hlen, standsAt_singleton hlo⟩
    · split at h
      · exact .inl (Option.some.inj h).symm
      · rename_i hmask
        split at h
        · rename_i hzero
          subst hzero
          exact .inr (.inl ⟨.root, standsAt_singleton hlen, (Option.some.inj h).symm⟩)
        · rename_i hzero
          split at h
          · exact .inl (Option.some.inj h).symm
          · rename_i hroom
            obtain ⟨l, hl, hlength⟩ := exists_label hlen (not_not.mp hmask) hzero
              (Nat.le_of_not_lt hroom)
            refine .inr (.inr ⟨l, hl, ?_⟩)
            rw [← Option.some.inj h, hlength, Nat.add_assoc]

theorem skipDnsName_labels_inv {packet : Bytes} {left offset stop : Nat}
    (h : skipDnsName packet left offset = some (some stop)) :
    ∃ (labels : List Label) (e : NameEnd), labels.length ≤ left ∧
      StandsAt packet offset (labels.flatMap Label.encode ++ e.encode) ∧
      stop = offset + (labels.flatMap Label.encode ++ e.encode).length := by
  induction left generalizing offset with
  | zero =>
    obtain ⟨part, hpart⟩ := namePart_some packet offset
    rw [skipDnsName, hpart] at h
    rcases namePart_inv hpart with rfl | ⟨e, he, rfl⟩ | ⟨l, -, rfl⟩
    · cases h
    · cases h
      exact ⟨[], e, Nat.le_refl 0, he, rfl⟩
    · cases h
  | succ left ih =>
    obtain ⟨part, hpart⟩ := namePart_some packet offset
    rw [skipDnsName, hpart] at h
    rcases namePart_inv hpart with rfl | ⟨e, he, rfl⟩ | ⟨l, hl, rfl⟩
    · cases h
    · cases h
      exact ⟨[], e, Nat.zero_le _, he, rfl⟩
    · obtain ⟨labels, e, hle, hat, rfl⟩ := ih h
      refine ⟨l :: labels, e, Nat.succ_le_succ hle, ?_, ?_⟩
      · rw [List.flatMap_cons, List.append_assoc]
        exact standsAt_append.mpr ⟨hl, hat⟩
      · simp only [List.flatMap_cons, List.length_append]
        omega

/-- Where `skip_dns_name` succeeds there is a name, and it stops at the byte after it. -/
theorem skipDnsName_inv {packet : Bytes} {offset stop : Nat}
    (h : skipDnsName packet maxJumps offset = some (some stop)) :
    ∃ n : Name, StandsAt packet offset n.encode ∧ stop = offset + n.encode.length := by
  obtain ⟨labels, e, hle, hat, hstop⟩ := skipDnsName_labels_inv h
  exact ⟨⟨labels, e, hle⟩, hat, hstop⟩

/-! ## Questions and records -/

structure Question where
  name : Name
  qtype : UInt16
  qclass : UInt16

def Question.encode (q : Question) : Bytes :=
  q.name.encode ++ (be16 q.qtype.toNat ++ be16 q.qclass.toNat)

theorem Question.encode_length (q : Question) : q.encode.length = q.name.encode.length + 4 := by
  simp [Question.encode]

structure ResourceRecord where
  name : Name
  type : UInt16
  klass : UInt16
  ttl : Block 4
  rdata : Bytes
  fits : rdata.length < 65536

/-- The ten bytes between the name and the RDATA. -/
def ResourceRecord.fixed (r : ResourceRecord) : Bytes :=
  be16 r.type.toNat ++ (be16 r.klass.toNat ++ (r.ttl.val ++ be16 r.rdata.length))

def ResourceRecord.encode (r : ResourceRecord) : Bytes := r.name.encode ++ (r.fixed ++ r.rdata)

@[simp] theorem ResourceRecord.fixed_length (r : ResourceRecord) : r.fixed.length = 10 := by
  simp [ResourceRecord.fixed, r.ttl.property]

theorem readU16_of_standsAt {packet : Bytes} {offset value : Nat} (hv : value < 65536)
    (h : StandsAt packet offset (be16 value)) : readU16 packet offset = some value := by
  have hhi := h.getElem? (i := 0) Nat.zero_lt_two
  have hlo := h.getElem? (i := 1) Nat.one_lt_two
  rw [Nat.add_zero] at hhi
  rw [readU16, hhi, hlo]
  exact congrArg some (readBe16_be16 hv)

/-- Any two bytes are a number. -/
theorem exists_standsAt_be16 {packet : Bytes} {offset : Nat} (h : offset + 1 < packet.length) :
    ∃ value : UInt16, StandsAt packet offset (be16 value.toNat) := by
  obtain ⟨hi, hhi⟩ := byte_some packet (Nat.lt_of_succ_lt h)
  obtain ⟨lo, hlo⟩ := byte_some packet h
  have hlt : readBe16 [hi, lo] < 65536 := by
    have h1 := hi.toNat_lt
    have h2 := lo.toNat_lt
    rw [readBe16, shiftLeft_or_byte _ _ h2]
    omega
  refine ⟨UInt16.ofNat (readBe16 [hi, lo]), ?_⟩
  rw [UInt16.toNat_ofNat_of_lt' hlt, be16_readBe16 ⟨[hi, lo], rfl⟩]
  exact standsAt_append.mpr ⟨standsAt_singleton hhi, standsAt_singleton hlo⟩

theorem skipQuestions_question {packet : Bytes} {offset : Nat} (n : Nat) (q : Question)
    (h : StandsAt packet offset q.encode) :
    skipQuestions packet (n + 1) offset = skipQuestions packet n (offset + q.encode.length) := by
  have hle := h.length_le
  have hlen := q.encode_length
  rw [skipQuestions, skipDnsName_of_standsAt q.name h.left, Option.bind_eq_bind, Option.bind_some]
  simp only
  rw [if_neg (by omega), hlen, Nat.add_assoc]

/-- The question loop over the bytes of as many questions. -/
theorem skipQuestions_of_standsAt {packet : Bytes} (questions : List Question) {offset : Nat}
    (h : StandsAt packet offset (questions.flatMap Question.encode)) :
    skipQuestions packet questions.length offset =
      some (some (offset + (questions.flatMap Question.encode).length)) := by
  induction questions generalizing offset with
  | nil => rfl
  | cons q questions ih =>
    rw [List.flatMap_cons] at h ⊢
    rw [List.length_cons, skipQuestions_question _ q h.left, ih h.right, List.length_append,
      Nat.add_assoc]

theorem skipQuestions_inv {packet : Bytes} {qdcount offset stop : Nat} (hoff : offset ≤ packet.length)
    (h : skipQuestions packet qdcount offset = some (some stop)) :
    ∃ questions : List Question, questions.length = qdcount ∧
      StandsAt packet offset (questions.flatMap Question.encode) ∧
      stop = offset + (questions.flatMap Question.encode).length := by
  induction qdcount generalizing offset with
  | zero =>
    cases h
    exact ⟨[], rfl, standsAt_nil hoff, rfl⟩
  | succ qdcount ih =>
    obtain ⟨r, hr, h⟩ := Option.bind_eq_some_iff.mp h
    cases r with
    | none => cases h
    | some mid =>
      simp only at h
      split at h
      · cases h
      · rename_i hroom
        obtain ⟨n, hn, rfl⟩ := skipDnsName_inv hr
        -- the four bytes after the name, as the two numbers of the question
        obtain ⟨qtype, ht⟩ := exists_standsAt_be16
          (show offset + n.encode.length + 1 < packet.length by omega)
        obtain ⟨qclass, hc⟩ := exists_standsAt_be16
          (show offset + n.encode.length + 2 + 1 < packet.length by omega)
        let q : Question := ⟨n, qtype, qclass⟩
        have hq : StandsAt packet offset q.encode :=
          standsAt_append.mpr ⟨hn, standsAt_append.mpr ⟨ht, hc⟩⟩
        have hlen : q.encode.length = n.encode.length + 4 := q.encode_length
        obtain ⟨questions, hcount, hat, rfl⟩ := ih (by omega) h
        refine ⟨q :: questions, by rw [List.length_cons, hcount], ?_, ?_⟩
        · rw [List.flatMap_cons]
          refine standsAt_append.mpr ⟨hq, ?_⟩
          rw [hlen, ← Nat.add_assoc]
          exact hat
        · simp only [List.flatMap_cons, List.length_append, hlen]
          omega

/-! ## Addresses -/

/-- The bytes of 32-bit words, each word read in network byte order and stored as it is. -/
def storedWords : Bytes → Bytes
  | b0 :: b1 :: b2 :: b3 :: rest => b3 :: b2 :: b1 :: b0 :: storedWords rest
  | rest => rest

/-- The address in the RDATA of a record of type `type`. -/
def addressOf (type : Nat) (rdata : Bytes) : Option IpAddr :=
  if type = DnsTypeA ∧ rdata.length = 4 then some ⟨false, rdata⟩
  else if type = DnsTypeAaaa ∧ rdata.length = 16 then some ⟨true, storedWords rdata⟩
  else none

/-- The address a record answers a question of type `qtype` with. -/
def ResourceRecord.address (qtype : Nat) (r : ResourceRecord) : Option IpAddr :=
  if r.klass.toNat = DnsClassIn ∧ r.type.toNat = qtype then addressOf r.type.toNat r.rdata else none

theorem readU32_of_standsAt {packet rest : Bytes} {offset : Nat} {b0 b1 b2 b3 : UInt8}
    (h : StandsAt packet offset (b0 :: b1 :: b2 :: b3 :: rest)) :
    ∃ word, readU32 packet offset = some word ∧ wordBytes word = [b3, b2, b1, b0] := by
  have h0 : packet[offset]? = some b0 := h.getElem? (i := 0) (by simp)
  have h1 : packet[offset + 1]? = some b1 := h.getElem? (i := 1) (by simp)
  have h2 : packet[offset + 2]? = some b2 := h.getElem? (i := 2) (by simp)
  have h3 : packet[offset + 2 + 1]? = some b3 := h.getElem? (i := 3) (by simp)
  refine ⟨(b0.toNat <<< 8 ||| b1.toNat) <<< 16 ||| (b2.toNat <<< 8 ||| b3.toNat), ?_, ?_⟩
  · rw [readU32, readU16, readU16, h0, h1, h2, h3]
    rfl
  · have l1 := b1.toNat_lt
    have l2 := b2.toNat_lt
    have l3 := b3.toNat_lt
    have hlow : 256 * b2.toNat + b3.toNat < 2 ^ 16 := by omega
    rw [shiftLeft_or_byte _ _ l1, shiftLeft_or_byte _ _ l3,
      ← Nat.shiftLeft_add_eq_or_of_lt hlow, Nat.shiftLeft_eq]
    have byte (n : Nat) (b : UInt8) (hn : n % 256 = b.toNat) : UInt8.ofNat n = b :=
      UInt8.toNat_inj.mp (by rw [UInt8.toNat_ofNat']; exact hn)
    have l0 := b0.toNat_lt
    rw [wordBytes, byte _ b3 (by omega), byte _ b2 (by rw [Nat.shiftRight_eq_div_pow]; omega),
      byte _ b1 (by rw [Nat.shiftRight_eq_div_pow]; omega),
      byte _ b0 (by rw [Nat.shiftRight_eq_div_pow]; omega)]

/-- The first four of enough bytes. -/
theorem exists_word {bytes : Bytes} {n : Nat} (h : bytes.length = n + 4) :
    ∃ b0 b1 b2 b3 rest, bytes = b0 :: b1 :: b2 :: b3 :: rest ∧ rest.length = n := by
  match bytes, h with
  | b0 :: b1 :: b2 :: b3 :: rest, h => exact ⟨b0, b1, b2, b3, rest, rfl, by simpa using h⟩

theorem rdataAddress_of_standsAt {packet rdata : Bytes} {offset : Nat} (type : Nat)
    (h : StandsAt packet offset rdata) :
    rdataAddress packet type rdata.length offset = some (addressOf type rdata) := by
  unfold rdataAddress addressOf
  split
  · rename_i htype
    obtain ⟨b0, b1, b2, b3, rest, rfl, hrest⟩ := exists_word (n := 0) htype.2
    rw [List.length_eq_zero_iff] at hrest
    subst hrest
    have h0 : packet[offset]? = some b0 := h.getElem? (i := 0) (by simp)
    have h1 : packet[offset + 1]? = some b1 := h.getElem? (i := 1) (by simp)
    have h2 : packet[offset + 2]? = some b2 := h.getElem? (i := 2) (by simp)
    have h3 : packet[offset + 3]? = some b3 := h.getElem? (i := 3) (by simp)
    rw [h0, h1, h2, h3]
    rfl
  · split
    · rename_i htype
      obtain ⟨a0, a1, a2, a3, as, rfl, has⟩ := exists_word (n := 12) htype.2
      obtain ⟨b0, b1, b2, b3, bs, rfl, hbs⟩ := exists_word (n := 8) has
      obtain ⟨c0, c1, c2, c3, cs, rfl, hcs⟩ := exists_word (n := 4) hbs
      obtain ⟨d0, d1, d2, d3, ds, rfl, hds⟩ := exists_word (n := 0) hcs
      rw [List.length_eq_zero_iff] at hds
      subst hds
      -- each word stands four bytes after the one before it
      have hb : StandsAt packet (offset + 4) (b0 :: b1 :: b2 :: b3 :: c0 :: c1 :: c2 :: c3 :: _) :=
        StandsAt.right (show StandsAt packet offset ([a0, a1, a2, a3] ++ _) from h)
      have hc : StandsAt packet (offset + 8) (c0 :: c1 :: c2 :: c3 :: d0 :: d1 :: d2 :: d3 :: _) :=
        StandsAt.right (show StandsAt packet (offset + 4) ([b0, b1, b2, b3] ++ _) from hb)
      have hd : StandsAt packet (offset + 12) (d0 :: d1 :: d2 :: d3 :: _) :=
        StandsAt.right (show StandsAt packet (offset + 8) ([c0, c1, c2, c3] ++ _) from hc)
      obtain ⟨w0, h0, e0⟩ := readU32_of_standsAt h
      obtain ⟨w1, h1, e1⟩ := readU32_of_standsAt hb
      obtain ⟨w2, h2, e2⟩ := readU32_of_standsAt hc
      obtain ⟨w3, h3, e3⟩ := readU32_of_standsAt hd
      rw [h0, h1, h2, h3]
      simp only [Option.bind_eq_bind, Option.bind_some]
      rw [e0, e1, e2, e3]
      rfl
    · rfl

/-! ## The answer section -/

/-- One iteration of the answer loop, over a record. -/
theorem findAnswer_record {packet : Bytes} {offset : Nat} (qtype n : Nat) (r : ResourceRecord)
    (h : StandsAt packet offset r.encode) :
    findAnswer packet qtype (n + 1) offset =
      (r.address qtype).elim (findAnswer packet qtype n (offset + r.encode.length))
        fun ip => some (some ip) := by
  have hfixed := h.right.left
  have hrdata := h.right.right
  have hle := hrdata.length_le
  have hlen : r.encode.length = r.name.encode.length + (10 + r.rdata.length) := by
    rw [ResourceRecord.encode, List.length_append, List.length_append, r.fixed_length]
  rw [r.fixed_length] at hrdata hle
  have htype := readU16_of_standsAt r.type.toNat_lt hfixed.left
  have hklass := readU16_of_standsAt r.klass.toNat_lt hfixed.right.left
  have hrdlen := readU16_of_standsAt r.fits hfixed.right.right.right
  rw [be16_length] at hklass
  rw [be16_length, be16_length, r.ttl.property] at hrdlen
  rw [findAnswer, skipDnsName_of_standsAt r.name h.left]
  simp only [Option.bind_eq_bind, Option.bind_some]
  rw [if_neg (by omega), htype, hklass, hrdlen]
  simp only [Option.bind_some]
  rw [if_neg (by omega), rdataAddress_of_standsAt _ hrdata, ResourceRecord.address, hlen,
    ← Nat.add_assoc, ← Nat.add_assoc]
  split
  · rw [Option.bind_some]
    cases addressOf r.type.toNat r.rdata <;> rfl
  · rfl

/-- The answer loop passes over records without the address asked for. -/
theorem findAnswer_of_standsAt {packet : Bytes} {qtype : Nat} (before : List ResourceRecord)
    (n : Nat) {offset : Nat} (h : StandsAt packet offset (before.flatMap ResourceRecord.encode))
    (hnone : ∀ r ∈ before, r.address qtype = none) :
    findAnswer packet qtype (before.length + n) offset =
      findAnswer packet qtype n (offset + (before.flatMap ResourceRecord.encode).length) := by
  induction before generalizing offset with
  | nil =>
    rw [List.length_nil, Nat.zero_add]
    rfl
  | cons r before ih =>
    rw [List.flatMap_cons] at h ⊢
    rw [List.length_cons, Nat.succ_add, findAnswer_record qtype _ r h.left,
      hnone r List.mem_cons_self, Option.elim_none,
      ih h.right fun x hx => hnone x (List.mem_cons_of_mem r hx), List.length_append, Nat.add_assoc]

theorem findAnswer_first {packet : Bytes} {qtype ancount offset : Nat} {ip : IpAddr}
    {before : List ResourceRecord} {r : ResourceRecord}
    (h : StandsAt packet offset (before.flatMap ResourceRecord.encode ++ r.encode))
    (hcount : before.length < ancount) (hnone : ∀ x ∈ before, x.address qtype = none)
    (hip : r.address qtype = some ip) :
    findAnswer packet qtype ancount offset = some (some ip) := by
  obtain ⟨n, rfl⟩ := Nat.exists_eq_add_of_lt hcount
  rw [Nat.add_assoc, findAnswer_of_standsAt before (n + 1) h.left hnone,
    findAnswer_record qtype n r h.right, hip, Option.elim_some]

/-- An answer loop that finds something starts at a record. -/
theorem findAnswer_standsAt {packet : Bytes} {qtype ancount offset : Nat} {ip : IpAddr}
    (h : findAnswer packet qtype (ancount + 1) offset = some (some ip)) :
    ∃ r : ResourceRecord, StandsAt packet offset r.encode := by
  obtain ⟨name, hname, h⟩ := Option.bind_eq_some_iff.mp h
  cases name with
  | none => cases h
  | some start =>
    simp only at h
    split at h
    · cases h
    · rename_i hroom
      obtain ⟨name, hat, rfl⟩ := skipDnsName_inv hname
      obtain ⟨type, htype⟩ := exists_standsAt_be16
        (show offset + name.encode.length + 1 < packet.length by omega)
      obtain ⟨klass, hklass⟩ := exists_standsAt_be16
        (show offset + name.encode.length + 2 + 1 < packet.length by omega)
      have httl : StandsAt packet (offset + name.encode.length + 2 + 2) _ := standsAt_slice
        (show offset + name.encode.length + 2 + 2 + 4 ≤ packet.length by omega)
      obtain ⟨rdlen, hrdlen⟩ := exists_standsAt_be16
        (show offset + name.encode.length + 2 + 2 + 4 + 1 < packet.length by omega)
      have hread : readU16 packet (offset + name.encode.length + 8) = some rdlen.toNat :=
        readU16_of_standsAt rdlen.toNat_lt hrdlen
      rw [readU16_of_standsAt type.toNat_lt htype, readU16_of_standsAt klass.toNat_lt hklass,
        hread] at h
      simp only [Option.bind_eq_bind, Option.bind_some] at h
      split at h
      · cases h
      · rename_i hrdata
        have hlen := length_slice (Nat.le_of_not_lt hrdata)
        let r : ResourceRecord :=
          { name, type, klass
            ttl := ⟨(packet.drop (offset + name.encode.length + 2 + 2)).take 4,
              length_slice (by omega)⟩
            rdata := (packet.drop (offset + name.encode.length + 10)).take rdlen.toNat
            fits := by rw [hlen]; exact rdlen.toNat_lt }
        refine ⟨r, standsAt_append.mpr ⟨hat, standsAt_append.mpr ⟨?_, ?_⟩⟩⟩
        · refine standsAt_append.mpr ⟨htype, standsAt_append.mpr ⟨hklass,
            standsAt_append.mpr ⟨httl, ?_⟩⟩⟩
          rw [be16_length, be16_length, r.ttl.property, hlen]
          exact hrdlen
        · rw [r.fixed_length]
          exact standsAt_slice (Nat.le_of_not_lt hrdata)

theorem findAnswer_inv {packet : Bytes} {qtype ancount offset : Nat} {ip : IpAddr}
    (h : findAnswer packet qtype ancount offset = some (some ip)) :
    ∃ (before : List ResourceRecord) (r : ResourceRecord), before.length < ancount ∧
      StandsAt packet offset (before.flatMap ResourceRecord.encode ++ r.encode) ∧
      (∀ x ∈ before, x.address qtype = none) ∧ r.address qtype = some ip := by
  induction ancount generalizing offset with
  | zero => cases h
  | succ ancount ih =>
    obtain ⟨r, hr⟩ := findAnswer_standsAt h
    rw [findAnswer_record qtype ancount r hr] at h
    cases haddr : r.address qtype with
    | some found =>
      rw [haddr] at h
      cases h
      exact ⟨[], r, Nat.succ_pos _, hr, fun x hx => (by cases hx), haddr⟩
    | none =>
      rw [haddr] at h
      obtain ⟨before, r', hcount, hat, hnone, hip⟩ := ih h
      refine ⟨r :: before, r', Nat.succ_lt_succ hcount, ?_, ?_, hip⟩
      · rw [List.flatMap_cons, List.append_assoc]
        exact standsAt_append.mpr ⟨hr, hat⟩
      · exact List.forall_mem_cons.mpr ⟨haddr, hnone⟩

end Ovpn2ss.Dns
