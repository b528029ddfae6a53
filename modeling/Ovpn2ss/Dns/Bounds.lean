/-
  `parse_dns_response` as the loops of the source run it: one step for each test of a `for` loop and
  for each iteration of the `while` loop of `skip_dns_name`, with the 16-bit counters of the `for`
  loops and the count of labels kept as the source keeps them. A read outside the packet is a step
  that fails, and nothing else is.

  `parseDnsResponse` computes what this machine computes, but its recursions end because they are
  recursions on numbers. Here the end is a result: whatever the packet, the machine returns after at
  most `stepBound` steps, none of which fails, and it returns what `parseDnsResponse` says.
-/
import Ovpn2ss.Lib.Loop
import Ovpn2ss.Dns.Wire

namespace Ovpn2ss.Dns

open Ovpn2ss.Aead Ovpn2ss.Lwip Ovpn2ss.Lib

/-- Which loop called `skip_dns_name`, with its counters. -/
inductive Caller where
  | question (qdcount ancount i : UInt16)
  | answer (ancount i : UInt16)

inductive Parser where
  | start
  | questions (qdcount ancount i : UInt16) (offset : Nat)
  | answers (ancount i : UInt16) (offset : Nat)
  /-- The head of the loop in `skip_dns_name`. -/
  | name (caller : Caller) (offset jumps : Nat)
  /-- `skip_dns_name` has returned true. -/
  | named (caller : Caller) (offset : Nat)
  | returned (result : Option IpAddr)

def Parser.step (packet : Bytes) (id qtype : Nat) : Parser → Option Parser
  | .start =>
    if packet.length < 12 then some (.returned none)
    else do
      let rid ← readU16 packet 0
      if rid ≠ id then some (.returned none)
      else do
        let flags ← readU16 packet 2
        if flags &&& 0x8000 = 0 ∨ flags &&& 0x000f ≠ 0 then some (.returned none)
        else do
          let qdcount ← readU16 packet 4
          let ancount ← readU16 packet 6
          some (.questions (UInt16.ofNat qdcount) (UInt16.ofNat ancount) 0 12)
  | .questions qdcount ancount i offset =>
    if i < qdcount then some (.name (.question qdcount ancount i) offset 0)
    else some (.answers ancount 0 offset)
  | .answers ancount i offset =>
    if i < ancount then some (.name (.answer ancount i) offset 0) else some (.returned none)
  | .name caller offset jumps => do
    match ← namePart packet offset with
    | .bad => some (.returned none)
    | .done offset => some (.named caller offset)
    | .label offset =>
      if 255 < jumps + 1 then some (.returned none) else some (.name caller offset (jumps + 1))
  | .named (.question qdcount ancount i) offset =>
    if packet.length < offset + 4 then some (.returned none)
    else some (.questions qdcount ancount (i + 1) (offset + 4))
  | .named (.answer ancount i) offset =>
    if packet.length < offset + 10 then some (.returned none)
    else do
      let type ← readU16 packet offset
      let klass ← readU16 packet (offset + 2)
      let rdlen ← readU16 packet (offset + 8)
      if packet.length < offset + 10 + rdlen then some (.returned none)
      else if klass = DnsClassIn ∧ type = qtype then do
        match ← rdataAddress packet type rdlen (offset + 10) with
        | some ip => some (.returned (some ip))
        | none => some (.answers ancount (i + 1) (offset + 10 + rdlen))
      else some (.answers ancount (i + 1) (offset + 10 + rdlen))
  | .returned result => some (.returned result)

variable {packet : Bytes} {id qtype : Nat}

/-- The loop of `skip_dns_name`, from any count of labels on. -/
theorem within_name (caller : Caller) {left jumps offset : Nat} {r : Option Nat}
    (hjumps : jumps + left = maxJumps) (h : skipDnsName packet left offset = some r) :
    Within (Parser.step packet id qtype) (left + 1) (.name caller offset jumps)
      (r.elim (.returned none) (.named caller)) := by
  have hmax : maxJumps = 255 := rfl
  induction left generalizing jumps offset with
  | zero =>
    obtain ⟨part, hpart⟩ := namePart_some packet offset
    rw [skipDnsName, hpart] at h
    refine .step (r.elim (.returned none) (.named caller)) ?_ (.refl _ _)
    rw [Parser.step, hpart, Option.bind_eq_bind, Option.bind_some]
    cases part with
    | bad => cases h; rfl
    | done stop => cases h; rfl
    | label stop =>
      -- the label is one too many
      cases h
      exact if_pos (by omega)
  | succ left ih =>
    obtain ⟨part, hpart⟩ := namePart_some packet offset
    rw [skipDnsName, hpart] at h
    cases part with
    | bad =>
      cases h
      exact .step _ (by rw [Parser.step, hpart]; rfl) (.refl _ _)
    | done stop =>
      cases h
      exact .step _ (by rw [Parser.step, hpart]; rfl) (.refl _ _)
    | label stop =>
      refine .step (.name caller stop (jumps + 1)) ?_ (ih (by omega) h)
      rw [Parser.step, hpart]
      exact if_neg (by omega)

/-- What one iteration of a `for` loop can take: its test, 256 iterations over a name, and the check
    after it. -/
def iterationBound : Nat := 258

/-- The question loop, with its counter at `i` and `k` questions to go. -/
theorem within_questions (ancount : UInt16) {qdcount i : UInt16} {k offset : Nat} {r : Option Nat}
    (hi : i.toNat + k = qdcount.toNat) (h : skipQuestions packet k offset = some r) :
    Within (Parser.step packet id qtype) (iterationBound * k + 1)
      (.questions qdcount ancount i offset) (r.elim (.returned none) (.answers ancount 0)) := by
  induction k generalizing i offset with
  | zero =>
    cases h
    have hge : ¬ i < qdcount := by
      rw [UInt16.lt_iff_toNat_lt]
      omega
    exact .step (.answers ancount 0 offset) (by rw [Parser.step, if_neg hge]) (.refl _ _)
  | succ k ih =>
    have hlt : i < qdcount := UInt16.lt_iff_toNat_lt.mpr (by omega)
    have hsucc := toNat_succ_of_lt hlt
    obtain ⟨name, hname, h⟩ := Option.bind_eq_some_iff.mp h
    have hskip : Within (Parser.step packet id qtype) 257 (.questions qdcount ancount i offset) _ :=
      .step (.name (.question qdcount ancount i) offset 0) (by rw [Parser.step, if_pos hlt])
        (within_name (.question qdcount ancount i) (Nat.zero_add maxJumps) hname)
    cases name with
    | none =>
      cases h
      exact hskip.mono (by simp only [iterationBound]; omega)
    | some stop =>
      simp only at h
      split at h
      · rename_i hroom
        cases h
        have hret : Parser.step packet id qtype (.named (.question qdcount ancount i) stop) =
            some (.returned none) := if_pos hroom
        exact (hskip.snoc hret).mono (by simp only [iterationBound]; omega)
      · rename_i hroom
        have hstep : Parser.step packet id qtype (.named (.question qdcount ancount i) stop) =
            some (.questions qdcount ancount (i + 1) (stop + 4)) := if_neg hroom
        exact ((hskip.snoc hstep).trans (ih (i := i + 1) (by omega) h)).mono
          (by simp only [iterationBound]; omega)

/-- The check after the name of an answer returns, or leaves the rest of the answers. -/
theorem step_named_answer (ancount i : UInt16) {k offset stop : Nat} {r : Option IpAddr}
    (hname : skipDnsName packet maxJumps offset = some (some stop))
    (h : findAnswer packet qtype (k + 1) offset = some r) :
    Parser.step packet id qtype (.named (.answer ancount i) stop) = some (.returned r) ∨
      ∃ next, Parser.step packet id qtype (.named (.answer ancount i) stop) =
        some (.answers ancount (i + 1) next) ∧ findAnswer packet qtype k next = some r := by
  rw [findAnswer, hname, Option.bind_eq_bind, Option.bind_some] at h
  simp only at h
  split at h
  · rename_i hroom
    cases h
    exact .inl (if_pos hroom)
  · rename_i hroom
    obtain ⟨type, htype, h⟩ := Option.bind_eq_some_iff.mp h
    obtain ⟨klass, hklass, h⟩ := Option.bind_eq_some_iff.mp h
    obtain ⟨rdlen, hrdlen, h⟩ := Option.bind_eq_some_iff.mp h
    rw [Parser.step, if_neg hroom, htype, hklass, hrdlen]
    simp only [Option.bind_eq_bind, Option.bind_some]
    split at h
    · rename_i hfits
      cases h
      exact .inl (if_pos hfits)
    · rename_i hfits
      rw [if_neg hfits]
      split at h
      · rename_i hmatch
        obtain ⟨address, haddress, h⟩ := Option.bind_eq_some_iff.mp h
        rw [if_pos hmatch, haddress, Option.bind_some]
        cases address with
        | some ip =>
          cases h
          exact .inl rfl
        | none => exact .inr ⟨_, rfl, h⟩
      · rename_i hmatch
        rw [if_neg hmatch]
        exact .inr ⟨_, rfl, h⟩

/-- The answer loop, with its counter at `i` and `k` answers to go. -/
theorem within_answers {ancount i : UInt16} {k offset : Nat} {r : Option IpAddr}
    (hi : i.toNat + k = ancount.toNat) (hfind : findAnswer packet qtype k offset = some r) :
    Within (Parser.step packet id qtype) (iterationBound * k + 1) (.answers ancount i offset)
      (.returned r) := by
  induction k generalizing i offset with
  | zero =>
    cases hfind
    have hge : ¬ i < ancount := by
      rw [UInt16.lt_iff_toNat_lt]
      omega
    exact .step (.returned none) (by rw [Parser.step, if_neg hge]) (.refl _ _)
  | succ k ih =>
    have hlt : i < ancount := UInt16.lt_iff_toNat_lt.mpr (by omega)
    have hsucc := toNat_succ_of_lt hlt
    obtain ⟨name, hname⟩ := skipDnsName_some packet maxJumps offset
    have hskip : Within (Parser.step packet id qtype) 257 (.answers ancount i offset) _ :=
      .step (.name (.answer ancount i) offset 0) (by rw [Parser.step, if_pos hlt])
        (within_name (.answer ancount i) (Nat.zero_add maxJumps) hname)
    cases name with
    | none =>
      rw [findAnswer, hname] at hfind
      cases hfind
      exact hskip.mono (by simp only [iterationBound]; omega)
    | some stop =>
      rcases step_named_answer ancount i hname hfind with hret | ⟨next, hstep, hrest⟩
      · exact (hskip.snoc hret).mono (by simp only [iterationBound]; omega)
      · exact ((hskip.snoc hstep).trans (ih (i := i + 1) (by omega) hrest)).mono
          (by simp only [iterationBound]; omega)

/-- The two counters go up to 65535 at most. -/
def stepBound : Nat := 2 * (iterationBound * 65535 + 1) + 1

theorem bound_le_stepBound {qdcount ancount : Nat} (hq : qdcount < 65536) (ha : ancount < 65536) :
    1 + (iterationBound * qdcount + 1) + (iterationBound * ancount + 1) ≤ stepBound := by
  have h1 : iterationBound * qdcount ≤ iterationBound * 65535 := Nat.mul_le_mul_left _ (by omega)
  have h2 : iterationBound * ancount ≤ iterationBound * 65535 := Nat.mul_le_mul_left _ (by omega)
  unfold stepBound
  omega

theorem readU16_lt {packet : Bytes} {offset value : Nat} (h : readU16 packet offset = some value) :
    value < 65536 := by
  obtain ⟨hi, -, h⟩ := Option.bind_eq_some_iff.mp h
  obtain ⟨lo, -, h⟩ := Option.bind_eq_some_iff.mp h
  cases h
  have h1 := hi.toNat_lt
  have h2 := lo.toNat_lt
  rw [shiftLeft_or_byte _ _ h2]
  omega

theorem readU16_eq_none_iff {packet : Bytes} {offset : Nat} :
    readU16 packet offset = none ↔ packet.length < offset + 2 := by
  constructor
  · intro h
    by_contra hlen
    obtain ⟨v, hv⟩ := readU16_some packet (show offset + 1 < packet.length by omega)
    rw [h] at hv
    cases hv
  · intro h
    rw [readU16, List.getElem?_eq_none (show packet.length ≤ offset + 1 by omega)]
    cases packet[offset]? <;> rfl

theorem readU32_eq_none_iff {packet : Bytes} {offset : Nat} :
    readU32 packet offset = none ↔ packet.length < offset + 4 := by
  constructor
  · intro h
    by_contra hlen
    obtain ⟨v, hv⟩ := readU32_some packet (show offset + 3 < packet.length by omega)
    rw [h] at hv
    cases hv
  · intro h
    rw [readU32, readU16_eq_none_iff.mpr (show packet.length < offset + 2 + 2 by omega)]
    cases readU16 packet offset <;> rfl

/-- The header makes the parser return, or go to the questions with its two counts. -/
theorem step_start {r : Option IpAddr} (h : parseDnsResponse packet id qtype = some r) :
    Parser.step packet id qtype .start = some (.returned r) ∨
      ∃ (qdcount ancount : UInt16) (stop : Option Nat),
        Parser.step packet id qtype .start = some (.questions qdcount ancount 0 12) ∧
        skipQuestions packet qdcount.toNat 12 = some stop ∧
        stop.elim (some none) (findAnswer packet qtype ancount.toNat) = some r := by
  unfold parseDnsResponse at h
  rw [Parser.step]
  split at h
  · rename_i hlen
    cases h
    exact .inl (if_pos hlen)
  · rename_i hlen
    obtain ⟨rid, hrid, h⟩ := Option.bind_eq_some_iff.mp h
    rw [if_neg hlen, hrid, Option.bind_eq_bind, Option.bind_some]
    split at h
    · rename_i hne
      cases h
      exact .inl (if_pos hne)
    · rename_i heq
      obtain ⟨flags, hflags, h⟩ := Option.bind_eq_some_iff.mp h
      rw [if_neg heq, hflags, Option.bind_some]
      split at h
      · rename_i hbad
        cases h
        exact .inl (if_pos hbad)
      · rename_i hgood
        obtain ⟨qdcount, hqd, h⟩ := Option.bind_eq_some_iff.mp h
        obtain ⟨ancount, han, h⟩ := Option.bind_eq_some_iff.mp h
        obtain ⟨stop, hskip, h⟩ := Option.bind_eq_some_iff.mp h
        rw [if_neg hgood, hqd, han]
        refine .inr ⟨UInt16.ofNat qdcount, UInt16.ofNat ancount, stop, rfl, ?_, ?_⟩
        · rw [UInt16.toNat_ofNat_of_lt' (readU16_lt hqd)]
          exact hskip
        · rw [UInt16.toNat_ofNat_of_lt' (readU16_lt han)]
          cases stop <;> exact h

/-- From the header on, whatever it says. -/
theorem within_start {r : Option IpAddr} (h : parseDnsResponse packet id qtype = some r) :
    Within (Parser.step packet id qtype) stepBound .start (.returned r) := by
  rcases step_start h with hret | ⟨qdcount, ancount, stop, hstart, hskip, h⟩
  · exact .step (.returned r) hret (.refl _ _)
  · have hbound := bound_le_stepBound qdcount.toNat_lt ancount.toNat_lt
    have hzero (n : Nat) : (0 : UInt16).toNat + n = n := Nat.zero_add n
    have hquestions := Within.step _ hstart (within_questions ancount (hzero _) hskip)
    cases stop with
    | none =>
      cases h
      exact hquestions.mono (Nat.le_trans (by omega) hbound)
    | some offset =>
      have hanswers : Within (Parser.step packet id qtype) _ (.answers ancount 0 offset) _ :=
        within_answers (hzero _) h
      exact (hquestions.trans hanswers).mono (Nat.le_trans (by omega) hbound)

/-- Whatever the packet, the id and the type, the parser returns, after a bounded number of steps
    none of which reads outside the packet; a read of a number fails exactly if one of its bytes
    lies outside. -/
theorem parse_returns_in_bounds (packet : Bytes) (id qtype : Nat) :
    (∃ r, parseDnsResponse packet id qtype = some r ∧
      Within (Parser.step packet id qtype) stepBound .start (.returned r)) ∧
      ∀ offset, (readU16 packet offset = none ↔ packet.length < offset + 2) ∧
        (readU32 packet offset = none ↔ packet.length < offset + 4) := by
  obtain ⟨r, hr⟩ := parseDnsResponse_some packet id qtype
  exact ⟨⟨r, hr, within_start hr⟩,
    fun offset => ⟨readU16_eq_none_iff, readU32_eq_none_iff⟩⟩

end Ovpn2ss.Dns
