/-
  How the client cuts its plaintext into chunks.

  `process_decrypted_chunk` parses the target address from one chunk. A chunk that holds only
  part of the header is taken for an invalid address: the session is closed, and a later chunk
  that happens to start like an address is connected to instead. So what becomes of a stream
  depends on the cut, and `cuts_served_iff` says on what: the first chunk has to hold the
  whole header.
-/
import Ovpn2ss.AddressCodec
import Ovpn2ss.Tcp.Client
import Ovpn2ss.Tcp.Closed

namespace Ovpn2ss.Tcp

open Ovpn2ss.Aead Ovpn2ss.Lib Ovpn2ss.Lwip

namespace TcpRelaySession

variable {P : Platform} {lw : Answers} {s s' : TcpRelaySession} {stream payload : Bytes}
  {target : TargetAddress} {chunks post cut cut' : List Bytes}

/-! ## What becomes of a list of chunks -/

/-- The target `process_decrypted_chunk` passes to `connect_target`. -/
def targetOf (s : TcpRelaySession) (chunk : Bytes) : Option TargetAddress :=
  if s.gotTarget then none else (parseSsAddress chunk).map Prod.fst

variable (P lw) in
/-- The targets passed to `connect_target` while a list of chunks is processed. -/
def handed : TcpRelaySession → List Bytes → List TargetAddress
  | _, [] => []
  | s, chunk :: chunks =>
    (s.targetOf chunk).toList ++
      match s.processDecryptedChunk P lw chunk with
      | (.error _, _) => []
      | (.ok (), s) => handed s chunks

/-- The targets connected to, the upstream bytes queued, an exception, and whether the session was
    closed. -/
structure Outcome where
  targets : List TargetAddress
  queued : Bytes
  result : Except String Unit
  closing : Bool

variable (P lw) in
def outcome (s : TcpRelaySession) (chunks : List Bytes) : Outcome :=
  let r := processAll P lw s chunks
  ⟨handed P lw s chunks, r.2.pendingLwip.flatten, r.1, r.2.closing⟩

/-- `cut` is a way to send `stream`: chunks of 1 to 0x3fff bytes. -/
structure Cuts (cut : List Bytes) (stream : Bytes) : Prop where
  bytes : cut.flatten = stream
  sizes : ∀ chunk ∈ cut, chunk ≠ [] ∧ chunk.length ≤ 0x3fff

/-- The first chunk holds at least `n` bytes. -/
def Leads (n : Nat) (cut : List Bytes) : Prop := n ≤ (cut.headD []).length

theorem handed_of_target (h : s.gotTarget = true) (chunks : List Bytes) :
    handed P lw s chunks = [] := by
  induction chunks generalizing s with
  | nil => rfl
  | cons chunk chunks ih =>
    rw [handed, targetOf, if_pos h, processDecryptedChunk, if_pos h, queueLwip_eq]
    exact ih (s := s.queued (payloads [chunk])) h

theorem handed_bad (h : s.gotTarget = false) {bad : List Bytes}
    (hbad : ∀ b ∈ bad, parseSsAddress b = none) (chunks : List Bytes) :
    handed P lw s (bad ++ chunks) = handed P lw (if bad = [] then s else s.close lw) chunks := by
  induction bad generalizing s with
  | nil => rfl
  | cons b bad ih =>
    have hb := hbad b List.mem_cons_self
    have hg : ¬ s.gotTarget = true := by
      rw [h]
      decide
    have hp : s.processDecryptedChunk P lw b = (.ok (), s.close lw) := by
      rw [processDecryptedChunk, if_neg hg, hb]
    have hgot : (s.close lw).gotTarget = false :=
      ((close_frame lw s).target (by decide)).trans h
    rw [List.cons_append, handed, targetOf, if_neg hg, hb, hp]
    dsimp only
    rw [ih hgot fun b hb => hbad b (List.mem_cons_of_mem _ hb), close_close, ite_self,
      if_neg (List.cons_ne_nil b bad)]
    rfl

theorem handed_address (h : s.gotTarget = false) {chunk rest : Bytes}
    (haddr : parseSsAddress chunk = some (target, rest)) (post : List Bytes) :
    handed P lw s (chunk :: post) = [target] := by
  have hg : ¬ s.gotTarget = true := by
    rw [h]
    decide
  have hgot : ({ s with gotTarget := true }.connectTarget P lw target).2.gotTarget = true :=
    (connectTarget_frame P lw _ target).target (by decide)
  rw [handed, targetOf, if_neg hg, haddr, processDecryptedChunk, if_neg hg, haddr]
  dsimp only
  generalize { s with gotTarget := true }.connectTarget P lw target = r at hgot
  rcases r with ⟨e | _, t⟩
  · rfl
  · dsimp only
    rw [queueLwip_eq, handed_of_target (s := t.queued (payloads [rest])) hgot]
    rfl

/-- What is to become of a request: `connect_target` is called for its target and, if that returns,
    its payload is queued. -/
def served (P : Platform) (lw : Answers) (s : TcpRelaySession) (target : TargetAddress)
    (payload : Bytes) : Outcome :=
  match { s with gotTarget := true }.connectTarget P lw target with
  | (.error e, t) => ⟨[target], s.pendingLwip.flatten, .error e, t.closing⟩
  | (.ok (), t) => ⟨[target], s.pendingLwip.flatten ++ payload, .ok (), t.closing⟩

/-- A chunk with an address is served, with the chunks behind it as payload. -/
theorem outcome_address (h : s.gotTarget = false) {chunk rest : Bytes}
    (haddr : parseSsAddress chunk = some (target, rest)) (post : List Bytes) :
    outcome P lw s (chunk :: post) = served P lw s target (rest ++ post.flatten) := by
  have hgot : ({ s with gotTarget := true }.connectTarget P lw target).2.gotTarget = true :=
    (connectTarget_frame P lw _ target).target (by decide)
  have hqueue := ((connectTarget_frame P lw { s with gotTarget := true } target).untouched (by decide)).queue
  rw [outcome, handed_address h haddr, processAll_address P h haddr, served]
  generalize { s with gotTarget := true }.connectTarget P lw target = r at hgot hqueue ⊢
  rcases r with ⟨e | _, t⟩
  · dsimp only at hqueue ⊢
    rw [hqueue]
  · dsimp only at hgot hqueue ⊢
    rw [processAll_of_target P (s := t.queued (payloads [rest])) hgot, queued_queued, queued, hqueue,
      ← payloads_cons, List.flatten_append, flatten_payloads, List.flatten_cons]

/-- Chunks without an address close the session. -/
theorem outcome_bad (P : Platform) (lw : Answers) (h : s.gotTarget = false) {bad : List Bytes}
    (hbad : ∀ b ∈ bad, parseSsAddress b = none) (hne : bad ≠ []) (chunks : List Bytes) :
    outcome P lw s (bad ++ chunks) = outcome P lw (s.close lw) chunks := by
  rw [outcome, handed_bad h hbad, processAll_bad P h hbad, if_neg hne]
  rfl

/-! ## Where the header ends -/

/-- The parser needs the whole header and nothing more. -/
theorem parseSsAddress_chunk {chunk : Bytes} {rest : Bytes} (hstream : chunk ++ rest = stream)
    (haddr : parseSsAddress stream = some (target, payload)) :
    if target.size ≤ chunk.length then
      ∃ first, parseSsAddress chunk = some (target, first) ∧ first ++ rest = payload
    else parseSsAddress chunk = none := by
  obtain ⟨e, he, rfl⟩ := parseSsAddress_iff.mp haddr
  rw [← he.length]
  split
  · next hlen =>
    obtain ⟨first, rfl⟩ := List.prefix_of_prefix_length_le (List.prefix_append e payload)
      (hstream ▸ List.prefix_append chunk rest) hlen
    rw [List.append_assoc] at hstream
    exact ⟨first, parseSsAddress_iff.mpr ⟨e, he, rfl⟩, List.append_cancel_left hstream⟩
  · next hlen =>
    -- an address read from part of the header would be read from the stream as well
    cases hp : parseSsAddress chunk with
    | none => rfl
    | some found =>
      obtain ⟨e', he', rfl⟩ := parseSsAddress_iff.mp (hp.trans (congrArg some (Prod.mk.eta).symm))
      have hagain : parseSsAddress (e ++ payload) = some (found.1, found.2 ++ rest) :=
        parseSsAddress_iff.mpr ⟨e', he', by rw [← hstream, List.append_assoc]⟩
      rw [haddr] at hagain
      have htarget := (Prod.mk.inj (Option.some.inj hagain)).1
      rw [List.length_append, he'.length, ← htarget, ← he.length] at hlen
      omega

/-- Whether `connect_target` throws does not depend on the session. -/
theorem connectTarget_result (P : Platform) (lw : Answers) (s s' : TcpRelaySession)
    (target : TargetAddress) :
    (s.connectTarget P lw target).1 = (s'.connectTarget P lw target).1 := by
  unfold connectTarget resolveDomainThenConnect
  split
  · cases lw.resolveThrows <;> rfl
  · cases P.ipaddrAton target.host <;> rfl

/-- An exception of `connect_target` leaves the session as open as it was. -/
theorem connectTarget_throws {e : String} {t : TcpRelaySession}
    (h : s.connectTarget P lw target = (.error e, t)) : t.closing = s.closing := by
  rcases connectTarget_cases P lw s target with ⟨-, r, he⟩ | ⟨-, -, e', he⟩ | ⟨-, ip, -, he⟩ <;>
    rw [he] at h
  · obtain rfl := (Prod.mk.inj h).2
    rfl
  · obtain rfl := (Prod.mk.inj h).2
    rfl
  · cases (Prod.mk.inj h).1

theorem served_targets (P : Platform) (lw : Answers) (s : TcpRelaySession) (target : TargetAddress)
    (payload : Bytes) : (served P lw s target payload).targets = [target] := by
  unfold served
  split <;> rfl

/-- A request served after the session was closed is not the stream's: it has less payload, or
    the session is closed before `connect_target` throws. -/
theorem served_close_ne (hopen : s.closing = false) {less payload : Bytes}
    (hless : less.length < payload.length) :
    served P lw (s.close lw) target less ≠ served P lw s target payload := by
  have hres := connectTarget_result P lw { s.close lw with gotTarget := true }
    { s with gotTarget := true } target
  have hq : (s.close lw).pendingLwip = s.pendingLwip := ((close_frame lw s).untouched (by decide)).queue
  unfold served
  rcases hr : { s.close lw with gotTarget := true }.connectTarget P lw target with ⟨e | _, t⟩ <;>
    rcases hr' : { s with gotTarget := true }.connectTarget P lw target with ⟨e' | _, t'⟩ <;>
      rw [hr, hr'] at hres ⊢ <;> intro h
  · have hclosing : t.closing = t'.closing := congrArg Outcome.closing h
    rw [connectTarget_throws hr, connectTarget_throws hr'] at hclosing
    have hc : s.closing = true := hclosing.symm.trans (close_closing lw s)
    rw [hopen] at hc
    cases hc
  · cases hres
  · cases hres
  · have hbytes := congrArg (List.length ∘ Outcome.queued) h
    simp only [Function.comp, hq, List.length_append] at hbytes
    omega

/-! ## Every cut -/

/-- A cut is served as the stream asks exactly if the first chunk holds the whole header. -/
theorem cut_served_iff (hfresh : s.gotTarget = false) (hopen : s.closing = false)
    (haddr : parseSsAddress stream = some (target, payload)) (hcut : Cuts cut stream) :
    outcome P lw s cut = served P lw s target payload ↔ Leads target.size cut := by
  have hgot : (s.close lw).gotTarget = false :=
    ((close_frame lw s).target (by decide)).trans hfresh
  cases cut with
  | nil =>
    rw [← hcut.bytes] at haddr
    cases haddr
  | cons chunk rest =>
    have hbytes : chunk ++ rest.flatten = stream := hcut.bytes
    have hchunk := parseSsAddress_chunk hbytes haddr
    by_cases hlead : target.size ≤ chunk.length
    · rw [if_pos hlead] at hchunk
      obtain ⟨first, hparse, rfl⟩ := hchunk
      exact iff_of_true (outcome_address hfresh hparse rest) hlead
    · rw [if_neg hlead] at hchunk
      refine iff_of_false (fun hserved => ?_) hlead
      have htargets := congrArg Outcome.targets hserved
      rw [served_targets] at htargets
      rcases address_split rest with hall | ⟨bad, c, post, found, more, rfl, hbad, hparse⟩
      · have hout := outcome_bad P lw hfresh (List.forall_mem_cons.mpr ⟨hchunk, hall⟩)
          (List.cons_ne_nil _ _) []
        rw [List.append_nil] at hout
        rw [hout] at htargets
        cases htargets
      · have hout := outcome_bad P lw hfresh (List.forall_mem_cons.mpr ⟨hchunk, hbad⟩)
          (List.cons_ne_nil _ _) (c :: post)
        rw [outcome_address hgot hparse, List.cons_append] at hout
        rw [hout, served_targets] at htargets
        obtain rfl := List.singleton_inj.mp htargets
        rw [hout] at hserved
        refine served_close_ne hopen ?_ hserved
        -- the header of the second address is as long as that of the first
        obtain ⟨e, he, hstream⟩ := parseSsAddress_iff.mp haddr
        obtain ⟨e', he', rfl⟩ := parseSsAddress_iff.mp hparse
        have hne := List.length_pos_of_ne_nil (hcut.sizes chunk List.mem_cons_self).1
        have hlen := congrArg List.length (hbytes.trans hstream)
        simp only [List.flatten_append, List.flatten_cons, List.length_append, he.length,
          he'.length] at hlen ⊢
        omega

/-- Chunk boundaries matter to the header only. Two ways to cut a stream are both served as the
    stream asks, with the same target and the same bytes, exactly if in both of them the first
    chunk holds the whole header; and where one of them has the header in its first chunk, the
    other gives the same result exactly if it has, too. -/
theorem cuts_served_iff (hfresh : s.gotTarget = false) (hopen : s.closing = false)
    (haddr : parseSsAddress stream = some (target, payload)) (hcut : Cuts cut stream)
    (hcut' : Cuts cut' stream) :
    (outcome P lw s cut = served P lw s target payload ∧
        outcome P lw s cut' = served P lw s target payload ↔
      Leads target.size cut ∧ Leads target.size cut') ∧
    (Leads target.size cut' → (outcome P lw s cut = outcome P lw s cut' ↔ Leads target.size cut)) := by
  have hiff : outcome P lw s cut = served P lw s target payload ↔ Leads target.size cut :=
    cut_served_iff hfresh hopen haddr hcut
  have hiff' : outcome P lw s cut' = served P lw s target payload ↔ Leads target.size cut' :=
    cut_served_iff hfresh hopen haddr hcut'
  refine ⟨and_congr hiff hiff', fun hlead' => ?_⟩
  rw [hiff'.mpr hlead']
  exact hiff

/-- The target 10.0.0.1 port 80 and the payload byte 9, in two chunks and in one. -/
theorem cuts_served_demo :
    ∃ s, Reaches demoPlatform demoCrypto [⟨.saltRead (some (zeroBlock SaltSize)), willing⟩] s ∧
      outcome demoPlatform willing s [ipTarget, [9]] =
        served demoPlatform willing s ⟨.Ipv4, ipv4Text [10, 0, 0, 1], 80⟩ [9] ∧
      outcome demoPlatform willing s [ipTarget ++ [9]] =
        served demoPlatform willing s ⟨.Ipv4, ipv4Text [10, 0, 0, 1], 80⟩ [9] := by
  obtain ⟨s, h, hg, hc⟩ : ∃ s, Reaches demoPlatform demoCrypto
      [⟨.saltRead (some (zeroBlock SaltSize)), willing⟩] s ∧ s.gotTarget = false ∧
      s.closing = false := ⟨_, rfl, rfl, rfl⟩
  have hcut : Cuts [ipTarget, [9]] (ipTarget ++ [9]) := ⟨rfl, by decide⟩
  have hcut' : Cuts [ipTarget ++ [9]] (ipTarget ++ [9]) := ⟨rfl, by decide⟩
  have haddr : parseSsAddress (ipTarget ++ [9]) =
      some (⟨.Ipv4, ipv4Text [10, 0, 0, 1], 80⟩, [9]) := rfl
  exact ⟨s, h, (cuts_served_iff hg hc haddr hcut hcut').1.mpr
    ⟨Nat.le_refl 7, Nat.le_succ 7⟩⟩

/-- The same stream in two chunks: cut behind the header it is connected to and the byte is queued;
    cut after three bytes of the header, the session is closed and nothing is connected. -/
theorem cut_inside_header :
    [ipTarget, [9]].flatten = [ipTarget.take 3, ipTarget.drop 3 ++ [9]].flatten ∧
    (∃ s, Reaches demoPlatform demoCrypto (demoOpening [ipTarget, [9]]) s ∧ s.closing = false ∧
      s.trace = [.asyncReadSome, .tcpConnect ⟨false, [10, 0, 0, 1]⟩ 80, .accept [9], .tcpWrite [9],
        .asyncReadSome]) ∧
    ∃ s, Reaches demoPlatform demoCrypto (demoOpening [ipTarget.take 3, ipTarget.drop 3 ++ [9]]) s ∧
      s.closing = true ∧ s.trace = [.asyncReadSome, .socketClose] :=
  ⟨rfl, ⟨_, rfl, rfl, rfl⟩, _, rfl, rfl, rfl⟩

end TcpRelaySession

end Ovpn2ss.Tcp
