/-
  Upstream exactness: what the relay sends is what the client asked it to send.

  `requested` reads the processed chunks as a client means them: an address, and behind it the
  payload. Processing a chunk accepts what it adds to the request (`Exact`, chunk by chunk and
  then read by read), and an accepted byte is written or queued (`Ledger`). So at any moment
  the data `tcp_write` took and the queue are the request (`upstream_exact`).

  A chunk whose target cannot be connected to throws before its payload is accepted. The session
  is closed then, with no read left that could bring another chunk.
-/
import Ovpn2ss.Tcp.ReadLoop

namespace Ovpn2ss.Tcp.TcpRelaySession

open Ovpn2ss.Aead Ovpn2ss.Lib Ovpn2ss.Lwip

variable {P : Platform} {lw : Answers} {s s' : TcpRelaySession} {chunks : List Bytes}

/-! ## The request -/

/-- The payload a list of chunks asks to be sent: what follows the address in the first chunk with
    one, and the chunks after it. -/
def requested : List Bytes → Bytes
  | [] => []
  | chunk :: chunks =>
    match parseSsAddress chunk with
    | none => requested chunks
    | some (_, rest) => rest ++ chunks.flatten

theorem requested_address {chunk rest : Bytes} {target : TargetAddress}
    (h : parseSsAddress chunk = some (target, rest)) (chunks : List Bytes) :
    requested (chunk :: chunks) = rest ++ chunks.flatten := by
  rw [requested, h]

theorem requested_append_of_none (h : ∀ c ∈ chunks, parseSsAddress c = none) (more : List Bytes) :
    requested (chunks ++ more) = requested more := by
  induction chunks with
  | nil => rfl
  | cons c chunks ih =>
    rw [List.cons_append, requested, h c List.mem_cons_self]
    exact ih fun c hc => h c (List.mem_cons_of_mem _ hc)

theorem requested_of_none (h : ∀ c ∈ chunks, parseSsAddress c = none) : requested chunks = [] := by
  rw [← List.append_nil chunks, requested_append_of_none h, requested]

theorem requested_append_of_some (h : ∃ c ∈ chunks, parseSsAddress c ≠ none) (more : List Bytes) :
    requested (chunks ++ more) = requested chunks ++ more.flatten := by
  induction chunks with
  | nil =>
    obtain ⟨c, hc, -⟩ := h
    cases hc
  | cons c chunks ih =>
    rw [List.cons_append]
    rcases haddr : parseSsAddress c with _ | ⟨target, rest⟩
    · rw [requested, requested, haddr]
      refine ih ?_
      obtain ⟨d, hd, hsome⟩ := h
      rcases List.mem_cons.mp hd with rfl | hd
      · exact absurd haddr hsome
      · exact ⟨d, hd, hsome⟩
    · rw [requested_address haddr, requested_address haddr, List.flatten_append, List.append_assoc]

/-! ## Processing accepts the request -/

/-- The processed chunks hold an address exactly if the session has its target, and what was
    accepted is what they request. -/
structure Exact (chunks : List Bytes) (s : TcpRelaySession) : Prop where
  taken : accepted s.trace = requested chunks
  fresh : s.gotTarget = false → ∀ c ∈ chunks, parseSsAddress c = none
  known : s.gotTarget = true → ∃ c ∈ chunks, parseSsAddress c ≠ none

theorem Exact.of_same (h : Exact chunks s) (hg : s'.gotTarget = s.gotTarget)
    (ht : accepted s'.trace = accepted s.trace) : Exact chunks s' := by
  refine ⟨ht.trans h.taken, ?_, ?_⟩
  · rw [hg]
    exact h.fresh
  · rw [hg]
    exact h.known

theorem Exact.unread (h : Exact chunks s) (hu : Unread s s') : Exact chunks s' :=
  h.of_same hu.target hu.taken

theorem accepted_queueLwip (s : TcpRelaySession) (bytes : Bytes) :
    accepted (s.queueLwip bytes).trace = accepted s.trace ++ bytes := by
  rw [queueLwip_eq, queued, accepted_append, accepted_map_accept, flatten_payloads]
  simp

theorem queueLwip_gotTarget (s : TcpRelaySession) (bytes : Bytes) :
    (s.queueLwip bytes).gotTarget = s.gotTarget := by
  rw [queueLwip_eq]
  rfl

/-- A chunk that is processed adds what it requests. -/
theorem Exact.processDecryptedChunk (h : Exact chunks s) {chunk : Bytes} {t : TcpRelaySession}
    (hp : s.processDecryptedChunk P lw chunk = (.ok (), t)) : Exact (chunks ++ [chunk]) t := by
  unfold TcpRelaySession.processDecryptedChunk at hp
  cases hg : s.gotTarget with
  | true =>
    rw [if_pos hg] at hp
    obtain ⟨-, rfl⟩ := Prod.mk.inj hp
    obtain ⟨c, hc, hsome⟩ := h.known hg
    refine ⟨?_, ?_, fun _ => ⟨c, List.mem_append_left _ hc, hsome⟩⟩
    · rw [accepted_queueLwip, h.taken, requested_append_of_some ⟨c, hc, hsome⟩,
        List.flatten_singleton]
    · rw [queueLwip_gotTarget, hg]
      nofun
  | false =>
    rw [if_neg (Bool.eq_false_iff.mp hg)] at hp
    have hnone := h.fresh hg
    have hacc : accepted s.trace = [] := h.taken.trans (requested_of_none hnone)
    rcases haddr : parseSsAddress chunk with _ | ⟨target, rest⟩ <;> rw [haddr] at hp
    · obtain ⟨-, rfl⟩ := Prod.mk.inj hp
      have hu := (close_frame lw s).unread (by decide)
      have hall : ∀ c ∈ chunks ++ [chunk], parseSsAddress c = none := by
        intro c hc
        rcases List.mem_append.mp hc with hc | hc
        · exact hnone c hc
        · rw [List.mem_singleton.mp hc, haddr]
      refine ⟨?_, fun _ => hall, ?_⟩
      · rw [hu.taken, hacc, requested_of_none hall]
      · rw [hu.target, hg]
        nofun
    · have hu := (connectTarget_frame P lw { s with gotTarget := true } target).unread (by decide)
      dsimp only at hp
      generalize { s with gotTarget := true }.connectTarget P lw target = r at hp hu
      rcases r with ⟨e | _, u⟩
      · cases hp
      · obtain ⟨-, rfl⟩ := Prod.mk.inj hp
        refine ⟨?_, ?_, fun _ => ⟨chunk, by simp, by rw [haddr]; exact Option.some_ne_none _⟩⟩
        · rw [accepted_queueLwip, hu.taken, requested_append_of_none hnone, requested_address haddr]
          simp [hacc]
        · rw [queueLwip_gotTarget, hu.target]
          nofun

/-- A chunk that throws is the one whose target could not be connected to; nothing of it is
    accepted. -/
theorem Exact.processThrows (h : Exact chunks s) {chunk : Bytes} {e : String} {t : TcpRelaySession}
    (hp : s.processDecryptedChunk P lw chunk = (.error e, t)) :
    accepted t.trace = requested chunks ∧ s.gotTarget = false := by
  unfold TcpRelaySession.processDecryptedChunk at hp
  split at hp
  · cases hp
  · rename_i hg
    split at hp
    · cases hp
    · rename_i target bytes _
      have hu := (connectTarget_frame P lw { s with gotTarget := true } target).unread (by decide)
      split at hp
      · rename_i he
        cases hp
        rw [he] at hu
        exact ⟨hu.taken.trans h.taken, Bool.eq_false_iff.mpr hg⟩
      · cases hp

/-- The chunks of a read are processed, or one of them throws before the session has its target. -/
theorem Exact.processAll (P : Platform) (lw : Answers) (h : Exact chunks s) (more : List Bytes) :
    (TcpRelaySession.processAll P lw s more).1 = .ok () ∧
      Exact (chunks ++ returned P lw s more) (TcpRelaySession.processAll P lw s more).2 ∨
    (TcpRelaySession.processAll P lw s more).1 ≠ .ok () ∧
      accepted (TcpRelaySession.processAll P lw s more).2.trace =
        requested (chunks ++ returned P lw s more) ∧ s.gotTarget = false := by
  induction more generalizing s chunks with
  | nil => exact Or.inl ⟨rfl, by rwa [returned, List.append_nil]⟩
  | cons chunk more ih =>
    rw [TcpRelaySession.processAll, returned]
    rcases hp : s.processDecryptedChunk P lw chunk with ⟨e | _, t⟩
    · rw [List.append_nil]
      exact Or.inr ⟨fun hok => (by cases hok), h.processThrows hp⟩
    · have ht := h.processDecryptedChunk hp
      have hassoc (more : List Bytes) : chunks ++ chunk :: more = chunks ++ [chunk] ++ more := by simp
      dsimp only
      rw [hassoc]
      rcases ih ht with hok | ⟨hthrow, hacc, hg⟩
      · exact Or.inl hok
      · refine Or.inr ⟨hthrow, hacc, Bool.eq_false_iff.mpr fun hgs => ?_⟩
        obtain ⟨c, hc, hsome⟩ := h.known hgs
        exact hsome (ht.fresh hg c (List.mem_append_left _ hc))

/-! ## Runs -/

/-- What was accepted is the request, in a session that still reads or in one that never will. -/
def Accounted (chunks : List Bytes) (s : TcpRelaySession) : Prop :=
  Exact chunks s ∨ accepted s.trace = requested chunks ∧ s.closing = true ∧ s.reads = 0

theorem Accounted.unread (h : Accounted chunks s) (hu : Unread s s') : Accounted chunks s' := by
  rcases h with h | ⟨hacc, hc, hr⟩
  · exact Or.inl (h.unread hu)
  · obtain ⟨hc', hr'⟩ := hu.closing hc
    exact Or.inr ⟨hu.taken.trans hacc, hc', Nat.le_zero.mp (hr'.trans_eq hr)⟩

/-- A read adds its processed chunks. If one of them throws, it was the only read. -/
theorem Exact.onClientData (h : Exact chunks s) (hidle : s.gotTarget = false → s.reads = 0)
    (bytes : Bytes) :
    Accounted (chunks ++ returned P lw s (s.chunksOf P bytes)) (s.onClientData P lw bytes) := by
  have hreads := ((processAll_frame P lw s (s.chunksOf P bytes)).sameReads (by decide) (by decide)).reads
  have hall := h.processAll P lw (s.chunksOf P bytes)
  rcases onClientData_cases P lw s bytes with ⟨t, hp, -, he⟩ | ⟨r, t, c, hp, -, -, he⟩ <;>
    rw [hp] at hreads hall <;> rw [he]
  · rcases hall with ⟨-, hex⟩ | ⟨hthrow, -⟩
    · have hin : Exact (chunks ++ returned P lw s (s.chunksOf P bytes))
          (t.withInput (s.decrypted P bytes).state (s.decrypted P bytes).rest) := hex.of_same rfl rfl
      exact Or.inl (hin.unread ((flushRead_frame lw _).unread (by decide)))
    · exact absurd rfl hthrow
  · have hu := (close_frame lw (t.withInput c (s.encryptedIn ++ bytes))).unread (by decide)
    rcases hall with ⟨-, hex⟩ | ⟨-, hacc, hg⟩
    · have hin : Exact (chunks ++ returned P lw s (s.chunksOf P bytes))
          (t.withInput c (s.encryptedIn ++ bytes)) := hex.of_same rfl rfl
      exact Or.inl (hin.unread hu)
    · have hr := (close_frame lw (t.withInput c (s.encryptedIn ++ bytes))).sameReads (by decide) (by decide)
      exact Or.inr ⟨hu.taken.trans hacc, close_closing lw _, hr.reads.trans (hreads.trans (hidle hg))⟩

theorem accounted_step {log : List (Bytes × List Bytes)} {i : Input} (hR : Reading 0 s)
    (h : Accounted (processed log) s) (hs : s.step P i = some s') :
    Accounted (processed (log ++ readLog P s i)) s' := by
  rcases step_reads hs with ⟨bytes, he, hpos, rfl⟩ | ⟨salt, he, hsalt, rfl⟩ | ⟨he, hu⟩
  · rw [readLog, he, processed_append]
    rcases h with h | ⟨-, -, hr⟩
    · have hread : Exact (processed log) { s with reads := s.reads - 1 } := h.of_same rfl rfl
      refine hread.onClientData (fun hg => ?_) bytes
      have hle := (hR.fresh hg).2.2.2.2.2.1
      show s.reads - 1 = 0
      omega
    · omega
  · have hlog : log ++ readLog P s i = log := by
      rw [readLog, he]
      exact List.append_nil log
    rw [hlog]
    rcases onSaltRead_cases P i.lw { s with saltPending := false } salt with heq | ⟨key, heq⟩ <;>
      rw [heq]
    · have hdone : Accounted (processed log) { s with saltPending := false } :=
        h.imp_left fun h => h.of_same rfl rfl
      exact hdone.unread ((close_frame _ _).unread (by decide))
    · have hkey : Accounted (processed log) ({ s with saltPending := false }.keyed key) :=
        h.imp_left fun h => h.of_same rfl rfl
      exact hkey.unread ((readEncryptedStream_frame _).unread (by decide))
  · rw [readLog_of_not_data he, List.append_nil]
    exact h.unread hu

theorem accounted_run {crypto : ShadowsocksAeadSession} {is : List Input} (h : Reaches P crypto is s) :
    accepted s.trace = requested (processed (collect (step P) (readLog P) (start crypto) is)) := by
  have hinv := run_collect_inv (readLog P)
    (fun log s => Reading 0 s ∧ Accounted (processed log) s)
    (fun _ _ _ _ hI hs => ⟨reading_step hI.1 hs, accounted_step hI.1 hI.2 hs⟩)
    ⟨reading_start crypto, Or.inl ⟨rfl, fun _ _ hc => (by cases hc), fun hg => (by cases hg)⟩⟩ h
  rcases hinv.2 with hex | ⟨hacc, -⟩
  · exact hex.taken
  · exact hacc

/-- The chunks of a read for which processing returned are among those it decrypted. -/
theorem returned_subset {chunk : Bytes} (more : List Bytes) (h : chunk ∈ returned P lw s more) :
    chunk ∈ more := by
  induction more generalizing s with
  | nil => cases h
  | cons c more ih =>
    rw [returned] at h
    rcases hp : s.processDecryptedChunk P lw c with ⟨e | _, t⟩ <;> rw [hp] at h
    · cases h
    · rcases List.mem_cons.mp h with rfl | h
      · exact List.mem_cons_self
      · exact List.mem_cons_of_mem _ (ih h)

theorem processed_le {is : List Input} {chunk : Bytes}
    (h : chunk ∈ processed (collect (step P) (readLog P) s is)) : chunk.length ≤ 0x3fff := by
  obtain ⟨entry, hentry, hchunk⟩ := List.mem_flatMap.mp h
  obtain ⟨t, i, hout⟩ := mem_collect hentry
  unfold readLog at hout
  split at hout
  · rw [List.mem_singleton.mp hout] at hchunk
    exact chunksOf_le P (returned_subset _ hchunk)
  · cases hout

/-- Upstream exactness. In every run, at every moment: if the first chunk that
    `process_decrypted_chunk` returned from holds the target address, what `tcp_write` has taken,
    followed by the queue, is the rest of that chunk and the chunks after it, byte for byte; and
    none of the buffers is longer than the 16-bit length argument of `tcp_write` can say. -/
theorem upstream_exact {crypto : ShadowsocksAeadSession} {is : List Input} {first rest : Bytes}
    {tail : List Bytes} {target : TargetAddress} (h : Reaches P crypto is s)
    (hchunks : processed (collect (step P) (readLog P) (start crypto) is) = first :: tail)
    (haddr : parseSsAddress first = some (target, rest)) :
    written s.trace ++ s.pendingLwip.flatten = rest ++ tail.flatten ∧
    ∀ p ∈ rest :: tail ++ s.pendingLwip, u16Sized p = p := by
  have hled := ledger_run h
  have hle (c : Bytes) (hc : c ∈ first :: tail) : c.length ≤ 0x3fff := by
    rw [← hchunks] at hc
    exact processed_le hc
  refine ⟨?_, fun p hp => u16Sized_chunk ?_⟩
  · rw [← hled.bytes, accounted_run h, hchunks, requested_address haddr]
  · rcases List.mem_append.mp hp with hp | hp
    · rcases List.mem_cons.mp hp with rfl | hp
      · have := parseSsAddress_length haddr
        have := hle first List.mem_cons_self
        omega
      · exact hle p (List.mem_cons_of_mem _ hp)
    · exact (hled.chunks p hp).2

/-- The demo client asks for 10.0.0.1, port 80, and for two bytes to be sent in the same chunk and
    one in the next. lwIP has taken the two, and the one is queued. -/
theorem upstream_exact_demo :
    ∃ s, Reaches demoPlatform demoCrypto demoPaused s ∧ written s.trace = [7, 8] ∧
      s.pendingLwip = [[9]] ∧
      processed (collect (step demoPlatform) (readLog demoPlatform) (start demoCrypto) demoPaused) =
        [ipTarget ++ [7, 8], [9]] ∧
      written s.trace ++ s.pendingLwip.flatten = [7, 8, 9] := by
  have hrun : ∃ s, Reaches demoPlatform demoCrypto demoPaused s ∧ written s.trace = [7, 8] ∧
      s.pendingLwip = [[9]] ∧
      processed (collect (step demoPlatform) (readLog demoPlatform) (start demoCrypto) demoPaused) =
        [ipTarget ++ [7, 8], [9]] := ⟨_, rfl, rfl, rfl, rfl⟩
  obtain ⟨s, h, hwritten, hqueue, hchunks⟩ := hrun
  exact ⟨s, h, hwritten, hqueue, hchunks, (upstream_exact h hchunks rfl).1⟩

end Ovpn2ss.Tcp.TcpRelaySession
