/-
  The handlers of the io thread, cut where they do not hold the lwIP lock.

  `step` runs a handler in one piece. In the program `close`, `flush_to_lwip` and the write handler
  look at `pcb_` before they take the lock, and another thread may hold it meanwhile: the VPN thread
  in `netif_set_addr`, or the thread of any instance in `sys_check_timeouts`. lwIP can free the pcb
  there and call `on_err`. The other callbacks come with a packet, which the io thread injects
  itself, so they never meet a handler half-way.

  A `Section` holds the lock throughout, or looks at most once at what `on_err` changes, and `turn`
  interleaves the sections of the io thread with `on_err`. What the sections of a handler do without
  interruption is its step (`settles_step`), so every run of `step` is one of `turn`
  (`turns_of_run`).
-/
import Ovpn2ss.Tcp.ReadLoop

namespace Ovpn2ss.Tcp

open Ovpn2ss.Aead Ovpn2ss.Lib Ovpn2ss.Lwip

/-! ## Sections and turns -/

/-- What the io thread does next in a handler. -/
inductive Section where
  /-- `close`, with its test of `closing_`. -/
  | close
  | closeSocket
  /-- The test of `pcb_` in `close`. -/
  | closeTest
  | closeLocked
  /-- The test of `pcb_` in `flush_to_lwip`. -/
  | flushTest
  | flushLocked
  /-- `read_encrypted_stream`, with its test of `closing_`. -/
  | read
  | readSome
  /-- The loop of the read handler, with `view` before it. -/
  | chunks (view : Bytes)
  /-- The test of `pcb_` in the write handler. -/
  | creditTest
  | creditLocked
  | flushClient
  | shutdown
  /-- The last `if` of `handle_client_eof`. -/
  | eofTest

/-- Behind a test that found a pcb: the section takes the lock and uses `pcb_` without another look. -/
def Section.usesPcb : Section → Bool
  | .closeLocked | .flushLocked | .creditLocked => true
  | _ => false

/-- A session in the middle of a handler: what lwIP answers there, and what is left to do. -/
structure Threaded where
  session : TcpRelaySession
  lw : Answers
  todo : List Section

inductive Turn where
  /-- The io thread takes up an event. -/
  | handle (i : Input)
  /-- It goes on with the handler. -/
  | go
  /-- Another thread, with the lock, lets lwIP free the pcb, which calls `on_err`. -/
  | onErr

def Turn.input? : Turn → Option Input
  | .handle i => some i
  | _ => none

namespace TcpRelaySession

variable (P : Platform)

/-- What a handler does with a decrypted chunk and what is left to do then, `view` being what
    follows the chunk. -/
def chunkSection (lw : Answers) (s : TcpRelaySession) (chunk view : Bytes) :
    TcpRelaySession × List Section :=
  if s.gotTarget then (s.queueLwip chunk, [.chunks view])
  else
    match parseSsAddress chunk with
    | none => (s, [.close, .chunks view])
    | some (target, bytes) =>
      match { s with gotTarget := true }.connectTarget P lw target with
      | (.error _, s) => (s, [.close])
      | (.ok (), s) => (s.queueLwip bytes, [.chunks view])

/-- What a section does, and what is left to do then. Where `on_err` has come behind the test, the
    program hands lwIP a null pointer, and here nothing is done. -/
def perform (lw : Answers) (s : TcpRelaySession) : Section → TcpRelaySession × List Section
  | .close => (s, if s.closing then [] else [.closeSocket])
  | .closeSocket => ({ s with closing := true }.log .socketClose, [.closeTest])
  | .closeTest => if s.pcb.isSome then (s, [.closeLocked]) else ({ s with activeSelf := false }, [])
  | .closeLocked => ({ s.closePcb lw with activeSelf := false }, [])
  | .flushTest => (s, if s.pcb.isSome then [.flushLocked] else [])
  | .flushLocked => (s.flushToLwip lw, [])
  | .read => (s, if s.closing || s.clientReadPaused then [] else [.readSome])
  | .readSome => ({ s.log .asyncReadSome with reads := s.reads + 1 }, [])
  | .chunks view =>
    match s.crypto.decryptTcpChunk P.mbedtls view with
    | (.error _, crypto, _) => ({ s with crypto := crypto }, [.close])
    | (.ok none, crypto, view) =>
      let s := { s with crypto := crypto }
      let consumed := s.encryptedIn.length - view.length
      (if consumed ≠ 0 then { s with encryptedIn := view } else s, [.flushTest, .read])
    | (.ok (some chunk), crypto, view) => { s with crypto := crypto }.chunkSection P lw chunk view
  | .creditTest =>
    (s, if s.pcb.isSome ∧ s.clientQueueBytes < ClientQueueLowWater ∧ s.deferredTcpRecved ≠ 0 then
      [.creditLocked] else [])
  | .creditLocked => (s.creditDeferred, [])
  | .flushClient => (s.flushToClient, [])
  | .shutdown => (s.shutdownPcb lw, [])
  | .eofTest => (s, if s.remoteEof || s.pcb.isNone then [.close] else [])

/-- The beginning of the handler of a read. -/
def beginRead (s : TcpRelaySession) : ReadResult → TcpRelaySession × List Section
  | .data bytes =>
    let s := { s with encryptedIn := s.encryptedIn ++ bytes }
    (s, [.chunks s.encryptedIn])
  | .eof | .connectionReset => ({ s with clientEof := true }, [.shutdown, .eofTest])
  | .error => (s, [.close])

/-- What a handler does at once. A callback of lwIP has the lock from its beginning to its end, and
    before `connect_ip` there is no pcb that could be lost. -/
def begin (s : TcpRelaySession) (i : Input) : Option (TcpRelaySession × List Section) :=
  match i.event with
  | .saltRead salt =>
    if s.saltPending then
      let s := { s with saltPending := false }
      match salt with
      | none => some (s, [.close])
      | some salt =>
        match s.crypto.setClientSalt P.mbedtls salt.val with
        | (.error _, crypto) => some ({ s with crypto := crypto }, [.close])
        | (.ok (), crypto) => some ({ s with crypto := crypto }, [.read])
    else none
  | .clientRead result =>
    if 0 < s.reads ∧ result.possible then some ({ s with reads := s.reads - 1 }.beginRead result)
    else none
  | .clientWrote ok =>
    match s.writes with
    | [] => none
    | buf :: writes =>
      let s := { s with writes := writes, writingClient := false }
      if !ok then some (s, [.close]) else some (s.popClient buf, [.creditTest, .flushClient])
  | .resolved err ip =>
    match s.resolving with
    | none => none
    | some port =>
      let s := { s with resolving := none }
      if s.alive then
        match ip with
        | none => some (s, [.close])
        | some ip =>
          if err ≠ .ERR_OK || s.closing then some (s, [.close])
          else some (s.connectIp i.lw ip port, [])
      else some (s, [])
  | _ => (s.step P i).map fun s => (s, [])

/-- The two threads, in turns. The io thread takes up an event when it has done with the last. -/
def turn (x : Threaded) : Turn → Option Threaded
  | .handle i =>
    if x.todo.isEmpty then (x.session.begin P i).map fun r => ⟨r.1, i.lw, r.2⟩ else none
  | .go =>
    match x.todo with
    | [] => none
    | sec :: todo =>
      let r := x.session.perform P x.lw sec
      some ⟨r.1, x.lw, r.2 ++ todo⟩
  | .onErr => if x.session.pcb.isSome then some { x with session := x.session.onErr } else none

variable {P} {lw : Answers} {s s' s'' : TcpRelaySession} {sec : Section} {todo todo' : List Section}

/-! ## Handlers without interruption -/

/-- The sections `todo`, done one after the other, lead from `s` to `s'`. -/
def Settles (P : Platform) (lw : Answers) (todo : List Section) (s s' : TcpRelaySession) : Prop :=
  ∀ rest, ∃ n, run (turn P) ⟨s, lw, todo ++ rest⟩ (List.replicate n .go) = some ⟨s', lw, rest⟩

theorem Settles.nil (s : TcpRelaySession) : Settles P lw [] s s := fun _ => ⟨0, rfl⟩

theorem Settles.append (h : Settles P lw todo s s') (h' : Settles P lw todo' s' s'') :
    Settles P lw (todo ++ todo') s s'' := by
  intro rest
  obtain ⟨n, hn⟩ := h (todo' ++ rest)
  obtain ⟨m, hm⟩ := h' rest
  refine ⟨n + m, ?_⟩
  rw [List.append_assoc, List.replicate_add]
  exact run_append.mpr ⟨_, hn, hm⟩

/-- One section, and then what it leaves to do. -/
theorem Settles.section {s₁ : TcpRelaySession} (hp : s.perform P lw sec = (s₁, todo))
    (h : Settles P lw todo s₁ s') : Settles P lw [sec] s s' := by
  intro rest
  obtain ⟨n, hn⟩ := h rest
  refine ⟨n + 1, run_cons.mpr ⟨⟨s₁, lw, todo ++ rest⟩, ?_, hn⟩⟩
  simp only [turn, List.singleton_append, hp]

theorem Settles.last (hp : s.perform P lw sec = (s', [])) : Settles P lw [sec] s s' :=
  .section hp (.nil s')

theorem settles_close (s : TcpRelaySession) : Settles P lw [.close] s (s.close lw) := by
  cases hc : s.closing with
  | true =>
    rw [close_of_closing hc]
    exact .last (by simp [perform, hc])
  | false =>
    have hopen : s.perform P lw .close = (s, [.closeSocket]) := by simp [perform, hc]
    have hsocket : s.perform P lw .closeSocket =
        ({ s with closing := true }.log .socketClose, [.closeTest]) := rfl
    refine .section hopen (.section hsocket ?_)
    have hclose : s.close lw =
        { ({ s with closing := true }.log .socketClose).closePcb lw with activeSelf := false } := by
      simp [TcpRelaySession.close, hc]
    rw [hclose]
    generalize { s with closing := true }.log .socketClose = t
    cases hp : t.pcb with
    | none => exact .last (by simp [perform, closePcb, hp])
    | some pcb =>
      have htest : t.perform P lw .closeTest = (t, [.closeLocked]) := by simp [perform, hp]
      exact .section htest (.last rfl)

theorem settles_read (s : TcpRelaySession) : Settles P lw [.read] s s.readEncryptedStream := by
  unfold readEncryptedStream
  by_cases hidle : (s.closing || s.clientReadPaused) = true
  · rw [if_pos hidle]
    exact .last (by rw [perform, if_pos hidle])
  · have htest : s.perform P lw .read = (s, [.readSome]) := by rw [perform, if_neg hidle]
    rw [if_neg hidle]
    exact .section htest (.last rfl)

theorem settles_flushRead (s : TcpRelaySession) :
    Settles P lw [.flushTest, .read] s (s.flushToLwip lw).readEncryptedStream := by
  have hflush : Settles P lw [.flushTest] s (s.flushToLwip lw) := by
    cases hp : s.pcb with
    | none =>
      rw [flushToLwip_of_noPcb hp]
      exact .last (by simp [perform, hp])
    | some pcb =>
      have htest : s.perform P lw .flushTest = (s, [.flushLocked]) := by simp [perform, hp]
      exact .section htest (.last rfl)
  exact hflush.append (settles_read _)

theorem settles_credit (s : TcpRelaySession) :
    Settles P lw [.creditTest, .flushClient] s s.creditDeferred.flushToClient := by
  have hcredit : Settles P lw [.creditTest] s s.creditDeferred := by
    by_cases hgo : s.pcb.isSome ∧ s.clientQueueBytes < ClientQueueLowWater ∧ s.deferredTcpRecved ≠ 0
    · have htest : s.perform P lw .creditTest = (s, [.creditLocked]) := by rw [perform, if_pos hgo]
      exact .section htest (.last rfl)
    · refine .last ?_
      rw [perform, if_neg hgo, creditDeferred, if_neg hgo]
  exact hcredit.append (.last rfl)

theorem settles_eof (s : TcpRelaySession) :
    Settles P lw [.shutdown, .eofTest] { s with clientEof := true } (s.handleClientEof lw) := by
  have hshut : Settles P lw [.shutdown] { s with clientEof := true }
      ({ s with clientEof := true }.shutdownPcb lw) := .last rfl
  refine hshut.append ?_
  unfold handleClientEof
  generalize { s with clientEof := true }.shutdownPcb lw = t
  by_cases hend : (t.remoteEof || t.pcb.isNone) = true
  · have htest : t.perform P lw .eofTest = (t, [.close]) := by rw [perform, if_pos hend]
    rw [if_pos hend]
    exact .section htest (settles_close t)
  · rw [if_neg hend]
    exact .last (by rw [perform, if_neg hend])

/-- A chunk is processed: with an exception, or at once, or by a close. -/
theorem chunkSection_cases (P : Platform) (lw : Answers) (s : TcpRelaySession) (chunk view : Bytes) :
    (∃ e t, s.processDecryptedChunk P lw chunk = (.error e, t) ∧
      s.chunkSection P lw chunk view = (t, [.close])) ∨
    (∃ t, s.processDecryptedChunk P lw chunk = (.ok (), t) ∧
      s.chunkSection P lw chunk view = (t, [.chunks view])) ∨
    (s.processDecryptedChunk P lw chunk = (.ok (), s.close lw) ∧
      s.chunkSection P lw chunk view = (s, [.close, .chunks view])) := by
  unfold processDecryptedChunk chunkSection
  split
  · exact Or.inr (Or.inl ⟨_, rfl, rfl⟩)
  · rcases parseSsAddress chunk with _ | ⟨target, bytes⟩
    · exact Or.inr (Or.inr ⟨rfl, rfl⟩)
    · rcases hcon : { s with gotTarget := true }.connectTarget P lw target with ⟨e | _, t⟩
      · exact Or.inl ⟨e, t, by simp only [hcon], by simp only [hcon]⟩
      · exact Or.inr (Or.inl ⟨t.queueLwip bytes, by simp only [hcon], by simp only [hcon]⟩)

/-- The chunks of a read one after the other, by induction on the bytes that are left. -/
theorem settles_chunks (s : TcpRelaySession) (view : Bytes) :
    Settles P lw [.chunks view] s (endRead lw (drainAll (readChunk P lw) s view)) := by
  induction hn : view.length using Nat.strong_induction_on generalizing s view with
  | _ n ih =>
    subst hn
    have hitem {chunk : Bytes} {t : TcpRelaySession} {rest : Bytes}
        (h : readChunk P lw s view = (.ok (some chunk), t, rest)) :
        Settles P lw [.chunks rest] t (endRead lw (drainAll (readChunk P lw) s view)) := by
      rw [drainAll_item (readChunk_consumes P lw) h]
      exact ih _ (readChunk_consumes P lw _ _ _ _ _ h) t rest rfl
    rcases hdec : s.crypto.decryptTcpChunk P.mbedtls view with ⟨e | _ | chunk, c, rest⟩
    · have hread : readChunk P lw s view = (.error e, { s with crypto := c }, rest) := by
        rw [readChunk, hdec]
      have hfirst : s.perform P lw (.chunks view) = ({ s with crypto := c }, [.close]) := by
        rw [perform, hdec]
      rw [drainAll, drain, hread]
      exact .section hfirst (settles_close _)
    · have hread : readChunk P lw s view = (.ok none, { s with crypto := c }, rest) := by
        rw [readChunk, hdec]
      rw [drainAll_stop hread]
      exact .section (by rw [perform, hdec]) (settles_flushRead _)
    · have hfirst : s.perform P lw (.chunks view) =
          { s with crypto := c }.chunkSection P lw chunk rest := by rw [perform, hdec]
      rcases chunkSection_cases P lw { s with crypto := c } chunk rest with
        ⟨e, t, hp, hsec⟩ | ⟨t, hp, hsec⟩ | ⟨hp, hsec⟩ <;> rw [hsec] at hfirst
      · have hread : readChunk P lw s view = (.error e, t, rest) := by
          simp only [readChunk, hdec, hp]
        rw [drainAll, drain, hread]
        exact .section hfirst (settles_close t)
      · have hread : readChunk P lw s view = (.ok (some chunk), t, rest) := by
          simp only [readChunk, hdec, hp]
        exact .section hfirst (hitem hread)
      · have hread : readChunk P lw s view =
            (.ok (some chunk), { s with crypto := c }.close lw, rest) := by
          simp only [readChunk, hdec, hp]
        exact .section hfirst ((settles_close _).append (hitem hread))

/-- An event whose handler is not interrupted is one step. -/
theorem settles_step {i : Input} (hs : s.step P i = some s') :
    ∃ t todo, s.begin P i = some (t, todo) ∧ Settles P i.lw todo t s' := by
  obtain ⟨event, lw⟩ := i
  have hcallback (h : s.begin P ⟨event, lw⟩ = (s.step P ⟨event, lw⟩).map fun s => (s, [])) :
      ∃ t todo, s.begin P ⟨event, lw⟩ = some (t, todo) ∧ Settles P lw todo t s' := by
    refine ⟨s', [], ?_, .nil s'⟩
    rw [h, hs]
    rfl
  cases event with
  | saltRead salt =>
    simp only [step, begin] at hs ⊢
    split at hs
    · rename_i hsalt
      obtain rfl := Option.some.inj hs
      rw [if_pos hsalt]
      cases salt with
      | none => exact ⟨_, _, rfl, settles_close _⟩
      | some salt =>
        unfold onSaltRead
        dsimp only
        rcases s.crypto.setClientSalt P.mbedtls salt.val with ⟨e | _, c⟩
        · exact ⟨_, _, rfl, settles_close _⟩
        · exact ⟨_, _, rfl, settles_read _⟩
    · cases hs
  | clientRead result =>
    simp only [step, begin] at hs ⊢
    split at hs
    · rename_i hread
      obtain rfl := Option.some.inj hs
      rw [if_pos hread]
      refine ⟨_, _, rfl, ?_⟩
      cases result with
      | data bytes => exact settles_chunks _ _
      | eof => exact settles_eof _
      | connectionReset => exact settles_eof _
      | error => exact settles_close _
    · cases hs
  | clientWrote ok =>
    cases hw : s.writes with
    | nil =>
      simp only [step, hw] at hs
      cases hs
    | cons buf writes =>
      simp only [step, begin, hw] at hs ⊢
      obtain rfl := Option.some.inj hs
      cases ok with
      | false => exact ⟨_, _, rfl, settles_close _⟩
      | true => exact ⟨_, _, rfl, settles_credit _⟩
  | resolved err ip =>
    cases hport : s.resolving with
    | none =>
      simp only [step, hport] at hs
      cases hs
    | some port =>
      simp only [step, begin, hport] at hs ⊢
      obtain rfl := Option.some.inj hs
      split
      · cases ip with
        | none => exact ⟨_, _, rfl, settles_close _⟩
        | some ip =>
          unfold onResolved
          dsimp only
          split
          · exact ⟨_, _, rfl, settles_close _⟩
          · exact ⟨_, _, rfl, .nil _⟩
      · exact ⟨_, _, rfl, .nil _⟩
  | connected err queuelen => exact hcallback rfl
  | recv p err rng => exact hcallback rfl
  | sent acked queuelen => exact hcallback rfl
  | err e => exact hcallback rfl

/-- Every run of `step` is a run of turns that takes up the same events, with no `on_err` in between. -/
theorem turns_of_run {is : List Input} (lw : Answers) (h : run (step P) s is = some s') :
    ∃ ts lw', run (turn P) ⟨s, lw, []⟩ ts = some ⟨s', lw', []⟩ ∧ .onErr ∉ ts ∧
      ts.filterMap Turn.input? = is := by
  induction is generalizing s lw with
  | nil =>
    obtain rfl := Option.some.inj h
    exact ⟨[], lw, rfl, List.not_mem_nil, rfl⟩
  | cons i is ih =>
    obtain ⟨m, hs, hrun⟩ := run_cons.mp h
    obtain ⟨t, todo, hbegin, hsettles⟩ := settles_step hs
    obtain ⟨n, hn⟩ := hsettles []
    obtain ⟨ts, lw', hts, hmem, hinputs⟩ := ih i.lw hrun
    rw [List.append_nil] at hn
    refine ⟨.handle i :: (List.replicate n .go ++ ts), lw', ?_, ?_, ?_⟩
    · refine run_cons.mpr ⟨⟨t, i.lw, todo⟩, ?_, run_append.mpr ⟨_, hn, hts⟩⟩
      simp [turn, hbegin]
    · simp [hmem]
    · have hgo : (List.replicate n Turn.go).filterMap Turn.input? = [] := by
        rw [List.filterMap_eq_nil_iff]
        intro t ht
        rw [List.eq_of_mem_replicate ht]
        rfl
      simp [Turn.input?, hgo, hinputs]

end TcpRelaySession

end Ovpn2ss.Tcp
