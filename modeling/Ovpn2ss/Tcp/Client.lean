/-
  An honest client in front of a session: what the read handler makes of the chunks a client
  seals. A client and a session whose ciphers are in step stay so, and the session processes
  exactly the sealed chunks (`onClientData_sealed`).

  While a session has a target but no pcb, that is while the name is being resolved or after
  the remote's FIN, it reads on and queues every chunk (`waiting_step`, `waiting_run`).
-/
import Ovpn2ss.AddressText
import Ovpn2ss.Tcp.Chunks
import Ovpn2ss.Aead.Stream

namespace Ovpn2ss.Tcp

open Ovpn2ss.Aead Ovpn2ss.Lib Ovpn2ss.Lwip
open Ovpn2ss.Aead.ShadowsocksAeadSession (decryptTcpChunk encryptStream InStep drain_encryptStream)

namespace TcpRelaySession

variable {P : Platform} {lw : Answers} {s s' : TcpRelaySession}
  {client client' : ShadowsocksAeadSession} {wire : Bytes} {plains : List Bytes}

/-- A read of sealed chunks decrypts to them, and the ciphers stay in step. -/
theorem decrypted_sealed (hI : P.mbedtls.Inverts) (hstep : InStep client s.crypto)
    (hin : s.encryptedIn = []) (henc : encryptStream P.mbedtls client plains = some (wire, client')) :
    s.chunksOf P wire = plains ∧ (s.decrypted P wire).rest = [] ∧ (s.decrypted P wire).error = none ∧
      InStep client' (s.decrypted P wire).state := by
  unfold chunksOf decrypted
  rw [hin, List.nil_append]
  exact drain_encryptStream hI plains hstep henc

/-- The read handler on sealed chunks of a session with a target: they are queued, then the
    queue is flushed and the next read is started. -/
theorem onClientData_sealed (lw : Answers) (hI : P.mbedtls.Inverts) (hstep : InStep client s.crypto)
    (hin : s.encryptedIn = []) (htarget : s.gotTarget = true)
    (henc : encryptStream P.mbedtls client plains = some (wire, client')) :
    ∃ c, InStep client' c ∧ s.onClientData P lw wire =
      (((s.queued (payloads plains)).withInput c []).flushToLwip lw).readEncryptedStream := by
  obtain ⟨h1, h2, h3, h4⟩ := decrypted_sealed hI hstep hin henc
  rcases onClientData_cases P lw s wire with ⟨t, hp, -, h⟩ | ⟨r, t, c, hp, herr, -⟩
  · rw [h1, processAll_of_target P htarget] at hp
    obtain ⟨-, rfl⟩ := Prod.mk.inj hp
    rw [h2] at h
    exact ⟨_, h4, h⟩
  · rw [h1, processAll_of_target P htarget] at hp
    obtain ⟨rfl, -⟩ := Prod.mk.inj hp
    exact absurd h3 (herr.resolve_left (not_not.mpr rfl))

/-! ## A target but no connection -/

/-- The session has its target, no pcb, and one read outstanding that nothing holds back. -/
structure Waiting (client : ShadowsocksAeadSession) (s : TcpRelaySession) : Prop where
  target : s.gotTarget = true
  noPcb : s.pcb = none
  isOpen : s.closing = false
  unpaused : s.clientReadPaused = false
  reading : s.reads = 1
  input : s.encryptedIn = []
  inStep : InStep client s.crypto

/-- One more chunk is queued, and the next read is started. -/
theorem waiting_step (hI : P.mbedtls.Inverts) (h : Waiting client s) {plain : Bytes}
    (hne : plain ≠ []) (hsize : plain.length + 34 ≤ ReadBufSize)
    (henc : client.encryptTcpChunk P.mbedtls plain = (.ok wire, client')) (lw : Answers) :
    ∃ s', s.step P ⟨.clientRead (.data wire), lw⟩ = some s' ∧ Waiting client' s' ∧
      s'.pendingLwip = s.pendingLwip ++ [plain] ∧ s'.resolving = s.resolving := by
  have hstream : encryptStream P.mbedtls client [plain] = some (wire, client') := by
    rw [encryptStream, henc]
    simp [encryptStream]
  have hlen : wire.length = plain.length + 34 := ShadowsocksAeadSession.encryptTcpChunk_length henc
  obtain ⟨c, hc, hdata⟩ := onClientData_sealed (s := { s with reads := s.reads - 1 }) lw hI
    h.inStep h.input h.target hstream
  have hpos : 0 < s.reads ∧ (ReadResult.data wire).possible = true := by
    rw [h.reading]
    refine ⟨Nat.one_pos, decide_eq_true ?_⟩
    omega
  have hflush : (({ s with reads := s.reads - 1 }.queued (payloads [plain])).withInput c []).flushToLwip
      lw = ({ s with reads := s.reads - 1 }.queued (payloads [plain])).withInput c [] :=
    flushToLwip_of_noPcb h.noPcb
  have hpay : payloads [plain] = [plain] := by
    cases plain with
    | nil => exact absurd rfl hne
    | cons b bs => rfl
  rw [hflush, hpay] at hdata
  have hnext := hdata.trans (readEncryptedStream_of_open h.isOpen h.unpaused)
  refine ⟨_, if_pos hpos, ?_⟩
  rw [onClientRead, hnext]
  exact ⟨⟨h.target, h.noPcb, h.isOpen, h.unpaused, congrArg (· - 1 + 1) h.reading, rfl, hc⟩, rfl, rfl⟩

/-- Any list of chunks is queued, however long. -/
theorem waiting_run (hS : P.mbedtls.Seals) (hI : P.mbedtls.Inverts) (lw : Answers)
    (plains : List Bytes) (hplain : ∀ p ∈ plains, p ≠ [] ∧ p.length + 34 ≤ ReadBufSize)
    (h : Waiting client s) (hs : client.sentSalt = true) :
    ∃ is s' client', run (step P) s is = some s' ∧ Waiting client' s' ∧
      s'.pendingLwip = s.pendingLwip ++ plains ∧ s'.resolving = s.resolving := by
  induction plains generalizing s client with
  | nil => exact ⟨[], s, client, rfl, h, by simp, rfl⟩
  | cons plain plains ih =>
    obtain ⟨hne, hsize⟩ := hplain plain List.mem_cons_self
    obtain ⟨lc, lt, h1⟩ := hS client.sendKey client.sendNonce (be16 plain.length)
    obtain ⟨pc, pt, h2⟩ := hS client.sendKey (incrementNonce client.sendNonce) plain
    rw [ReadBufSize] at hsize
    have henc := ShadowsocksAeadSession.encryptTcpChunk_of_seal hs (by omega) h1 h2
    obtain ⟨m, hm, hw, hp, hr⟩ := waiting_step hI h hne hsize henc lw
    obtain ⟨is, s', client', hrun, hw', hp', hr'⟩ :=
      ih (fun p hp => hplain p (List.mem_cons_of_mem _ hp)) hw hs
    refine ⟨_ :: is, s', client', run_cons.mpr ⟨m, hm, hrun⟩, hw', ?_, hr'.trans hr⟩
    rw [hp', hp, List.append_assoc, List.singleton_append]

/-! ## Running the model -/

/-- A stand-in for the libraries, to run the model on concrete input: the AEAD of `standIn`, and
    the `ipaddr_aton` of `printedAton`. -/
def demoPlatform : Platform where
  mbedtls := standIn
  ipaddrAton := printedAton

/-- lwIP grants every call; each write adds one buffer to the send queue. -/
def willing : Answers where
  newPcb := true
  connect := .ERR_OK
  write pcb _ := (.ERR_OK, pcb.sndQueuelen + 1)
  shutdown := (.ERR_OK, true)
  close := .ERR_OK
  resolveThrows := none

/-- lwIP takes a write only when it holds no byte that is not acknowledged. -/
def hesitant : Answers :=
  { willing with write := fun pcb _ =>
      if TCP_SND_BUF ≤ pcb.sndBuf then (.ERR_OK, pcb.sndQueuelen + 1) else (.ERR_MEM, pcb.sndQueuelen) }

/-- What the client with the all-zero salt sends for `plains`. -/
def demoWire (plains : List Bytes) : Bytes :=
  match encryptStream standIn ShadowsocksAeadSession.demoSender plains with
  | some (wire, _) => wire
  | none => []

/-- The target 10.0.0.1, port 80. -/
def ipTarget : Bytes := [1, 10, 0, 0, 1, 0, 80]

/-- The target "a", port 80. -/
def domainTarget : Bytes := [3, 1, 0x61, 0, 80]

def demoCrypto : ShadowsocksAeadSession := ShadowsocksAeadSession.new zeroKey

/-- The salt is read, then the sealed chunks `plains` in one read. -/
def demoOpening (plains : List Bytes) : List Input :=
  [⟨.saltRead (some (zeroBlock SaltSize)), willing⟩, ⟨.clientRead (.data (demoWire plains)), willing⟩]

/-- The session is connected to an IP target and nothing has come back. -/
def demoConnected : List Input := demoOpening [ipTarget] ++ [⟨.connected .ERR_OK 0, willing⟩]

/-- The session is connected to an IP target. Of the three bytes for it lwIP has taken the first two,
    and the client is paused. -/
def demoPaused : List Input :=
  [⟨.saltRead (some (zeroBlock SaltSize)), willing⟩,
    ⟨.clientRead (.data (demoWire [ipTarget ++ [7, 8], [9]])), hesitant⟩,
    ⟨.connected .ERR_OK 1, hesitant⟩]

/-- After a domain name as target, the demo client and its session wait for the resolver. -/
theorem waiting_demo :
    ∃ client s, Reaches demoPlatform demoCrypto (demoOpening [domainTarget]) s ∧ Waiting client s ∧
      client.sentSalt = true ∧ s.pendingLwip = [] ∧ s.resolving = some 80 :=
  ⟨(ShadowsocksAeadSession.demoSender.encryptTcpChunk standIn domainTarget).2, _, rfl,
    ⟨rfl, rfl, rfl, rfl, rfl, rfl, rfl, rfl, rfl⟩, rfl, rfl, rfl⟩

end TcpRelaySession

end Ovpn2ss.Tcp
