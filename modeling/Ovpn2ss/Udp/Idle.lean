/-
  When a mapping is removed for being idle.

  Every datagram that `send_payload_to_ip` handles arms the timer of its mapping anew, so waits
  and handled datagrams are numbered alike: `handled` lists the keys in order, and what was
  handled since wait `n` was armed is the list behind its place `n`. Arming cancels the handlers
  that still wait, but not one that has expired and is queued, and the handler knows its mapping by
  the key alone. So a queued handler removes the mapping, or one made in its place, although
  datagrams were handled meanwhile: exactly if a later wait is outstanding for the key
  (`removal_idle_iff`).

  `Armed` is what the log, the timers and the tables have to do with each other. The last wait of
  a live mapping is always outstanding; that is what a removal can be judged by.
-/
import Ovpn2ss.Udp.Mapping

namespace Ovpn2ss.Udp

open Ovpn2ss.Aead Ovpn2ss.Lib Ovpn2ss.Lwip

namespace UdpRelaySession

variable {P : Platform} {s s' : UdpRelaySession}

/-! ## The datagrams handled -/

/-- The call of `send_payload_to_ip` that a datagram of a client leads to at once. -/
def directSend (P : Platform) (crypto : ShadowsocksAeadFactory) (datagram : Bytes) :
    Option (TargetAddress × Bytes × IpAddr) :=
  match opened P crypto datagram with
  | none => none
  | some (target, payload) =>
    if target.type = .Domain then none
    else (P.ipaddrAton target.host).map fun ip => (target, payload, ip)

/-- The key of a datagram that `send_payload_to_ip` handles; without a mapping it does not. -/
def handledFor (P : Platform) (s : UdpRelaySession) (a : UdpAnswers) (client : Endpoint)
    (target : TargetAddress) : List Bytes :=
  if (s.mappings.lookup (mappingKey P client target)).isSome ∨ a.udpNew then
    [mappingKey P client target]
  else []

/-- The keys of the datagrams an event handles. -/
def handled (P : Platform) (s : UdpRelaySession) : Event → List Bytes
  | .received a =>
    match s.arrived with
    | [] => []
    | (datagram, client) :: _ =>
      match directSend P s.crypto datagram with
      | none => []
      | some (target, _, _) => s.handledFor P a client target
  | .resolved r err ip a =>
    match ip with
    | none => []
    | some _ =>
      if r.token.isNone ∨ r.token ≠ s.lifetimeToken ∨ !s.running ∨ err ≠ .ERR_OK then []
      else s.handledFor P a r.client r.target
  | _ => []

/-! ## Log, timers and tables -/

/-- The members the timers have to do with. -/
structure Clock where
  mappings : Table Bytes Mapping
  waiting : List Wait
  expired : List Wait
  waits : Nat
  pcbs : Nat

def clock (s : UdpRelaySession) : Clock := ⟨s.mappings, s.waiting, s.expired, s.waits, s.pcbs⟩

/-- The waits are numbered as the log is, those that wait belong to live mappings, which have
    different pcbs, and the last wait of every live mapping but `skip` is outstanding. -/
structure Clock.Armed (c : Clock) (log : List Bytes) (skip : Option Bytes) : Prop where
  count : log.length = c.waits
  named : ∀ w ∈ c.waiting ++ c.expired, log[w.serial]? = some w.key
  owned : ∀ w ∈ c.waiting, ∃ m, c.mappings.lookup w.key = some m ∧ m.pcb = w.timer
  fresh : ∀ key m, c.mappings.lookup key = some m → m.pcb < c.pcbs
  apart : ∀ key key' m m', c.mappings.lookup key = some m → c.mappings.lookup key' = some m' →
    m.pcb = m'.pcb → key = key'
  latest : ∀ key m, skip ≠ some key → c.mappings.lookup key = some m →
    ∃ w ∈ c.waiting ++ c.expired, w.key = key ∧ key ∉ log.drop (w.serial + 1)

namespace Clock.Armed

variable {c : Clock} {log : List Bytes} {skip : Option Bytes} {key : Bytes} {m : Mapping} {w : Wait}

/-- Without mappings only the numbering is left, and no wait may be waiting. -/
theorem no_mappings (hm : c.mappings = ∅) (hcount : log.length = c.waits)
    (hnamed : ∀ w ∈ c.waiting ++ c.expired, log[w.serial]? = some w.key)
    (hnone : ∀ w, w ∉ c.waiting) : c.Armed log skip := by
  refine ⟨hcount, hnamed, fun w hw => absurd hw (hnone w), ?_, ?_, ?_⟩ <;> rw [hm]
  · intro key m hl
    cases hl
  · intro key key' m m' hl
    cases hl
  · intro key m hskip hl
    cases hl

theorem skipping (h : c.Armed log none) (skip : Option Bytes) : c.Armed log skip :=
  ⟨h.count, h.named, h.owned, h.fresh, h.apart,
    fun key m _ => h.latest key m fun hnone => (by cases hnone)⟩

/-- A wait of one live mapping is not on the timer of another. -/
theorem timer_ne (h : c.Armed log skip) (hw : w ∈ c.waiting) (hl : c.mappings.lookup key = some m)
    (hne : w.key ≠ key) : w.timer ≠ m.pcb := by
  obtain ⟨m', hl', hpcb⟩ := h.owned w hw
  intro htimer
  exact hne (h.apart _ _ m' m hl' hl (hpcb.trans htimer))

theorem serial_lt (h : c.Armed log skip) (hw : w ∈ c.waiting ++ c.expired) :
    w.serial < log.length := by
  obtain ⟨hlt, -⟩ := List.getElem?_eq_some_iff.mp (h.named w hw)
  exact hlt

/-- Taking waits on the timer of a mapping out keeps the last waits of the others. -/
theorem mem_filter_timer (h : c.Armed log skip) (hl : c.mappings.lookup key = some m)
    (hw : w ∈ c.waiting ++ c.expired) (hne : w.key ≠ key) :
    w ∈ c.waiting.filter (·.timer ≠ m.pcb) ++ c.expired := by
  rcases List.mem_append.mp hw with hw | hw
  · have htimer := h.timer_ne hw hl hne
    exact List.mem_append_left _ (List.mem_filter.mpr ⟨hw, by simpa using htimer⟩)
  · exact List.mem_append_right _ hw

theorem insert (h : c.Armed log none) (hl : c.mappings.lookup key = none) (hm : m.pcb = c.pcbs) :
    Clock.Armed { c with mappings := c.mappings.insert key m, pcbs := c.pcbs + 1 } log (some key) := by
  have hold : ∀ key' m', (c.mappings.insert key m).lookup key' = some m' →
      (key' = key ∧ m'.pcb = c.pcbs) ∨ (c.mappings.lookup key' = some m' ∧ m'.pcb < c.pcbs) := by
    intro key' m' hl'
    rcases Table.lookup_of_lookup_insert hl' with ⟨hkey, rfl⟩ | ⟨-, hl'⟩
    · exact Or.inl ⟨hkey, hm⟩
    · exact Or.inr ⟨hl', h.fresh key' m' hl'⟩
  refine ⟨h.count, h.named, fun w hw => ?_, fun key' m' hl' => ?_, fun k k' m₁ m₂ h₁ h₂ hpcb => ?_,
    fun key' m' hskip hl' => ?_⟩
  · obtain ⟨m', hl', hpcb⟩ := h.owned w hw
    have hne : w.key ≠ key := by
      rintro rfl
      rw [hl] at hl'
      cases hl'
    exact ⟨m', (AList.lookup_insert_ne hne).trans hl', hpcb⟩
  · dsimp only
    rcases hold key' m' hl' with ⟨-, hpcb⟩ | ⟨-, hlt⟩ <;> omega
  · rcases hold k m₁ h₁ with ⟨hk, hp⟩ | ⟨hk, hp⟩ <;> rcases hold k' m₂ h₂ with ⟨hk', hp'⟩ | ⟨hk', hp'⟩
    · exact hk.trans hk'.symm
    · omega
    · omega
    · exact h.apart k k' m₁ m₂ hk hk' hpcb
  · have hne : key' ≠ key := fun heq => hskip (congrArg some heq.symm)
    rcases hold key' m' hl' with ⟨hkey, -⟩ | ⟨hl', -⟩
    · exact absurd hkey hne
    · exact h.latest key' m' (fun hnone => by cases hnone) hl'

/-- Handling a datagram arms the timer of its mapping anew. -/
theorem arm (h : c.Armed log (some key)) (hl : c.mappings.lookup key = some m) (hkey : m.key = key) :
    Clock.Armed { c with
      waiting := c.waiting.filter (·.timer ≠ m.pcb) ++ [⟨c.waits, m.pcb, m.key⟩]
      waits := c.waits + 1 } (log ++ [key]) none := by
  refine ⟨?_, fun w hw => ?_, fun w hw => ?_, h.fresh, h.apart, fun key' m' _ hl' => ?_⟩
  · rw [List.length_append, h.count]
    rfl
  · rcases List.mem_append.mp hw with hw | hw
    · rcases List.mem_append.mp hw with hw | hw
      · have hmem := List.mem_append_left c.expired (List.mem_of_mem_filter hw)
        rw [List.getElem?_append_left (h.serial_lt hmem)]
        exact h.named w hmem
      · rw [List.mem_singleton.mp hw, ← h.count, List.getElem?_concat_length, hkey]
    · have hmem := List.mem_append_right c.waiting hw
      rw [List.getElem?_append_left (h.serial_lt hmem)]
      exact h.named w hmem
  · rcases List.mem_append.mp hw with hw | hw
    · exact h.owned w (List.mem_of_mem_filter hw)
    · rw [List.mem_singleton.mp hw]
      exact ⟨m, by rw [hkey]; exact hl, rfl⟩
  · by_cases heq : key' = key
    · refine ⟨⟨c.waits, m.pcb, m.key⟩, by simp, hkey.trans heq.symm, ?_⟩
      rw [← h.count, List.drop_of_length_le (by simp)]
      exact List.not_mem_nil
    · obtain ⟨w, hw, hwkey, hidle⟩ := h.latest key' m' (fun hs => heq (Option.some.inj hs).symm) hl'
      have hkept := h.mem_filter_timer hl hw (by rw [hwkey]; exact heq)
      refine ⟨w, ?_, hwkey, ?_⟩
      · rcases List.mem_append.mp hkept with hkept | hkept
        · exact List.mem_append_left _ (List.mem_append_left _ hkept)
        · exact List.mem_append_right _ hkept
      · have hle : w.serial + 1 ≤ log.length := h.serial_lt hw
        rw [List.drop_append_of_le_length hle, List.mem_append, List.mem_singleton]
        exact fun hor => hor.elim hidle heq

theorem erase (h : c.Armed log (some key)) (hl : c.mappings.lookup key = some m) :
    Clock.Armed { c with
      mappings := c.mappings.erase key
      waiting := c.waiting.filter (·.timer ≠ m.pcb) } log none := by
  refine ⟨h.count, fun w hw => ?_, fun w hw => ?_, fun key' m' hl' => ?_,
    fun k k' m₁ m₂ h₁ h₂ => ?_, fun key' m' _ hl' => ?_⟩
  · rcases List.mem_append.mp hw with hw | hw
    · exact h.named w (List.mem_append_left _ (List.mem_of_mem_filter hw))
    · exact h.named w (List.mem_append_right _ hw)
  · obtain ⟨hw, htimer⟩ := List.mem_filter.mp hw
    obtain ⟨m', hl', hpcb⟩ := h.owned w hw
    have hne : w.key ≠ key := by
      rintro rfl
      rw [hl] at hl'
      rw [← hpcb, ← Option.some.inj hl'] at htimer
      simp at htimer
    exact ⟨m', (AList.lookup_erase_ne hne).trans hl', hpcb⟩
  · exact h.fresh key' m' (Table.lookup_of_lookup_erase hl').2
  · exact h.apart k k' m₁ m₂ (Table.lookup_of_lookup_erase h₁).2 (Table.lookup_of_lookup_erase h₂).2
  · obtain ⟨hne, hl'⟩ := Table.lookup_of_lookup_erase hl'
    obtain ⟨w, hw, hwkey, hidle⟩ := h.latest key' m' (fun hs => hne (Option.some.inj hs).symm) hl'
    exact ⟨w, h.mem_filter_timer hl hw (by rw [hwkey]; exact hne), hwkey, hidle⟩

theorem expire (h : c.Armed log none) (hw : w ∈ c.waiting) :
    Clock.Armed { c with waiting := c.waiting.erase w, expired := c.expired ++ [w] } log none := by
  have hback : ∀ w', w' ∈ c.waiting.erase w ++ (c.expired ++ [w]) → w' ∈ c.waiting ++ c.expired := by
    intro w' hw'
    rcases List.mem_append.mp hw' with hw' | hw'
    · exact List.mem_append_left _ (List.mem_of_mem_erase hw')
    · rcases List.mem_append.mp hw' with hw' | hw'
      · exact List.mem_append_right _ hw'
      · rw [List.mem_singleton.mp hw']
        exact List.mem_append_left _ hw
  refine ⟨h.count, fun w' hw' => h.named w' (hback w' hw'),
    fun w' hw' => h.owned w' (List.mem_of_mem_erase hw'), h.fresh, h.apart, fun key m hskip hl => ?_⟩
  obtain ⟨w', hw', hlast⟩ := h.latest key m hskip hl
  refine ⟨w', ?_, hlast⟩
  by_cases heq : w' = w
  · simp [heq]
  · rcases List.mem_append.mp hw' with hw' | hw'
    · exact List.mem_append_left _ ((List.mem_erase_of_ne heq).mpr hw')
    · exact List.mem_append_right _ (List.mem_append_left _ hw')

/-- The handler of a wait is taken from the queue. -/
theorem dequeue (h : c.Armed log none) (w : Wait) :
    Clock.Armed { c with expired := c.expired.erase w } log (some w.key) := by
  refine ⟨h.count, fun w' hw' => h.named w' ?_, h.owned, h.fresh, h.apart,
    fun key m hskip hl => ?_⟩
  · rcases List.mem_append.mp hw' with hw' | hw'
    · exact List.mem_append_left _ hw'
    · exact List.mem_append_right _ (List.mem_of_mem_erase hw')
  · obtain ⟨w', hw', hwkey, hidle⟩ := h.latest key m (fun hnone => by cases hnone) hl
    have hne : w' ≠ w := by
      rintro rfl
      exact hskip (congrArg some hwkey)
    refine ⟨w', ?_, hwkey, hidle⟩
    rcases List.mem_append.mp hw' with hw' | hw'
    · exact List.mem_append_left _ hw'
    · exact List.mem_append_right _ ((List.mem_erase_of_ne hne).mpr hw')

end Clock.Armed

/-- There is no mapping under the key whose last wait could be missing. -/
theorem Clock.Armed.missed {c : Clock} {log : List Bytes} {key : Bytes} (h : c.Armed log (some key))
    (hl : c.mappings.lookup key = none) : c.Armed log none := by
  refine ⟨h.count, h.named, h.owned, h.fresh, h.apart, fun key' m _ hl' => ?_⟩
  refine h.latest key' m (fun hskip => ?_) hl'
  rw [← Option.some.inj hskip] at hl'
  cases hl.symm.trans hl'

theorem stop_armed {log : List Bytes} (h : s.clock.Armed log none) : s.stop.clock.Armed log none := by
  have hnone : ∀ w, w ∉ s.waiting.filter (·.timer ∉ s.mappings.values.map (·.pcb)) := by
    intro w hw
    obtain ⟨hw, htimer⟩ := List.mem_filter.mp hw
    obtain ⟨m, hl, hpcb⟩ := h.owned w hw
    have hmem : w.timer ∈ s.mappings.values.map (·.pcb) :=
      List.mem_map.mpr ⟨m, Table.mem_values.mpr ⟨w.key, hl⟩, hpcb⟩
    simp [hmem] at htimer
  refine .no_mappings rfl h.count (fun w hw => h.named w ?_) hnone
  rcases List.mem_append.mp hw with hw | hw
  · exact absurd hw (hnone w)
  · exact List.mem_append_right _ hw

/-- `send_payload_to_ip` with a mapping handles the datagram, and without one does nothing. -/
theorem Sends.armed {a : UdpAnswers} {payload : Bytes} {client : Endpoint} {target : TargetAddress}
    {ip : IpAddr} (hs : Sends P s a payload client target ip s')
    (hO : Orderly P s.mappings s.resolving) {log : List Bytes} (h : s.clock.Armed log none) :
    s'.clock.Armed (log ++ s.handledFor P a client target) none := by
  unfold handledFor
  cases hs with
  | refused hl hnew =>
    rw [if_neg (by simp [hl, hnew]), List.append_nil]
    exact h
  | @found mapping hl =>
    rw [if_pos (Or.inl (by rw [hl]; rfl))]
    exact (h.skipping _).arm hl (hO.keys _ mapping hl).1
  | made hl hnew =>
    rw [if_pos (Or.inr hnew)]
    have hins := h.insert (m := s.newMapping P client target) hl rfl
    exact hins.arm (AList.lookup_insert _) rfl

theorem Clock.Armed.unhandled {c : Clock} {e : Event} {log : List Bytes} (he : handled P s e = [])
    (h : c.Armed log none) : c.Armed (log ++ handled P s e) none := by
  rw [he, List.append_nil]
  exact h

theorem Handles.armed {a : UdpAnswers} {datagram : Bytes} {client : Endpoint}
    (hs : Handles P s a datagram client s') (hO : Orderly P s.mappings s.resolving) {log : List Bytes}
    (h : s.clock.Armed log none) :
    s'.clock.Armed (log ++ ((directSend P s.crypto datagram).map fun sent =>
      s.handledFor P a client sent.1).getD []) none := by
  unfold directSend
  cases hs with
  | closed hopened =>
    rw [hopened]
    exact (List.append_nil log).symm ▸ h
  | unreadable hopened htype hip =>
    simp only [hopened, if_neg htype, hip]
    exact (List.append_nil log).symm ▸ h
  | asks hopened htype =>
    simp only [hopened, if_pos htype]
    exact (List.append_nil log).symm ▸ h
  | sends hopened htype hip hsends =>
    simp only [hopened, if_neg htype, hip]
    exact hsends.armed hO h

theorem armed_step {e : Event} {log : List Bytes} (hO : Orderly P s.mappings s.resolving)
    (h : s.clock.Armed log none) (hs : s.step P e = some s') :
    s'.clock.Armed (log ++ handled P s e) none := by
  cases fires_of_step hs with
  | start | arrive | noPbuf =>
    refine .unhandled rfl ?_
    exact h
  | stop => exact .unhandled rfl (stop_armed h)
  | @received t a datagram client arrived harrived ht =>
    have hdone := ht.armed hO h
    have hhandled : handled P s (.received a) =
        ((directSend P s.crypto datagram).map fun sent => s.handledFor P a client sent.1).getD [] := by
      rw [handled, harrived]
      dsimp only
      cases directSend P s.crypto datagram <;> rfl
    rw [receiveLoop_eq, hhandled]
    exact hdone
  | receiveFailed =>
    refine .unhandled rfl ?_
    rw [receiveLoop_eq]
    exact h
  | @ignored r err ip a hr hstale =>
    refine .unhandled ?_ ?_
    · cases ip with
      | none => rfl
      | some ip => exact if_pos (hstale.resolve_left (Option.some_ne_none ip))
    · exact h
  | @resolved _ r err ip a hr hlive hsends =>
    have hO' : Orderly P s.mappings (s.resolving.erase r) :=
      ⟨hO.keys, hO.targets, fun r' hr' => hO.pending r' (List.mem_of_mem_erase hr')⟩
    have hhandled : handled P s (.resolved r err (some ip) a) =
        s.handledFor P a r.client r.target := if_neg hlive
    rw [hhandled]
    exact hsends.armed hO' h
  | udpRecv hl _ hsend =>
    obtain ⟨datagram, rfl⟩ := sendToClient_logs hsend
    refine .unhandled rfl ?_
    exact h
  | expire hw => exact .unhandled rfl (h.expire hw)
  | @missed w hw hl => exact .unhandled rfl ((h.dequeue w).missed hl)
  | @removed w mapping hw hl =>
    refine .unhandled rfl ?_
    exact (h.dequeue w).erase hl

theorem armed_run {crypto : ShadowsocksAeadFactory} {es : List Event} (h : Reaches P crypto es s) :
    s.clock.Armed (collect (step P) (handled P) (new crypto) es) none := by
  have hinv := run_collect_inv (handled P)
    (fun log s => Orderly P s.mappings s.resolving ∧ s.clock.Armed log none)
    (fun _ _ _ _ hI hs => ⟨orderly_step hI.1 hs, armed_step hI.1 hI.2 hs⟩)
    ⟨.no_mappings fun _ hr => (by cases hr), ?_⟩ h
  · exact hinv.2
  · exact .no_mappings rfl rfl (fun w hw => (by cases hw)) fun w hw => (by cases hw)

/-! ## Removals -/

/-- When the queued handler of a wait removes a mapping, nothing was handled for its key since the
    wait was armed exactly if no later wait is outstanding for the key. -/
theorem removal_idle_iff {crypto : ShadowsocksAeadFactory} {es : List Event} {w : Wait}
    {mapping : Mapping} (h : Reaches P crypto es s) (hw : w ∈ s.expired)
    (hl : s.mappings.lookup w.key = some mapping) :
    let log := collect (step P) (handled P) (new crypto) es
    (∃ s', s.step P (.timeout w) = some s' ∧ s'.mappings.lookup w.key = none) ∧
      log[w.serial]? = some w.key ∧
      (w.key ∉ log.drop (w.serial + 1) ↔
        ∀ w' ∈ s.waiting ++ s.expired, w'.key = w.key → w'.serial ≤ w.serial) := by
  have hA := armed_run h
  refine ⟨⟨_, if_pos hw, ?_⟩, hA.named w (List.mem_append_right _ hw), fun hidle w' hw' hkey => ?_,
    fun hlast => ?_⟩
  · unfold eraseMapping
    dsimp only
    rw [hl]
    exact AList.lookup_erase _ _
  · -- a later wait for the key is a datagram handled since
    by_contra hlt
    refine hidle (List.mem_iff_getElem?.mpr ⟨w'.serial - (w.serial + 1), ?_⟩)
    rw [List.getElem?_drop, show w.serial + 1 + (w'.serial - (w.serial + 1)) = w'.serial by omega,
      hA.named w' hw', hkey]
  · -- the last wait of the mapping is outstanding, so it is this one
    obtain ⟨w', hw', hkey, hidle⟩ := hA.latest w.key mapping (fun hnone => by cases hnone) hl
    have hle := hlast w' hw' hkey
    intro hmem
    refine hidle (List.drop_subset_drop_left _ ?_ hmem)
    omega

/-- The key of the datagrams below. -/
def demoKey : Bytes := mappingKey demoPlatform demoClient demoAddress

/-- A datagram is handled and the time of its wait expires. -/
def demoExpired : List Event := demoAsked ++ [.expire ⟨0, 0, demoKey⟩]

theorem removal_idle_demo :
    ∃ s s' mapping, Reaches demoPlatform demoFactory demoExpired s ∧
      s.mappings.lookup demoKey = some mapping ∧
      s.step demoPlatform (.timeout ⟨0, 0, demoKey⟩) = some s' ∧ s'.mappings.lookup demoKey = none ∧
      demoKey ∉ (collect (step demoPlatform) (handled demoPlatform) (new demoFactory)
        demoExpired).drop 1 := by
  obtain ⟨s, mapping, h, hl, hw, hrest⟩ : ∃ s mapping,
      Reaches demoPlatform demoFactory demoExpired s ∧ s.mappings.lookup demoKey = some mapping ∧
      s.expired = [⟨0, 0, demoKey⟩] ∧ s.waiting = [] := ⟨_, _, rfl, rfl, rfl, rfl⟩
  obtain ⟨⟨s', hs, hnone⟩, -, hidle⟩ :=
    removal_idle_iff (w := ⟨0, 0, demoKey⟩) h (by simp [hw]) hl
  refine ⟨s, s', mapping, h, hl, hs, hnone, hidle.mpr fun w' hw' _ => ?_⟩
  rw [hw, hrest, List.nil_append, List.mem_singleton] at hw'
  rw [hw']

/-- While the handler of the first wait is queued a second datagram of the flow is handled; the
    handler removes the mapping all the same. -/
theorem active_mapping_removed :
    ∃ s s' mapping, Reaches demoPlatform demoFactory (demoExpired ++
        [.arrive (demoDatagram ([1, 1, 2, 3, 4, 0, 53] ++ [8])) demoClient, .received ⟨true, true, true⟩]) s ∧
      s.mappings.lookup demoKey = some mapping ∧
      s.step demoPlatform (.timeout ⟨0, 0, demoKey⟩) = some s' ∧ s'.mappings.lookup demoKey = none ∧
      demoKey ∈ (collect (step demoPlatform) (handled demoPlatform) (new demoFactory) (demoExpired ++
        [.arrive (demoDatagram ([1, 1, 2, 3, 4, 0, 53] ++ [8])) demoClient,
          .received ⟨true, true, true⟩])).drop 1 :=
  ⟨_, _, _, rfl, rfl, rfl, rfl, List.mem_singleton.mpr rfl⟩

end UdpRelaySession

end Ovpn2ss.Udp
