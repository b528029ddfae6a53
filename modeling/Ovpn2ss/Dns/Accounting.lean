/-
  What becomes of a resolution: each call of `async_resolve` that returned is waiting in
  `dns_queries_` with its timeout armed, or its handler was posted once, or `stop` discarded it.

  As long as no call draws an id that is taken, every event moves calls between these places and
  loses none, and only pending queries have pcbs (`Tracked`, `tracked_run`); `resolutions_accounted`
  follows. An id is taken if it is a key of `dns_queries_`, or if the handler of a timer that
  expired under that id is still queued: ids are what `emplace` and the timers go by. They are 16
  bits of a counter that all instances share, so they do come back (`resolution_lost`).
-/
import Ovpn2ss.Dns.Once

namespace Ovpn2ss.Dns.LwipRuntime

open Ovpn2ss.Lib Ovpn2ss.Lwip

variable {ipaddrAton : Bytes → Option IpAddr} {s s' : LwipRuntime}

/-- The timer of `query` is waiting, or its handler is queued and will take effect. -/
def TimeoutArmed (s : LwipRuntime) (query : DnsQuery) : Prop :=
  s.lifetimeToken = true ∧ ∃ w, (w ∈ s.waiting ∨ w ∈ s.expired) ∧ w.call = query.call ∧
    w.id = query.id ∧ w.lifetime = s.lifetime

/-- What holds between events while ids are not reused. -/
structure Tracked (s : LwipRuntime) : Prop extends Once s where
  pcbs : s.udpPcbs.Perm s.heldCalls
  found : ∀ c ∈ s.returned, c ∈ s.tracked
  armed : ∀ query, s.dnsQueries.lookup query.id = some query → query.call ∈ s.returned →
    s.TimeoutArmed query
  waiting : ∀ w ∈ s.waiting, s.lifetimeToken = true ∧ w.lifetime = s.lifetime ∧
    ∃ query, s.dnsQueries.lookup w.id = some query ∧ query.call = w.call
  expired : ∀ w ∈ s.expired, w.lifetime ≤ s.lifetime ∧ (s.lifetimeToken = true →
    w.lifetime = s.lifetime → ∀ query, s.dnsQueries.lookup w.id = some query → query.call = w.call)
  dead : s.lifetimeToken = false → s.dnsQueries = ∅
  causes : ∀ p ∈ s.posted, p.cause = p.call

/-! ## Moving a call -/

/-- Completing a query on behalf of its own call. -/
theorem Tracked.completeDnsQuery (h : Tracked s) {id : Nat} (err : ErrT) (ip : Option IpAddr)
    {cause : Nat} (hcause : ∀ query, s.dnsQueries.lookup id = some query → query.call = cause) :
    Tracked (s.completeDnsQuery id err ip cause) := by
  have honce := h.toOnce.completeDnsQuery id err ip cause
  have hperm := tracked_completeDnsQuery s id err ip cause
  cases hq : s.dnsQueries.lookup id with
  | none => rwa [completeDnsQuery_of_free hq]
  | some query =>
    rw [completeDnsQuery_of_held hq] at honce hperm ⊢
    refine { honce with
      pcbs := ?_, found := ?_, armed := ?_, waiting := ?_, expired := ?_, dead := ?_, causes := ?_ }
    · have hpcbs := (h.pcbs.trans (heldCalls_erase hq)).erase query.call
      rwa [List.erase_cons_head] at hpcbs
    · intro c hc
      exact hperm.mem_iff.mpr (h.found c hc)
    · intro query' hl hret
      obtain ⟨hne, hl⟩ := Table.lookup_of_lookup_erase hl
      obtain ⟨htoken, w, hw, hcall, hrest⟩ := h.armed query' hl hret
      -- only the timer of the completed call is cancelled
      refine ⟨htoken, w, hw.imp_left fun hw => ?_, hcall, hrest⟩
      refine List.mem_filter.mpr ⟨hw, decide_eq_true ?_⟩
      rw [hcall]
      exact fun hc => hne (h.call_inj hl hq hc)
    · intro w hw
      obtain ⟨hw, hcall⟩ := List.mem_filter.mp hw
      obtain ⟨htoken, hlife, query', hl, hc⟩ := h.waiting w hw
      have hne : w.id ≠ id := by
        intro hid
        rw [hid, hq] at hl
        obtain rfl := Option.some.inj hl
        exact of_decide_eq_true hcall hc.symm
      exact ⟨htoken, hlife, query', (AList.lookup_erase_ne hne).trans hl, hc⟩
    · intro w hw
      obtain ⟨hle, hown⟩ := h.expired w hw
      refine ⟨hle, fun htoken hlife query' hl => ?_⟩
      exact hown htoken hlife query' (Table.lookup_of_lookup_erase hl).2
    · intro htoken
      have hempty := h.dead htoken
      rw [hempty, AList.lookup_empty] at hq
      cases hq
    · intro p hp
      rcases List.mem_append.mp hp with hp | hp
      · exact h.causes p hp
      · rw [List.mem_singleton.mp hp]
        exact (hcause query hq).symm

theorem Tracked.completeOwn (h : Tracked s) {query : DnsQuery}
    (hq : s.dnsQueries.lookup query.id = some query) (err : ErrT) (ip : Option IpAddr) :
    Tracked (s.completeDnsQuery query.id err ip query.call) :=
  h.completeDnsQuery err ip fun query' hq' => by rw [Option.some.inj (hq.symm.trans hq')]

/-- A new call posts its own handler. -/
theorem Tracked.post (h : Tracked s) {c : Nat} (hnew : c ∉ s.tracked) (hc : c < s.calls)
    (err : ErrT) (ip : Option IpAddr) : Tracked (s.post c err ip) := by
  refine { h.toOnce.post hnew hc err ip, h with found := ?_, causes := ?_ }
  · intro c' hc'
    exact (tracked_post s c err ip).mem_iff.mpr (List.mem_cons_of_mem c (h.found c' hc'))
  · intro p hp
    rcases List.mem_append.mp hp with hp | hp
    · exact h.causes p hp
    · rw [List.mem_singleton.mp hp]

/-- A new call puts its query into the table, under an id that is not taken, and has a pcb. -/
theorem Tracked.insert (h : Tracked s) {query : DnsQuery} (hnew : query.call ∉ s.tracked)
    (hc : query.call < s.calls) (htoken : s.lifetimeToken = true)
    (hfree : s.dnsQueries.lookup query.id = none)
    (hstale : ∀ w ∈ s.expired, w.lifetime = s.lifetime → w.id ≠ query.id) :
    Tracked { s with
      udpPcbs := query.call :: s.udpPcbs
      dnsQueries := s.dnsQueries.insert query.id query } := by
  have honce : Once { s with
      udpPcbs := query.call :: s.udpPcbs
      dnsQueries := s.dnsQueries.insert query.id query } :=
    (h.toOnce.insert hfree hnew hc).frame rfl rfl rfl rfl
  refine { honce with
    pcbs := ?_, found := ?_, armed := ?_, waiting := ?_, expired := ?_, dead := ?_, causes := h.causes }
  · unfold heldCalls
    rw [Table.values_insert hfree]
    exact h.pcbs.cons _
  · intro c hret
    have hmem : c ∈ query.call :: s.tracked := List.mem_cons_of_mem _ (h.found c hret)
    rwa [← tracked_insert hfree] at hmem
  · intro query' hl hret
    rcases Table.lookup_of_lookup_insert hl with ⟨-, rfl⟩ | ⟨-, hl⟩
    -- the call is new, so it has not returned
    · exact absurd (h.found _ hret) hnew
    · exact h.armed query' hl hret
  · intro w hw
    obtain ⟨htoken, hlife, query', hl, hcall⟩ := h.waiting w hw
    have hne : w.id ≠ query.id := by
      intro hid
      rw [hid, hfree] at hl
      cases hl
    exact ⟨htoken, hlife, query', (AList.lookup_insert_ne hne).trans hl, hcall⟩
  · intro w hw
    obtain ⟨hle, hown⟩ := h.expired w hw
    refine ⟨hle, fun _ hlife query' hl => ?_⟩
    rcases Table.lookup_of_lookup_insert hl with ⟨hid, -⟩ | ⟨-, hl⟩
    · exact absurd hid (hstale w hw hlife)
    · exact hown htoken hlife query' hl
  · intro hdead
    exact absurd htoken (Bool.eq_false_iff.mp hdead)

/-- The timer of a query in the table starts. -/
theorem Tracked.arm (h : Tracked s) {query : DnsQuery} (htoken : s.lifetimeToken = true)
    (hq : s.dnsQueries.lookup query.id = some query) :
    Tracked { s with waiting := s.waiting ++ [⟨query.call, query.id, s.lifetime⟩] } := by
  refine { h with armed := ?_, waiting := ?_ }
  · intro query' hl hret
    obtain ⟨htoken, w, hw, hrest⟩ := h.armed query' hl hret
    exact ⟨htoken, w, hw.imp_left (List.mem_append_left _), hrest⟩
  · intro w hw
    rcases List.mem_append.mp hw with hw | hw
    · exact h.waiting w hw
    · rw [List.mem_singleton.mp hw]
      exact ⟨htoken, rfl, query, hq, rfl⟩

/-- The fields that do not count. -/
theorem Tracked.of_update (h : Tracked s) (activeConfig : TunConfig) (nextId : Nat)
    (sent : List (Bytes × IpAddr × Nat)) :
    Tracked { s with activeConfig := activeConfig, nextId := nextId, sent := sent } :=
  { h with }

/-! ## `async_resolve` -/

/-- Where a call begins with a new token, no query is left of the time before, and no timer of then
    takes effect any more. -/
theorem Tracked.begun (h : Tracked s) : Tracked s.begun := by
  cases htoken : s.lifetimeToken with
  | true =>
    have hlife : s.begun.lifetime = s.lifetime := if_pos htoken
    refine { h.toOnce.begun, h with armed := ?_, waiting := ?_, expired := ?_, dead := ?_ }
    · intro query hl hret
      obtain ⟨-, w, hw, hcall, hid, hw'⟩ := h.armed query hl hret
      exact ⟨rfl, w, hw, hcall, hid, hw'.trans hlife.symm⟩
    · intro w hw
      exact ⟨rfl, (h.waiting w hw).2.1.trans hlife.symm, (h.waiting w hw).2.2⟩
    · intro w hw
      rw [hlife]
      exact ⟨(h.expired w hw).1, fun _ => (h.expired w hw).2 htoken⟩
    · intro hdead
      cases hdead
  | false =>
    have hlife : s.begun.lifetime = s.lifetime + 1 := if_neg (by rw [htoken]; decide)
    have hempty := h.dead htoken
    refine { h.toOnce.begun, h with armed := ?_, waiting := ?_, expired := ?_, dead := ?_ }
    · intro query hl
      have hl : s.dnsQueries.lookup query.id = some query := hl
      rw [hempty, AList.lookup_empty] at hl
      cases hl
    · intro w hw
      have hlive := (h.waiting w hw).1
      rw [htoken] at hlive
      cases hlive
    · intro w hw
      have hle := (h.expired w hw).1
      rw [hlife]
      exact ⟨Nat.le_succ_of_le hle, fun _ heq => absurd (heq ▸ hle) (Nat.not_succ_le_self _)⟩
    · intro hdead
      cases hdead

theorem Tracked.drawn (h : Tracked s) : Tracked s.drawn := h.begun.of_update _ _ _

/-- What `async_resolve` owes a call when it returns. -/
def Settled (s : LwipRuntime) (c : Nat) : Prop :=
  c ∈ s.tracked ∧ ∀ query, s.dnsQueries.lookup query.id = some query → query.call = c →
    s.TimeoutArmed query

theorem Tracked.settled_of_posted (h : Tracked s) {c : Nat} (hc : c ∈ s.postedCalls) :
    Settled s c := by
  refine ⟨List.mem_append_right _ (List.mem_append_left _ hc), fun query hl hcall => ?_⟩
  exact absurd hc (h.disjoint (mem_heldCalls.mpr ⟨query.id, query, hl, hcall⟩)).1

theorem Tracked.returned (h : Tracked s) {c : Nat} (hc : Settled s c) :
    Tracked { s with returned := s.returned ++ [c] } := by
  refine { h with found := ?_, armed := ?_ }
  · intro c' hc'
    rcases List.mem_append.mp hc' with hc' | hc'
    · exact h.found c' hc'
    · rw [List.mem_singleton.mp hc']
      exact hc.1
  · intro query hl hret
    rcases List.mem_append.mp hret with hret | hret
    · exact h.armed query hl hret
    · exact hc.2 query hl (List.mem_singleton.mp hret)

theorem Tracked.post_settled (h : Tracked s) {c : Nat} (hnew : c ∉ s.tracked) (hc : c < s.calls)
    (err : ErrT) (ip : Option IpAddr) :
    Tracked (s.post c err ip) ∧ Settled (s.post c err ip) c := by
  have hdone := h.post hnew hc err ip
  refine ⟨hdone, hdone.settled_of_posted (List.mem_map.mpr ⟨⟨c, err, ip, c⟩, ?_, rfl⟩)⟩
  exact List.mem_append_right _ List.mem_cons_self

theorem mem_postedCalls_completeDnsQuery {id : Nat} {query : DnsQuery}
    (hq : s.dnsQueries.lookup id = some query) (err : ErrT) (ip : Option IpAddr) (cause : Nat) :
    query.call ∈ (s.completeDnsQuery id err ip cause).postedCalls := by
  rw [completeDnsQuery_of_held hq]
  exact List.mem_map.mpr
    ⟨⟨query.call, err, ip, cause⟩, List.mem_append_right _ List.mem_cons_self, rfl⟩

/-- A query in the table fails or is left with its timer: either settles its call. -/
theorem Tracked.fail (h : Tracked s) {query : DnsQuery}
    (hq : s.dnsQueries.lookup query.id = some query) (err : ErrT) :
    Tracked (s.completeDnsQuery query.id err none query.call) ∧
      Settled (s.completeDnsQuery query.id err none query.call) query.call := by
  have hdone := h.completeOwn hq err none
  exact ⟨hdone, hdone.settled_of_posted (mem_postedCalls_completeDnsQuery hq err none query.call)⟩

theorem Tracked.armTimeout (h : Tracked s) {query : DnsQuery} (htoken : s.lifetimeToken = true)
    (hq : s.dnsQueries.lookup query.id = some query) :
    Tracked (s.armTimeout query) ∧ Settled (s.armTimeout query) query.call := by
  unfold LwipRuntime.armTimeout
  rw [if_pos hq]
  refine ⟨h.arm htoken hq, ?_, fun query' hl hcall => ?_⟩
  · exact List.mem_append_left _ (mem_heldCalls.mpr ⟨query.id, query, hq, rfl⟩)
  · have hid : query'.id = query.id := h.call_inj hl hq hcall
    refine ⟨htoken, ⟨query.call, query.id, s.lifetime⟩, .inl ?_, hcall.symm, hid.symm, rfl⟩
    exact List.mem_append_right _ List.mem_cons_self

/-- The id a call is about to put its query under is free: it is no key of `dns_queries_`, and
    no timer that expired under it has its handler queued. -/
def IdFree (ipaddrAton : Bytes → Option IpAddr) (s : LwipRuntime) : Event → Prop
  | .resolve host a => ∀ server, ipaddrAton host = none →
      dnsServer ipaddrAton s.activeConfig = .ok (some server) → a.udpNew = true →
      s.dnsQueries.lookup (s.nextId % 65536) = none ∧ ∀ w ∈ s.expired,
        s.lifetimeToken = true → w.lifetime = s.lifetime → w.id ≠ s.nextId % 65536
  | _ => True

/-- A timer that takes effect in a call that begins took effect before it. -/
theorem Tracked.live_of_begun (h : Tracked s) {w : Wait} (hw : w ∈ s.expired)
    (hlife : w.lifetime = s.begun.lifetime) : s.lifetimeToken = true ∧ w.lifetime = s.lifetime := by
  cases htoken : s.lifetimeToken with
  | true => exact ⟨rfl, hlife.trans (if_pos htoken)⟩
  | false =>
    have hnew : s.begun.lifetime = s.lifetime + 1 := if_neg (by rw [htoken]; decide)
    have hle := (h.expired w hw).1
    omega

theorem asked_of_free {server : IpAddr} (hfree : s.dnsQueries.lookup (s.ownQuery server).id = none) :
    s.asked server = { s.drawn with
      udpPcbs := (s.ownQuery server).call :: s.drawn.udpPcbs
      dnsQueries := s.drawn.dnsQueries.insert (s.ownQuery server).id (s.ownQuery server) } := by
  unfold asked
  rw [if_neg (Option.not_isSome_iff_eq_none.mpr hfree)]
  rfl

/-- The query of the call is in the table under the id it has drawn. -/
theorem Tracked.asked (h : Tracked s) {a : DnsAnswers} {host : Bytes} {server : IpAddr}
    (hreach : Reaches ipaddrAton s a host server)
    (hfree : IdFree ipaddrAton s (.resolve host a)) :
    Tracked (s.asked server) ∧
      (s.asked server).dnsQueries.lookup (s.ownQuery server).id = some (s.ownQuery server) := by
  obtain ⟨hnone, hstale⟩ := hfree server hreach.named hreach.configured hreach.udpNew
  have hnone : s.dnsQueries.lookup (s.ownQuery server).id = none := hnone
  rw [asked_of_free hnone]
  refine ⟨h.drawn.insert h.new_call (Nat.lt_succ_self _) rfl hnone fun w hw hlife => ?_,
    AList.lookup_insert _⟩
  obtain ⟨hlive, hlife⟩ := h.live_of_begun hw hlife
  exact hstale w hw hlive hlife

theorem Tracked.resolves (h : Tracked s) {a : DnsAnswers} {host : Bytes} {r : Except String Unit}
    {t : LwipRuntime} (hfree : IdFree ipaddrAton s (.resolve host a))
    (hr : Resolves ipaddrAton s a host r t) : Tracked t ∧ (r = .ok () → Settled t s.calls) := by
  cases hr with
  | literal | noServer =>
    exact (h.begun.post_settled h.new_call (Nat.lt_succ_self _) _ _).imp_right fun hs _ => hs
  | badServer => exact ⟨h.begun, fun hok => by cases hok⟩
  | noPcb => exact (h.drawn.post_settled h.new_call (Nat.lt_succ_self _) _ _).imp_right fun hs _ => hs
  | badName hreach => exact ⟨(h.asked hreach hfree).1, fun hok => by cases hok⟩
  | noPbuf hreach =>
    obtain ⟨hasked, hq⟩ := h.asked hreach hfree
    exact (hasked.fail hq _).imp_right fun hs _ => hs
  | @refused server packet hreach =>
    obtain ⟨hasked, hq⟩ := h.asked hreach hfree
    have hsent : Tracked (s.questioned server packet) := hasked.of_update _ _ _
    exact (hsent.fail hq _).imp_right fun hs _ => hs
  | @sent server packet hreach =>
    obtain ⟨hasked, hq⟩ := h.asked hreach hfree
    have hsent : Tracked (s.questioned server packet) := hasked.of_update _ _ _
    exact (hsent.armTimeout rfl hq).imp_right fun hs _ => hs

/-! ## Datagrams, timers and `stop` -/

theorem Tracked.dnsRecv (h : Tracked s) {query : DnsQuery} {p : Option Bytes}
    (hq : s.dnsQueries.lookup query.id = some query) (hs : s.dnsRecv query p = some s') :
    Tracked s' := by
  obtain rfl | ⟨-, ip, -, -, -, rfl⟩ := dnsRecv_cases hs
  · exact h
  · exact h.completeOwn hq _ ip

/-- A pcb that is registered has its query. -/
theorem Tracked.not_dangling (h : Tracked s) {call : Nat} (hpcb : call ∈ s.udpPcbs) :
    call ∈ s.heldCalls :=
  h.pcbs.mem_iff.mp hpcb

theorem Tracked.expire (h : Tracked s) (w : Wait) (hw : w ∈ s.waiting) :
    Tracked { s with waiting := s.waiting.erase w, expired := s.expired ++ [w] } := by
  refine { h with armed := ?_, waiting := ?_, expired := ?_ }
  · intro query hl hret
    obtain ⟨htoken, v, hv, hrest⟩ := h.armed query hl hret
    refine ⟨htoken, v, ?_, hrest⟩
    rcases hv with hv | hv
    · by_cases hvw : v = w
      · exact .inr (List.mem_append_right _ (List.mem_singleton.mpr hvw))
      · exact .inl ((List.mem_erase_of_ne hvw).mpr hv)
    · exact .inr (List.mem_append_left _ hv)
  · intro v hv
    exact h.waiting v (List.mem_of_mem_erase hv)
  · intro v hv
    rcases List.mem_append.mp hv with hv | hv
    · exact h.expired v hv
    · rw [List.mem_singleton.mp hv]
      obtain ⟨-, hlife, query, hl, hcall⟩ := h.waiting w hw
      refine ⟨hlife.le, fun _ _ query' hl' => ?_⟩
      rw [← Option.some.inj (hl.symm.trans hl'), hcall]

/-- The handler of a timer is gone, and with it goes nothing that was to come of it. -/
theorem Tracked.erase_expired (h : Tracked s) {w : Wait}
    (hidle : s.lifetimeToken = true → w.lifetime = s.lifetime → s.dnsQueries.lookup w.id = none) :
    Tracked { s with expired := s.expired.erase w } := by
  refine { h with armed := ?_, expired := ?_ }
  · intro query hl hret
    obtain ⟨htoken, v, hv, hcall, hid, hlife⟩ := h.armed query hl hret
    refine ⟨htoken, v, hv.imp_right fun hv => ?_, hcall, hid, hlife⟩
    refine (List.mem_erase_of_ne ?_).mpr hv
    rintro rfl
    have hnone := hidle htoken hlife
    rw [hid] at hnone
    cases hnone.symm.trans hl
  · intro v hv
    exact h.expired v (List.mem_of_mem_erase hv)

theorem lookup_completeDnsQuery (s : LwipRuntime) (id : Nat) (err : ErrT) (ip : Option IpAddr)
    (cause : Nat) : (s.completeDnsQuery id err ip cause).dnsQueries.lookup id = none := by
  unfold LwipRuntime.completeDnsQuery
  cases hq : s.dnsQueries.lookup id with
  | none => exact hq
  | some query => exact AList.lookup_erase id s.dnsQueries

theorem completeDnsQuery_expired (s : LwipRuntime) (waits : List Wait) (id : Nat) (err : ErrT)
    (ip : Option IpAddr) (cause : Nat) :
    { s with expired := waits }.completeDnsQuery id err ip cause =
      { s.completeDnsQuery id err ip cause with expired := waits } := by
  unfold LwipRuntime.completeDnsQuery
  dsimp only
  split <;> rfl

theorem completeDnsQuery_frame (s : LwipRuntime) (id : Nat) (err : ErrT) (ip : Option IpAddr)
    (cause : Nat) : (s.completeDnsQuery id err ip cause).expired = s.expired := by
  unfold LwipRuntime.completeDnsQuery
  split <;> rfl

theorem Tracked.onTimeout (h : Tracked s) {w : Wait} (hw : w ∈ s.expired) :
    Tracked ({ s with expired := s.expired.erase w }.onTimeout w) := by
  unfold LwipRuntime.onTimeout
  split
  case isTrue hlive =>
    obtain ⟨hlife, htoken⟩ := hlive
    have hdone := h.completeDnsQuery .ERR_TIMEOUT none ((h.expired w hw).2 htoken hlife)
    have herase := hdone.erase_expired (w := w)
      fun _ _ => lookup_completeDnsQuery s w.id .ERR_TIMEOUT none w.call
    rw [completeDnsQuery_frame] at herase
    rw [completeDnsQuery_expired]
    exact herase
  case isFalse hdead =>
    exact h.erase_expired fun htoken hlife => absurd ⟨hlife, htoken⟩ hdead

theorem Tracked.stop (h : Tracked s) : Tracked s.stop := by
  have hnone {id : Nat} {query : DnsQuery} : s.stop.dnsQueries.lookup id ≠ some query := by
    intro hl
    cases hl
  refine { h.toOnce.stop with
    pcbs := ?_, found := ?_, armed := ?_, waiting := ?_, expired := ?_, dead := fun _ => rfl
    causes := h.causes }
  · have hpcbs : s.udpPcbs.filter (· ∉ s.heldCalls) = [] :=
      List.filter_eq_nil_iff.mpr fun c hc => by simpa using h.not_dangling hc
    show (s.udpPcbs.filter (· ∉ s.heldCalls)).Perm []
    rw [hpcbs]
  · exact fun c hc => (tracked_stop s).mem_iff.mpr (h.found c hc)
  · exact fun _ hl => absurd hl hnone
  · intro w hw
    obtain ⟨hw, hkept⟩ := List.mem_filter.mp hw
    obtain ⟨-, -, query, hl, hcall⟩ := h.waiting w hw
    have hheld : w.call ∈ s.heldCalls := mem_heldCalls.mpr ⟨w.id, query, hl, hcall⟩
    exact absurd hheld (of_decide_eq_true hkept)
  · intro w hw
    exact ⟨(h.expired w hw).1, fun htoken => by cases htoken⟩

/-! ## Runs -/

theorem tracked_new (config : TunConfig) : Tracked (new config) where
  toOnce := once_new config
  pcbs := List.Perm.refl _
  found _ hc := by cases hc
  armed _ hl := by cases hl
  waiting _ hw := by cases hw
  expired _ hw := by cases hw
  dead hdead := by cases hdead
  causes _ hp := by cases hp

theorem tracked_step {e : Event} (h : Tracked s) (hfree : IdFree ipaddrAton s e)
    (hs : step ipaddrAton s e = some s') : Tracked s' := by
  cases fires_of_step hs with
  | threw hr => exact (h.resolves hfree hr).1
  | returned hr =>
    obtain ⟨hdone, hsettled⟩ := h.resolves hfree hr
    exact hdone.returned (hsettled rfl)
  | configure config => exact h.of_update _ _ _
  | othersDraw n => exact h.of_update _ _ _
  | datagram hq hrecv =>
    obtain rfl := h.ids _ _ hq
    exact h.dnsRecv hq hrecv
  | dangling hpcb hgone => exact absurd (h.not_dangling hpcb) hgone
  | expire hw => exact h.expire _ hw
  | timeout hw => exact h.onTimeout hw
  | stop => exact h.stop

theorem tracked_run {config : TunConfig} {es : List Event}
    (hfree : Along (step ipaddrAton) (IdFree ipaddrAton) (new config) es)
    (h : run (step ipaddrAton) (new config) es = some s) : Tracked s :=
  run_guarded_inv Tracked (fun _ _ _ hI hG hs => tracked_step hI hG hs) (tracked_new config) hfree h

/-- The query of a call is in `dns_queries_` under its id, with its timeout armed. -/
def Pending (s : LwipRuntime) (c : Nat) : Prop :=
  ∃ query, s.dnsQueries.lookup query.id = some query ∧ query.call = c ∧ s.TimeoutArmed query

/-- A call is in exactly one of the three places, and posted at most once. -/
def Accounted (s : LwipRuntime) (c : Nat) : Prop :=
  (s.Pending c ∧ s.postedCalls.count c = 0 ∧ c ∉ s.discarded) ∨
  (c ∉ s.heldCalls ∧ s.postedCalls.count c = 1 ∧ c ∉ s.discarded) ∨
  (c ∉ s.heldCalls ∧ s.postedCalls.count c = 0 ∧ c ∈ s.discarded)

theorem Accounted.mem_tracked {c : Nat} (h : Accounted s c) : c ∈ s.tracked := by
  rcases h with ⟨⟨query, hl, hcall, -⟩, -, -⟩ | ⟨-, hcount, -⟩ | ⟨-, -, hdisc⟩
  · exact List.mem_append_left _ (mem_heldCalls.mpr ⟨query.id, query, hl, hcall⟩)
  · have hc : c ∈ s.postedCalls := List.count_pos_iff.mp (by omega)
    exact List.mem_append_right _ (List.mem_append_left _ hc)
  · exact List.mem_append_right _ (List.mem_append_right _ hdisc)

theorem Tracked.accounted (h : Tracked s) {c : Nat} (hret : c ∈ s.returned) : Accounted s c := by
  obtain ⟨-, hnodup, -⟩ := List.nodup_append'.mp h.nodup
  obtain ⟨hposted, -, hapart⟩ := List.nodup_append'.mp hnodup
  rcases List.mem_append.mp (h.found c hret) with hc | hc
  · obtain ⟨id, query, hl, hcall⟩ := mem_heldCalls.mp hc
    have hl : s.dnsQueries.lookup query.id = some query := by rw [h.ids id query hl, hl]
    obtain ⟨hnp, hnd⟩ := h.disjoint hc
    have harmed := h.armed query hl (hcall ▸ hret)
    exact .inl ⟨⟨query, hl, hcall, harmed⟩, List.count_eq_zero.mpr hnp, hnd⟩
  · have hheld : c ∉ s.heldCalls := fun hheld =>
      (List.mem_append.mp hc).elim (h.disjoint hheld).1 (h.disjoint hheld).2
    rcases List.mem_append.mp hc with hp | hd
    · exact .inr (.inl ⟨hheld, List.count_eq_one_of_mem hposted hp, hapart hp⟩)
    · have hnp : c ∉ s.postedCalls := fun hp => hapart hp hd
      exact .inr (.inr ⟨hheld, List.count_eq_zero.mpr hnp, hd⟩)

/-- While every id drawn is free, no resolution is lost or duplicated, and whatever posts a
    handler belongs to the call of that handler. -/
theorem resolutions_accounted {config : TunConfig} {es : List Event}
    (hfree : Along (step ipaddrAton) (IdFree ipaddrAton) (new config) es)
    (h : run (step ipaddrAton) (new config) es = some s) :
    (∀ c ∈ s.returned, Accounted s c) ∧ ∀ p ∈ s.posted, p.cause = p.call := by
  have htracked := tracked_run hfree h
  exact ⟨fun c hret => htracked.accounted hret, htracked.causes⟩

/-- As lwIP reads them: "1" is the address 0.0.0.1, and the other hosts below are names. -/
def demoAton (host : Bytes) : Option IpAddr :=
  if host = [0x31] then some ⟨false, [0, 0, 0, 1]⟩ else none

def demoConfig : TunConfig := ⟨[[0x31]], []⟩

/-- A query that lwIP sends. -/
def demoResolve (host : Bytes) : Event := .resolve host ⟨true, true, .ERR_OK⟩

/-- Two queries, the first of which times out. -/
theorem resolutions_accounted_demo :
    let es := [demoResolve [0x61], demoResolve [0x62], .expire ⟨0, 1, 0⟩, .timeout ⟨0, 1, 0⟩]
    Along (step demoAton) (IdFree demoAton) (new demoConfig) es ∧
      ∃ s, run (step demoAton) (new demoConfig) es = some s ∧ s.returned = [0, 1] ∧
        (∀ c ∈ s.returned, Accounted s c) ∧ ∀ p ∈ s.posted, p.cause = p.call := by
  intro es
  have hfree : Along (step demoAton) (IdFree demoAton) (new demoConfig) es := by
    refine ⟨fun _ _ _ _ => ⟨rfl, fun w hw => by cases hw⟩, fun s₁ h₁ => ?_⟩
    obtain rfl := Option.some.inj h₁
    refine ⟨fun _ _ _ _ => ⟨rfl, fun w hw => by cases hw⟩, fun s₂ h₂ => ?_⟩
    exact along_of_forall (by simp [IdFree]) s₂
  refine ⟨hfree, _, rfl, rfl, ?_⟩
  exact resolutions_accounted hfree rfl

/-- 65536 draws after the id 1, it is drawn again. In the first run a name with an empty label
    has left its query in the table for good, and the call that comes to the same id is lost; in
    the second the send of that call fails, and the handler of the earlier call gets the error. -/
theorem resolution_lost :
    (∃ s, run (step demoAton) (new demoConfig)
        [demoResolve [0x2e], .othersDraw 65535, demoResolve [0x62]] = some s ∧
      1 ∈ s.returned ∧ ¬ Accounted s 1) ∧
    ∃ s, run (step demoAton) (new demoConfig)
        [demoResolve [0x61], .othersDraw 65535, .resolve [0x62] ⟨true, true, .ERR_MEM⟩] = some s ∧
      ∃ p ∈ s.posted, p.cause = 1 ∧ p.call = 0 := by
  refine ⟨⟨_, rfl, by decide, fun h => ?_⟩, _, rfl, _, List.mem_cons_self, rfl, rfl⟩
  exact absurd h.mem_tracked (by decide)

end Ovpn2ss.Dns.LwipRuntime
