/-
  The UDP pcbs of a relay: none is lost, none is used after it is gone.

  `use` says which lwIP calls a set of live pcbs allows: a pcb is made once, sends while it is live, and
  is removed once. `udp_pcbs_protocol`: the calls of every run are allowed, whatever timers, results of
  the resolver and datagrams are queued when the relay is stopped and started, and between two events
  the live pcbs are exactly those of the mappings. So every pcb that is not in use any more has been
  given back, and the idle timers bound how many there are.
-/
import Ovpn2ss.Udp.Mapping

namespace Ovpn2ss.Udp

open Ovpn2ss.Aead Ovpn2ss.Lib Ovpn2ss.Lwip

/-- The live pcbs after a call, if they allow it. -/
def Action.use (live : List Nat) : Action → Option (List Nat)
  | .udpNew pcb => if pcb ∈ live then none else some (pcb :: live)
  | .udpSendto pcb _ _ _ => if pcb ∈ live then some live else none
  | .udpRemove pcb => if pcb ∈ live then some (live.erase pcb) else none
  | _ => some live

namespace UdpRelaySession

/-- The pcbs of the mappings. -/
def mappingPcbs (mappings : Table Bytes Mapping) : List Nat := mappings.values.map (·.pcb)

/-- The calls so far were allowed, and the live pcbs are those of the mappings. -/
structure Owned (live : List Nat) (s : UdpRelaySession) : Prop where
  allowed : run Action.use [] s.trace = some live
  perm : live.Perm (mappingPcbs s.mappings)
  nodup : live.Nodup
  numbered : ∀ pcb ∈ live, pcb < s.pcbs

variable {P : Platform} {s s' : UdpRelaySession} {live live' : List Nat}

theorem mem_mappingPcbs {mappings : Table Bytes Mapping} {key : Bytes} {mapping : Mapping}
    (h : mappings.lookup key = some mapping) : mapping.pcb ∈ mappingPcbs mappings :=
  List.mem_map_of_mem (Table.mem_values.mpr ⟨key, h⟩)

theorem Owned.snoc (h : Owned live s) {act : Action} (ht : s'.trace = s.trace ++ [act])
    (hact : act.use live = some live') (hperm : live'.Perm (mappingPcbs s'.mappings))
    (hnodup : live'.Nodup) (hnum : ∀ pcb ∈ live', pcb < s'.pcbs) : Owned live' s' where
  allowed := by
    rw [ht]
    exact run_append.mpr ⟨live, h.allowed, run_cons.mpr ⟨live', hact, rfl⟩⟩
  perm := hperm
  nodup := hnodup
  numbered := hnum

/-- A call that changes nothing. -/
theorem Owned.quiet (h : Owned live s) {act : Action} (hact : act.use live = some live) :
    Owned live (s.log act) :=
  h.snoc rfl hact h.perm h.nodup h.numbered

theorem Owned.frame (h : Owned live s) (ht : s'.trace = s.trace) (hm : s'.mappings = s.mappings)
    (hp : s'.pcbs = s.pcbs) : Owned live s' where
  allowed := ht ▸ h.allowed
  perm := hm ▸ h.perm
  nodup := h.nodup
  numbered := hp ▸ h.numbered

theorem Owned.receiveLoop (h : Owned live s) : Owned live s.receiveLoop := by
  unfold UdpRelaySession.receiveLoop
  split
  · exact h
  · have hquiet : Owned live (s.log .asyncReceiveFrom) := h.quiet rfl
    exact hquiet.frame rfl rfl rfl

/-- What goes out on a live pcb. -/
theorem Owned.sendsOn (h : Owned live s) {pcb : Nat} (hmem : pcb ∈ live) (a : UdpAnswers) (payload : Bytes)
    (ip : IpAddr) (port : Nat) (ht : s'.trace = s.trace ++ sendsOn a payload pcb ip port)
    (hm : s'.mappings = s.mappings) (hp : s'.pcbs = s.pcbs) : Owned live s' := by
  unfold UdpRelaySession.sendsOn at ht
  split at ht
  · exact h.snoc ht (if_pos hmem) (hm ▸ h.perm) h.nodup (hp ▸ h.numbered)
  · exact h.frame (ht.trans (List.append_nil _)) hm hp

/-- A mapping is found, with its pcb, or made with a new one. -/
theorem Sends.owned {a : UdpAnswers} {payload : Bytes} {client : Endpoint} {target : TargetAddress}
    {ip : IpAddr} (hs : Sends P s a payload client target ip s') (h : Owned live s) :
    ∃ live', Owned live' s' := by
  cases hs with
  | refused => exact ⟨live, h⟩
  | found hl =>
    exact ⟨live, h.sendsOn (h.perm.mem_iff.mpr (mem_mappingPcbs hl)) a payload ip target.port rfl rfl rfl⟩
  | made hl =>
    have hfresh : s.pcbs ∉ live := fun hmem => Nat.lt_irrefl _ (h.numbered _ hmem)
    have hmade : Owned (s.pcbs :: live)
        { s.log (.udpNew s.pcbs) with
          pcbs := s.pcbs + 1
          mappings := s.mappings.insert (mappingKey P client target) (s.newMapping P client target) } := by
      refine h.snoc rfl (if_neg hfresh) ?_ (List.nodup_cons.mpr ⟨hfresh, h.nodup⟩) fun pcb hpcb => ?_
      · rw [mappingPcbs, Table.values_insert hl, List.map_cons]
        exact h.perm.cons s.pcbs
      · obtain rfl | hpcb := List.mem_cons.mp hpcb
        · exact Nat.lt_succ_self _
        · exact Nat.lt_succ_of_lt (h.numbered pcb hpcb)
    refine ⟨s.pcbs :: live, hmade.sendsOn List.mem_cons_self a payload ip target.port ?_ rfl rfl⟩
    exact (List.append_cons ..)

theorem Owned.removed (h : Owned live s) {key : Bytes} {mapping : Mapping}
    (hl : s.mappings.lookup key = some mapping) (ht : s'.trace = s.trace ++ [.udpRemove mapping.pcb])
    (hm : s'.mappings = s.mappings.erase key) (hp : s'.pcbs = s.pcbs) :
    Owned (live.erase mapping.pcb) s' := by
  have hmem : mapping.pcb ∈ live := h.perm.mem_iff.mpr (mem_mappingPcbs hl)
  have hvalues : (mappingPcbs s.mappings).Perm (mapping.pcb :: mappingPcbs (s.mappings.erase key)) :=
    (Table.values_erase hl).map _
  refine h.snoc ht (if_pos hmem) ?_ (h.nodup.erase _) fun pcb hpcb =>
    hp ▸ h.numbered pcb (List.mem_of_mem_erase hpcb)
  rw [hm]
  refine List.Perm.trans ((h.perm.trans hvalues).erase mapping.pcb) ?_
  rw [List.erase_cons_head]

/-- All live pcbs are removed, in whatever order. -/
theorem run_removeAll {pcbs : List Nat} (h : live.Perm pcbs) :
    run Action.use live (pcbs.map .udpRemove) = some [] := by
  induction pcbs generalizing live with
  | nil =>
    rw [h.eq_nil]
    rfl
  | cons pcb pcbs ih =>
    have hmem : pcb ∈ live := h.mem_iff.mpr List.mem_cons_self
    have hrest : (live.erase pcb).Perm pcbs := by
      have := h.erase pcb
      rwa [List.erase_cons_head] at this
    exact run_cons.mpr ⟨live.erase pcb, if_pos hmem, ih hrest⟩

theorem Owned.stop (h : Owned live s) : Owned [] s.stop where
  allowed := run_append.mpr ⟨live, h.allowed, run_removeAll h.perm⟩
  perm := List.Perm.refl []
  nodup := List.nodup_nil
  numbered _ hmem := (by cases hmem)

theorem Handles.owned {a : UdpAnswers} {datagram : Bytes} {client : Endpoint}
    (hs : Handles P s a datagram client s') (h : Owned live s) : ∃ live', Owned live' s' := by
  cases hs with
  | closed | unreadable => exact ⟨live, h⟩
  | asks => exact ⟨live, h.snoc rfl rfl h.perm h.nodup h.numbered⟩
  | sends _ _ _ hsends => exact hsends.owned h

theorem owned_step {e : Event} (h : Owned live s) (hs : s.step P e = some s') :
    ∃ live', Owned live' s' := by
  cases fires_of_step hs with
  | start => exact ⟨live, h.snoc rfl rfl h.perm h.nodup h.numbered⟩
  | stop => exact ⟨[], h.stop⟩
  | arrive | ignored | noPbuf | expire | missed => exact ⟨live, h.frame rfl rfl rfl⟩
  | received harrived ht =>
    obtain ⟨live', hlive⟩ := ht.owned (h.frame rfl rfl rfl)
    exact ⟨live', hlive.receiveLoop⟩
  | receiveFailed => exact ⟨live, Owned.receiveLoop (h.frame rfl rfl rfl)⟩
  | resolved _ _ hsends => exact hsends.owned (h.frame rfl rfl rfl)
  | udpRecv hl _ hsend =>
    obtain ⟨datagram, rfl⟩ := sendToClient_logs hsend
    exact ⟨live, h.quiet rfl⟩
  | removed _ hl => exact ⟨_, h.removed hl rfl rfl rfl⟩

/-- The lwIP calls of every run are allowed: a pcb sends only while it is live, and is removed once.
    Between two events the live pcbs are those of the mappings, one each. -/
theorem udp_pcbs_protocol {crypto : ShadowsocksAeadFactory} {es : List Event} (h : Reaches P crypto es s) :
    ∃ live, run Action.use [] s.trace = some live ∧ live.Nodup ∧
      live.Perm (s.mappings.values.map (·.pcb)) := by
  have hnew : Owned [] (new crypto) :=
    ⟨rfl, List.Perm.refl [], List.nodup_nil, fun _ hmem => (by cases hmem)⟩
  obtain ⟨live, hlive⟩ := run_inv (fun s => ∃ live, Owned live s)
    (fun _ _ _ hI hs => by
      obtain ⟨live, hlive⟩ := hI
      exact owned_step hlive hs) ⟨[], hnew⟩ h
  exact ⟨live, hlive.allowed, hlive.nodup, hlive.perm⟩

/-- A second target is asked for. -/
def demoTwoAsked : List Event :=
  demoAsked ++ [.arrive (demoDatagram ([1, 5, 6, 7, 8, 0, 53] ++ [7])) demoClient,
    .received ⟨true, true, true⟩]

/-- Two mappings have their pcbs, and `stop` removes both. -/
theorem udp_pcbs_protocol_demo :
    ∃ s t, Reaches demoPlatform demoFactory demoTwoAsked s ∧
      Reaches demoPlatform demoFactory (demoTwoAsked ++ [Event.stop]) t ∧
      (∃ live, run Action.use [] s.trace = some live ∧ live.Perm [1, 0]) ∧
      run Action.use [] t.trace = some [] := by
  obtain ⟨s, t, hs, ht, hpcbs, hnone⟩ : ∃ s t, Reaches demoPlatform demoFactory demoTwoAsked s ∧
      Reaches demoPlatform demoFactory (demoTwoAsked ++ [Event.stop]) t ∧
      s.mappings.values.map (·.pcb) = [1, 0] ∧ t.mappings.values.map (·.pcb) = [] :=
    ⟨_, _, rfl, rfl, rfl, rfl⟩
  obtain ⟨live, hrun, -, hperm⟩ := udp_pcbs_protocol hs
  obtain ⟨live', hrun', -, hperm'⟩ := udp_pcbs_protocol ht
  rw [hpcbs] at hperm
  rw [hnone] at hperm'
  obtain rfl := hperm'.eq_nil
  exact ⟨s, t, hs, ht, ⟨live, hrun, hperm⟩, hrun'⟩

end UdpRelaySession

end Ovpn2ss.Udp
