/-
  Several instances on one lwIP (`third_party/lwip/src/core`: `netif.c`, `tcp_out.c`, `tcp_in.c`, `udp.c`;
  the constructor, the destructor, `tcp_new_pcb` and `udp_new_pcb` of `src/LwipRuntime.cpp`).

  The stack is one for the process. Each `LwipRuntime` adds a netif to it, for which `netif_add` looks for a
  number that no netif has at the time, from a counter on. A pcb carries the index of the netif of the runtime
  that made it, which decides where its packets leave and whose packets it may get.

  `instances_isolated`: as long as no more than 255 runtimes are constructed, whatever is constructed,
  destroyed, opened and closed in between, the packets of a pcb leave through the netif of the runtime that
  made it and through no other, and it gets packets from there only. A pcb that outlives its runtime has no
  route. `start_ends_iff`: 255 is also what `start()` can do, the search for a number for the 256th netif
  does not end.

  What lwIP sends without a pcb (a RST for a segment of no connection) is not tied to a netif and not part
  of this.
-/
import Ovpn2ss.Lib.Machine
import Ovpn2ss.Config.Load

namespace Ovpn2ss.Lwip

open Ovpn2ss.Lib

structure Netif where
  num : Nat
  /-- `state`: the runtime, known by its place among all that were constructed. -/
  runtime : Nat
  deriving DecidableEq

/-- `netif_get_index`. -/
def Netif.index (n : Netif) : Nat := (n.num + 1) % 256

/-- A `tcp_pcb` or a `udp_pcb`. -/
structure BoundPcb where
  netifIdx : Nat
  /-- The runtime that made it. -/
  runtime : Nat
  deriving DecidableEq

structure Stack where
  netifList : List Netif
  netifNum : Nat
  pcbs : List BoundPcb
  /-- The number of runtimes constructed so far. -/
  runtimes : Nat

/-- The numbers are those below 255. -/
def wrap (num : Nat) : Nat := if num = 255 then 0 else num

/-- The loop of `netif_add`, as many rounds of it as there is fuel. -/
def findNum (nums : List Nat) : Nat → Nat → Option Nat
  | 0, _ => none
  | fuel + 1, num => if wrap num ∈ nums then findNum nums fuel (wrap num + 1) else some (wrap num)

namespace Stack

/-- After `lwip_init`. -/
def new : Stack := ⟨[], 0, [], 0⟩

/-- `netif_add` in the constructor of a runtime. -/
def netifAdd (fuel : Nat) (s : Stack) : Option Stack :=
  (findNum (s.netifList.map (·.num)) fuel s.netifNum).map fun num =>
    { s with netifList := ⟨num, s.runtimes⟩ :: s.netifList
             netifNum := if num = 254 then 0 else num + 1
             runtimes := s.runtimes + 1 }

/-- `netif_remove` in the destructor of a runtime. -/
def netifRemove (s : Stack) (runtime : Nat) : Stack :=
  { s with netifList := s.netifList.filter (·.runtime ≠ runtime) }

/-- `tcp_new_pcb` and `udp_new_pcb`, with `tcp_bind_netif` and `udp_bind_netif`. -/
def newPcb (s : Stack) (n : Netif) : Stack := { s with pcbs := ⟨n.index, n.runtime⟩ :: s.pcbs }

def netifGetByIndex (s : Stack) (idx : Nat) : Option Netif :=
  if idx ≠ 0 then s.netifList.find? (·.index = idx) else none

/-- `tcp_route`, `tcp_connect` and `udp_sendto`: `ip_route` is only asked for a pcb without a netif. -/
def route (s : Stack) (p : BoundPcb) (ipRoute : Option Netif) : Option Netif :=
  if p.netifIdx ≠ 0 then s.netifGetByIndex p.netifIdx else ipRoute

/-- The pcbs that `tcp_input` and `udp_input` compare ports and addresses with. -/
def candidates (s : Stack) (inp : Netif) : List BoundPcb :=
  s.pcbs.filter fun p => p.netifIdx = 0 || p.netifIdx = inp.index

/-- What happens to the stack. A loop without an end is no step. -/
inductive Event where
  | construct
  | destroy (runtime : Nat)
  | newPcb (runtime : Nat)
  | freePcb (p : BoundPcb)
  deriving DecidableEq

def step (s : Stack) : Event → Option Stack
  | .construct => s.netifAdd 255
  | .destroy runtime => some (s.netifRemove runtime)
  | .newPcb runtime => (s.netifList.find? (·.runtime = runtime)).map s.newPcb
  | .freePcb p => some { s with pcbs := s.pcbs.erase p }

end Stack

/-! ## The search for a number -/

section

variable {nums : List Nat} {num : Nat}

theorem wrap_lt (h : num ≤ 255) : wrap num < 255 := by
  unfold wrap
  split <;> omega

/-- How far the search has to go from `num` to `m`. -/
def distance (num m : Nat) : Nat := if num ≤ m then m - num else m + 255 - num

/-- With a free number there is an end to the search. -/
theorem findNum_ends {fuel m : Nat} (hnum : num ≤ 255) (hm : m < 255) (hfree : m ∉ nums)
    (hfuel : distance (wrap num) m < fuel) : ∃ m', findNum nums fuel num = some m' := by
  induction fuel generalizing num with
  | zero => omega
  | succ fuel ih =>
    have hlt := wrap_lt hnum
    rw [findNum]
    by_cases hv : wrap num ∈ nums
    · rw [if_pos hv]
      have hne : wrap num ≠ m := fun he => hfree (he ▸ hv)
      refine ih (by omega) ?_
      generalize wrap num = v at *
      unfold distance wrap at *
      split at hfuel <;> split <;> split at * <;> omega
    · rw [if_neg hv]
      exact ⟨_, rfl⟩

/-- A number that is found is free. -/
theorem findNum_free {fuel m : Nat} (hnum : num ≤ 255) (h : findNum nums fuel num = some m) :
    m < 255 ∧ m ∉ nums := by
  induction fuel generalizing num with
  | zero => cases h
  | succ fuel ih =>
    have hlt := wrap_lt hnum
    rw [findNum] at h
    split at h
    · exact ih (by omega) h
    · rename_i hfree
      obtain rfl := Option.some.inj h
      exact ⟨hlt, hfree⟩

/-- Distinct numbers below a bound leave one free exactly if they are fewer than the bound. -/
theorem exists_free_iff {bound : Nat} (hnodup : nums.Nodup) (hlt : ∀ m ∈ nums, m < bound) :
    (∃ m < bound, m ∉ nums) ↔ nums.length < bound := by
  have hcard : nums.toFinset.card = nums.length := List.toFinset_card_of_nodup hnodup
  have hsub : nums.toFinset ⊆ Finset.range bound := fun m hm =>
    Finset.mem_range.mpr (hlt m (List.mem_toFinset.mp hm))
  have hiff : nums.toFinset.card < (Finset.range bound).card ↔ nums.length < bound := by
    rw [hcard, Finset.card_range]
  rw [← hiff]
  constructor
  · rintro ⟨m, hm, hfree⟩
    refine Finset.card_lt_card (Finset.ssubset_iff_subset_ne.mpr ⟨hsub, fun he => hfree ?_⟩)
    rw [← List.mem_toFinset, he]
    exact Finset.mem_range.mpr hm
  · intro h
    obtain ⟨m, hm, hfree⟩ := Finset.exists_mem_notMem_of_card_lt_card h
    exact ⟨m, Finset.mem_range.mp hm, fun hmem => hfree (List.mem_toFinset.mpr hmem)⟩

end

namespace Stack

variable {s t : Stack}

/-- The netifs have numbers of their own. -/
structure Numbered (s : Stack) : Prop where
  nodup : (s.netifList.map (·.num)).Nodup
  lt : ∀ m ∈ s.netifList.map (·.num), m < 255
  next : s.netifNum < 255

theorem numbered_new : Numbered new := ⟨List.nodup_nil, fun m hm => (by cases hm), by decide⟩

theorem numbered_netifAdd {fuel : Nat} (h : Numbered s) (hs : s.netifAdd fuel = some t) : Numbered t := by
  obtain ⟨num, hnum, rfl⟩ := Option.map_eq_some_iff.mp hs
  obtain ⟨hlt, hfree⟩ := findNum_free (Nat.le_of_lt h.next) hnum
  refine ⟨List.nodup_cons.mpr ⟨hfree, h.nodup⟩, List.forall_mem_cons.mpr ⟨hlt, h.lt⟩, ?_⟩
  show (if num = 254 then 0 else num + 1) < 255
  split <;> omega

theorem length_of_netifAdd {fuel : Nat} (hs : s.netifAdd fuel = some t) :
    t.netifList.length = s.netifList.length + 1 := by
  obtain ⟨num, -, rfl⟩ := Option.map_eq_some_iff.mp hs
  rfl

/-- `netif_add` can only return if there are fewer than 255 netifs. -/
theorem length_lt_of_netifAdd {fuel : Nat} (h : Numbered s) (hs : s.netifAdd fuel = some t) :
    s.netifList.length < 255 := by
  obtain ⟨num, hnum, -⟩ := Option.map_eq_some_iff.mp hs
  obtain ⟨hlt, hfree⟩ := findNum_free (Nat.le_of_lt h.next) hnum
  rw [← List.length_map (·.num)]
  exact (exists_free_iff h.nodup h.lt).mp ⟨num, hlt, hfree⟩

/-- It then does so within 255 rounds. -/
theorem netifAdd_ends (h : Numbered s) (hlen : s.netifList.length < 255) :
    ∃ t, s.netifAdd 255 = some t := by
  rw [← List.length_map (·.num)] at hlen
  obtain ⟨m, hm, hfree⟩ := (exists_free_iff h.nodup h.lt).mpr hlen
  have hnext := wrap_lt (Nat.le_of_lt h.next)
  have hdistance : distance (wrap s.netifNum) m < 255 := by
    unfold distance
    split <;> omega
  obtain ⟨num, hnum⟩ := findNum_ends (Nat.le_of_lt h.next) hm hfree hdistance
  exact ⟨_, congrArg _ hnum⟩

/-! ## The loop of `start()` -/

/-- `MultiInstanceManager::start()`, as far as the stack notices: one runtime for each instance. -/
def startAll (fuel : Nat) : List Config.InstanceConfig → Stack → Option Stack
  | [], s => some s
  | _ :: instances, s => (s.netifAdd fuel).bind (startAll fuel instances)

theorem length_of_startAll {fuel : Nat} {instances : List Config.InstanceConfig} (h : Numbered s)
    (hlen : s.netifList.length ≤ 255) (hs : startAll fuel instances s = some t) :
    s.netifList.length + instances.length ≤ 255 := by
  induction instances generalizing s with
  | nil => exact hlen
  | cons i instances ih =>
    obtain ⟨m, hm, hs⟩ := Option.bind_eq_some_iff.mp hs
    have hlt := length_lt_of_netifAdd h hm
    have hnext := length_of_netifAdd hm
    have hrest := ih (numbered_netifAdd h hm) (by omega) hs
    rw [List.length_cons]
    omega

theorem startAll_ends {instances : List Config.InstanceConfig} (h : Numbered s)
    (hlen : s.netifList.length + instances.length ≤ 255) : ∃ t, startAll 255 instances s = some t := by
  induction instances generalizing s with
  | nil => exact ⟨s, rfl⟩
  | cons i instances ih =>
    rw [List.length_cons] at hlen
    obtain ⟨m, hm⟩ := netifAdd_ends h (by omega)
    have hnext := length_of_netifAdd hm
    obtain ⟨t, ht⟩ := ih (numbered_netifAdd h hm) (by omega)
    exact ⟨t, Option.bind_eq_some_iff.mpr ⟨m, hm, ht⟩⟩

/-- `start()` gets through its loop exactly if there are at most 255 instances; `netif_add` for one more
    never returns, with the mutex of the stack held. -/
theorem start_ends_iff (config : Config.ManagerConfig) :
    (∃ fuel t, startAll fuel config.instances new = some t) ↔ config.instances.length ≤ 255 := by
  have hzero : (new.netifList.length : Nat) + config.instances.length = config.instances.length :=
    Nat.zero_add _
  constructor
  · rintro ⟨fuel, t, hs⟩
    exact hzero ▸ length_of_startAll numbered_new (Nat.zero_le _) hs
  · intro hlen
    exact ⟨255, startAll_ends numbered_new (hzero.symm ▸ hlen)⟩

/-! ## Isolation -/

/-- While no number has come round, a netif has the number of its runtime. -/
structure Isolated (s : Stack) : Prop where
  next : s.runtimes < 255 → s.netifNum = s.runtimes
  netifs : ∀ n ∈ s.netifList, n.num = n.runtime ∧ n.runtime < s.runtimes
  pcbs : ∀ p ∈ s.pcbs, p.netifIdx = p.runtime + 1 ∧ p.runtime < s.runtimes

theorem isolated_new : Isolated new :=
  ⟨fun _ => rfl, fun n hn => (by cases hn), fun p hp => (by cases hp)⟩

theorem Netif.index_of_num {n : Netif} (h : n.num < 255) : n.index = n.num + 1 :=
  Nat.mod_eq_of_lt (by omega)

/-- The counter is ahead of all netifs, so the first number that is tried is free. -/
theorem isolated_netifAdd {fuel : Nat} (h : Isolated s) (hfew : s.runtimes < 255)
    (hs : s.netifAdd fuel = some t) : Isolated t := by
  obtain ⟨num, hnum, rfl⟩ := Option.map_eq_some_iff.mp hs
  have hfirst : num = s.runtimes := by
    cases fuel with
    | zero => cases hnum
    | succ fuel =>
      have hwrap : wrap s.netifNum = s.runtimes := by
        rw [h.next hfew, wrap, if_neg (by omega)]
      have hfree : s.runtimes ∉ s.netifList.map (·.num) := by
        intro hmem
        obtain ⟨n, hn, heq⟩ := List.mem_map.mp hmem
        have := h.netifs n hn
        omega
      rw [findNum, hwrap, if_neg hfree] at hnum
      exact (Option.some.inj hnum).symm
  refine ⟨fun hlt => ?_, List.forall_mem_cons.mpr ⟨⟨hfirst, Nat.lt_succ_self _⟩, fun n hn => ?_⟩, fun p hp => ?_⟩
  · show (if num = 254 then 0 else num + 1) = s.runtimes + 1
    replace hlt : s.runtimes + 1 < 255 := hlt
    rw [if_neg (by omega), hfirst]
  · exact (h.netifs n hn).imp_right Nat.lt_succ_of_lt
  · exact (h.pcbs p hp).imp_right Nat.lt_succ_of_lt

theorem isolated_step {e : Event} (h : Isolated s) (hfew : t.runtimes ≤ 255) (hs : s.step e = some t) :
    Isolated t := by
  cases e with
  | construct =>
    have hnext : t.runtimes = s.runtimes + 1 := by
      obtain ⟨num, -, rfl⟩ := Option.map_eq_some_iff.mp hs
      rfl
    exact isolated_netifAdd h (by omega) hs
  | destroy runtime =>
    obtain rfl := Option.some.inj hs
    exact ⟨h.next, fun n hn => h.netifs n (List.mem_of_mem_filter hn), h.pcbs⟩
  | newPcb runtime =>
    obtain ⟨n, hn, rfl⟩ := Option.map_eq_some_iff.mp hs
    obtain ⟨hnum, hlt⟩ := h.netifs n (List.mem_of_find?_eq_some hn)
    replace hfew : s.runtimes ≤ 255 := hfew
    refine ⟨h.next, h.netifs, List.forall_mem_cons.mpr ⟨⟨?_, hlt⟩, h.pcbs⟩⟩
    show n.index = n.runtime + 1
    rw [Netif.index_of_num (by omega), hnum]
  | freePcb p =>
    obtain rfl := Option.some.inj hs
    exact ⟨h.next, h.netifs, fun q hq => h.pcbs q (List.mem_of_mem_erase hq)⟩

theorem runtimes_le_of_step {e : Event} (hs : s.step e = some t) : s.runtimes ≤ t.runtimes := by
  cases e with
  | construct =>
    obtain ⟨num, -, rfl⟩ := Option.map_eq_some_iff.mp hs
    exact Nat.le_succ _
  | newPcb runtime =>
    obtain ⟨n, -, rfl⟩ := Option.map_eq_some_iff.mp hs
    exact Nat.le_refl _
  | destroy | freePcb =>
    obtain rfl := Option.some.inj hs
    exact Nat.le_refl _

/-- The route of a pcb is the netif of the runtime that made it. -/
theorem route_of_isolated {p : BoundPcb} (h : Isolated s) (hfew : s.runtimes ≤ 255) (hp : p ∈ s.pcbs)
    (ipRoute : Option Netif) : s.route p ipRoute = s.netifList.find? (·.runtime = p.runtime) := by
  obtain ⟨hidx, -⟩ := h.pcbs p hp
  have hbound : p.netifIdx ≠ 0 := by omega
  rw [route, if_pos hbound, netifGetByIndex, if_pos hbound]
  refine List.find?_congr fun n hn => ?_
  obtain ⟨hnum, hlt⟩ := h.netifs n hn
  rw [Netif.index_of_num (by omega), hidx, hnum, decide_eq_decide, Nat.add_right_cancel_iff]

theorem mem_candidates_of_isolated {p : BoundPcb} {inp : Netif} (h : Isolated s)
    (hfew : s.runtimes ≤ 255) (hp : p ∈ s.pcbs) (hinp : inp ∈ s.netifList) :
    p ∈ s.candidates inp ↔ inp.runtime = p.runtime := by
  obtain ⟨hidx, -⟩ := h.pcbs p hp
  obtain ⟨hnum, hlt⟩ := h.netifs inp hinp
  rw [candidates, List.mem_filter, and_iff_right hp, Bool.or_eq_true, decide_eq_true_eq,
    decide_eq_true_eq, Netif.index_of_num (by omega)]
  omega

/-- While no more than 255 runtimes have been constructed, whatever runtimes and pcbs have come and gone: a
    pcb sends through the netif of the runtime that made it, or nowhere once that is gone, and gets only
    what comes in there. -/
theorem instances_isolated {es : List Event} {p : BoundPcb} (h : run step new es = some s)
    (hfew : s.runtimes ≤ 255) (hp : p ∈ s.pcbs) :
    (∀ ipRoute, s.route p ipRoute = s.netifList.find? (·.runtime = p.runtime)) ∧
      ∀ inp ∈ s.netifList, (p ∈ s.candidates inp ↔ inp.runtime = p.runtime) := by
  have hinv : s.runtimes ≤ 255 → Isolated s :=
    run_inv (fun s => s.runtimes ≤ 255 → Isolated s)
      (fun _ _ _ hI hs hle => isolated_step (hI ((runtimes_le_of_step hs).trans hle)) hle hs)
      (fun _ => isolated_new) h
  exact ⟨fun ipRoute => route_of_isolated (hinv hfew) hfew hp ipRoute,
    fun inp hinp => mem_candidates_of_isolated (hinv hfew) hfew hp hinp⟩

/-- The first of three runtimes is gone, a pcb of it is not. -/
theorem instances_isolated_demo :
    ∃ s, run step new [.construct, .construct, .newPcb 0, .newPcb 1, .destroy 0, .construct] = some s ∧
      s.route ⟨1, 0⟩ none = none ∧ s.route ⟨2, 1⟩ none = some ⟨1, 1⟩ := by
  obtain ⟨s, hs, hfew, hold, hnew, hlist⟩ : ∃ s, run step new [.construct, .construct, .newPcb 0, .newPcb 1,
      .destroy 0, .construct] = some s ∧ s.runtimes ≤ 255 ∧ ⟨1, 0⟩ ∈ s.pcbs ∧ ⟨2, 1⟩ ∈ s.pcbs ∧
      s.netifList = [⟨2, 2⟩, ⟨1, 1⟩] := ⟨_, rfl, by decide, by decide, by decide, rfl⟩
  refine ⟨s, hs, ?_, ?_⟩
  · rw [(instances_isolated hs hfew hold).1, hlist]
    rfl
  · rw [(instances_isolated hs hfew hnew).1, hlist]
    rfl

end Stack

end Ovpn2ss.Lwip
