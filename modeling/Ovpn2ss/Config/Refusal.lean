/-
  What `load_json_config` (`src/MultiInstanceManager.cpp`) accepts, and what it says when it does not.

  `Fault` has everything that can be wrong with the object of one instance, each with the message of
  the source. A document is refused exactly if it has a fault or a port repeats, and the message is
  that of a fault of the first instance that cannot be taken, the ones before it being fine
  (`refusal_names_the_fault`).

  What can be loaded at all are the valid configurations, and each of them can be written down so that
  it is loaded as it is (`loadable_iff_valid`).
-/
import Ovpn2ss.Config.Load

namespace Ovpn2ss.Config

open Ovpn2ss.Lib

variable {P : Platform} {object : Json} {i : InstanceConfig}

/-! ## The fields -/

theorem requiredString_ok_iff {key v : String} :
    requiredString object key = .ok v ↔ object.find key = some (.string v) ∧ v ≠ "" := by
  unfold requiredString
  split
  · rename_i value hfind
    rw [hfind, Option.some.injEq, Json.string.injEq]
    split
    · rename_i hempty
      refine iff_of_false (fun h => (by cases h)) ?_
      rintro ⟨rfl, hne⟩
      exact hne (String.isEmpty_iff.mp hempty)
    · rename_i hne
      rw [Except.ok.injEq]
      refine ⟨?_, And.left⟩
      rintro rfl
      exact ⟨rfl, fun h => hne (String.isEmpty_iff.mpr h)⟩
  · rename_i hno
    exact iff_of_false (fun h => (by cases h)) fun h => hno v h.1

theorem requiredString_error {key e : String} (h : requiredString object key = .error e) :
    e = "instance requires non-empty string: " ++ key ∧
      ∀ v, object.find key = some (.string v) → v = "" := by
  have he : e = "instance requires non-empty string: " ++ key := by
    unfold requiredString at h
    split at h
    · split at h <;> cases h
      rfl
    · cases h
      rfl
  refine ⟨he, fun v hv => by_contra fun hne => ?_⟩
  rw [requiredString_ok_iff.mpr ⟨hv, hne⟩] at h
  cases h

theorem optionalString_ok_iff {key fallback v : String} :
    optionalString object key fallback = .ok v ↔
      object.find key = some (.string v) ∨ (object.find key = none ∧ v = fallback) := by
  unfold optionalString
  split
  · rename_i hfind
    rw [hfind, Except.ok.injEq]
    simp [eq_comm]
  · rename_i value hfind
    rw [hfind, Except.ok.injEq]
    simp
  · rename_i value hother hfind
    rw [hfind]
    refine iff_of_false (fun h => (by cases h)) ?_
    rintro (h | ⟨h, -⟩)
    · exact hother v (Option.some.inj h)
    · cases h

theorem optionalString_error {key fallback e : String} (h : optionalString object key fallback = .error e) :
    e = "config key must be string: " ++ key ∧
      ∃ value, object.find key = some value ∧ ∀ v, value ≠ .string v := by
  unfold optionalString at h
  split at h
  · cases h
  · cases h
  · rename_i value hother hfind
    cases h
    exact ⟨rfl, value, hfind, fun v hv => hother v hv⟩

theorem portAt_error {value : Json} {key e : String} (h : portAt P value key = .error e) :
    value.getInt P = .error e ∨
      ∃ n, value.getInt P = .ok n ∧ (n ≤ 0 ∨ 65535 < n) ∧ e = "invalid port for key: " ++ key := by
  obtain h | ⟨n, hn, h⟩ := bind_eq_error_iff.mp h
  · exact Or.inl h
  · unfold checkedPort at h
    split at h
    · rename_i hrange
      cases h
      exact Or.inr ⟨n, hn, hrange, rfl⟩
    · cases h

/-- An integer is a number. -/
theorem getInt_of_isNumberInteger {value : Json} (h : value.isNumberInteger P = true) :
    ∃ n, value.getInt P = .ok n := by
  cases value with
  | number literal =>
    simp only [Json.getInt]
    split <;> exact ⟨_, rfl⟩
  | null | boolean | string | array | object => cases h

/-! ## One instance -/

theorem loadInstance_of_reads (h : Reads P object i) : loadInstance P object = .ok i := by
  rw [loadInstance, if_pos h.isObject]
  refine bind_eq_ok_iff.mpr ⟨_, h.name, bind_eq_ok_iff.mpr ⟨_, h.ovpnPath, ?_⟩⟩
  refine bind_eq_ok_iff.mpr ⟨_, h.listenHost, bind_eq_ok_iff.mpr ⟨_, h.tcp, ?_⟩⟩
  refine bind_eq_ok_iff.mpr ⟨_, h.udp, bind_eq_ok_iff.mpr ⟨_, h.method, ?_⟩⟩
  refine bind_eq_ok_iff.mpr ⟨_, h.password, bind_eq_ok_iff.mpr ⟨_, h.vpnUsername, ?_⟩⟩
  refine bind_eq_ok_iff.mpr ⟨_, h.vpnPassword, bind_eq_ok_iff.mpr ⟨_, h.file, ?_⟩⟩
  rw [if_neg (by decide), if_neg (not_not.mpr h.supported), ← h.udpEnabled]

section

variable {key : String} (h : Reads P object i)
include h

theorem Reads.required (hkey : key ∈ ["name", "ovpn", "password"]) :
    ∃ v, object.find key = some (.string v) ∧ v ≠ "" := by
  simp only [List.mem_cons, List.not_mem_nil, or_false] at hkey
  obtain rfl | rfl | rfl := hkey
  · exact ⟨_, requiredString_ok_iff.mp h.name⟩
  · exact ⟨_, requiredString_ok_iff.mp h.ovpnPath⟩
  · exact ⟨_, requiredString_ok_iff.mp h.password⟩

theorem Reads.optional (hkey : key ∈ ["listen_host", "method", "vpn_username", "vpn_password"])
    {value : Json} (hfind : object.find key = some value) : ∃ v, value = .string v := by
  have hread : ∃ fallback v, optionalString object key fallback = .ok v := by
    simp only [List.mem_cons, List.not_mem_nil, or_false] at hkey
    obtain rfl | rfl | rfl | rfl := hkey
    · exact ⟨_, _, h.listenHost⟩
    · exact ⟨_, _, h.method⟩
    · exact ⟨_, _, h.vpnUsername⟩
    · exact ⟨_, _, h.vpnPassword⟩
  obtain ⟨fallback, v, hv⟩ := hread
  rw [optionalString_ok_iff, hfind] at hv
  obtain hv | ⟨hv, -⟩ := hv
  · exact ⟨v, Option.some.inj hv⟩
  · cases hv

theorem Reads.port (hkey : key ∈ ["tcp_port", "udp_port"]) {value : Json}
    (hfind : object.find key = some value) : ∃ port, portAt P value key = .ok port := by
  simp only [List.mem_cons, List.not_mem_nil, or_false] at hkey
  obtain rfl | rfl := hkey
  · obtain ⟨value', hfind', hport⟩ := tcpPort_ok h.tcp
    rw [hfind] at hfind'
    exact ⟨_, Option.some.inj hfind' ▸ hport⟩
  · obtain ⟨hnone, -⟩ | ⟨value', hfind', hport⟩ := udpPort_ok h.udp
    · rw [hfind] at hnone
      cases hnone
    · rw [hfind] at hfind'
      exact ⟨_, Option.some.inj hfind' ▸ hport⟩

theorem Reads.isRegularFile {path : String} (hfind : object.find "ovpn" = some (.string path)) :
    P.isRegularFile path = .ok true := by
  rw [(requiredString_ok_iff.mp h.ovpnPath).1] at hfind
  cases hfind
  exact h.file

end

/-! ## Faults -/

/-- What can be wrong with the object of an instance. -/
inductive Fault where
  | notObject
  /-- A string that has to be there and may not be empty. -/
  | missing (key : String)
  | notString (key : String)
  | notInteger
  | notNumber (value : Json)
  | range (key : String)
  /-- The system cannot tell whether the profile is a file. -/
  | unreadable (error : String)
  | noFile (path : String)
  | method

namespace Fault

/-- The message of the exception. -/
def message : Fault → String
  | notObject => "instances entries must be objects"
  | missing key => "instance requires non-empty string: " ++ key
  | notString key => "config key must be string: " ++ key
  | notInteger => "instance requires integer tcp_port"
  | notNumber value => "[json.exception.type_error.302] type must be number, but is " ++ value.typeName
  | range key => "invalid port for key: " ++ key
  | unreadable error => error
  | noFile path => "ovpn file does not exist: " ++ path
  | method => "only chacha20-ietf-poly1305 is supported"

/-- The object has the fault. -/
def Holds (P : Platform) (object : Json) : Fault → Prop
  | notObject => object.isObject = false
  | missing key =>
    key ∈ ["name", "ovpn", "password"] ∧ ∀ v, object.find key = some (.string v) → v = ""
  | notString key =>
    key ∈ ["listen_host", "method", "vpn_username", "vpn_password"] ∧
      ∃ value, object.find key = some value ∧ ∀ v, value ≠ .string v
  | notInteger => ∀ value, object.find "tcp_port" = some value → value.isNumberInteger P = false
  | notNumber value => object.find "udp_port" = some value ∧ ∀ n, value.getInt P ≠ .ok n
  | range key =>
    key ∈ ["tcp_port", "udp_port"] ∧
      ∃ value n, object.find key = some value ∧ value.getInt P = .ok n ∧ (n ≤ 0 ∨ 65535 < n)
  | unreadable error =>
    ∃ path, object.find "ovpn" = some (.string path) ∧ P.isRegularFile path = .error error
  | noFile path => object.find "ovpn" = some (.string path) ∧ P.isRegularFile path = .ok false
  | method =>
    ∃ m, object.find "method" = some (.string m) ∧ m ≠ "chacha20-ietf-poly1305"

end Fault

/-- The error is the message of a fault of the object. -/
def Blames (P : Platform) (object : Json) (e : String) : Prop :=
  ∃ f : Fault, f.Holds P object ∧ f.message = e

theorem blames_required {key e : String} (hkey : key ∈ ["name", "ovpn", "password"])
    (h : requiredString object key = .error e) : Blames P object e :=
  ⟨.missing key, ⟨hkey, (requiredString_error h).2⟩, (requiredString_error h).1.symm⟩

theorem blames_optional {key fallback e : String}
    (hkey : key ∈ ["listen_host", "method", "vpn_username", "vpn_password"])
    (h : optionalString object key fallback = .error e) : Blames P object e :=
  ⟨.notString key, ⟨hkey, (optionalString_error h).2⟩, (optionalString_error h).1.symm⟩

theorem blames_tcpPort {e : String} (h : tcpPort P object = .error e) : Blames P object e := by
  unfold tcpPort at h
  split at h
  · rename_i hfind
    cases h
    exact ⟨.notInteger, fun value hv => (by rw [hfind] at hv; cases hv), rfl⟩
  · rename_i value hfind
    split at h
    · rename_i hint
      obtain ⟨n, hn⟩ := getInt_of_isNumberInteger hint
      obtain hget | ⟨n, hn, hrange, rfl⟩ := portAt_error h
      · rw [hn] at hget
        cases hget
      · exact ⟨.range "tcp_port", ⟨by simp, value, n, hfind, hn, hrange⟩, rfl⟩
    · rename_i hint
      cases h
      refine ⟨.notInteger, fun v hv => ?_, rfl⟩
      rw [hfind] at hv
      obtain rfl := Option.some.inj hv
      exact Bool.eq_false_iff.mpr hint

theorem getInt_error {value : Json} {e : String} (h : value.getInt P = .error e) :
    e = "[json.exception.type_error.302] type must be number, but is " ++ value.typeName := by
  cases value with
  | number literal =>
    simp only [Json.getInt] at h
    split at h <;> cases h
  | boolean value => cases h
  | null | string | array | object =>
    cases h
    rfl

theorem blames_udpPort {tcp : Nat} {e : String} (h : udpPort P object tcp = .error e) :
    Blames P object e := by
  unfold udpPort at h
  split at h
  · cases h
  · rename_i value hfind
    obtain hget | ⟨n, hn, hrange, rfl⟩ := portAt_error h
    · refine ⟨.notNumber value, ⟨hfind, fun n hn => ?_⟩, (getInt_error hget).symm⟩
      rw [hget] at hn
      cases hn
    · exact ⟨.range "udp_port", ⟨by simp, value, n, hfind, hn, hrange⟩, rfl⟩

/-- The checks of an instance, in their order, each with the fault it finds. -/
theorem blames_of_loadInstance {e : String} (h : loadInstance P object = .error e) :
    Blames P object e := by
  unfold loadInstance at h
  split at h
  · obtain h | ⟨name, -, h⟩ := bind_eq_error_iff.mp h
    · exact blames_required (by simp) h
    obtain h | ⟨ovpnPath, hovpn, h⟩ := bind_eq_error_iff.mp h
    · exact blames_required (by simp) h
    have hpath := (requiredString_ok_iff.mp hovpn).1
    obtain h | ⟨listenHost, -, h⟩ := bind_eq_error_iff.mp h
    · exact blames_optional (by simp) h
    obtain h | ⟨tcp, -, h⟩ := bind_eq_error_iff.mp h
    · exact blames_tcpPort h
    obtain h | ⟨udp, -, h⟩ := bind_eq_error_iff.mp h
    · exact blames_udpPort h
    obtain h | ⟨method, hmethod, h⟩ := bind_eq_error_iff.mp h
    · exact blames_optional (by simp) h
    obtain h | ⟨password, -, h⟩ := bind_eq_error_iff.mp h
    · exact blames_required (by simp) h
    obtain h | ⟨vpnUsername, -, h⟩ := bind_eq_error_iff.mp h
    · exact blames_optional (by simp) h
    obtain h | ⟨vpnPassword, -, h⟩ := bind_eq_error_iff.mp h
    · exact blames_optional (by simp) h
    obtain h | ⟨regular, hfile, h⟩ := bind_eq_error_iff.mp h
    · exact ⟨.unreadable e, ⟨ovpnPath, hpath, h⟩, rfl⟩
    split at h
    · rename_i hregular
      cases h
      rw [Bool.not_eq_true'] at hregular
      exact ⟨.noFile ovpnPath, ⟨hpath, hregular ▸ hfile⟩, rfl⟩
    · split at h
      · rename_i hne
        cases h
        -- the default is supported, so the method was written
        obtain hwritten | ⟨-, hdefault⟩ := optionalString_ok_iff.mp hmethod
        · exact ⟨.method, ⟨method, hwritten, hne⟩, rfl⟩
        · exact absurd hdefault hne
      · cases h
  · rename_i hobject
    cases h
    exact ⟨.notObject, Bool.eq_false_iff.mpr hobject, rfl⟩

/-- An object with a fault does not load. -/
theorem faultless_of_loadInstance (h : loadInstance P object = .ok i) (f : Fault) :
    ¬ f.Holds P object := by
  have hreads := reads_of_loadInstance h
  intro hf
  cases f with
  | notObject => cases hreads.isObject.symm.trans hf
  | missing key =>
    obtain ⟨v, hfind, hne⟩ := hreads.required hf.1
    exact hne (hf.2 v hfind)
  | notString key =>
    obtain ⟨hkey, value, hfind, hf⟩ := hf
    obtain ⟨v, hv⟩ := hreads.optional hkey hfind
    exact hf v hv
  | notInteger =>
    have htcp := hreads.tcp
    unfold tcpPort at htcp
    split at htcp
    · cases htcp
    · rename_i value hfind
      rw [hf value hfind] at htcp
      cases htcp
  | notNumber value =>
    obtain ⟨port, hport⟩ := hreads.port (by simp) hf.1
    exact hf.2 _ (portAt_ok hport).1
  | range key =>
    obtain ⟨hkey, value, n, hfind, hn, hrange⟩ := hf
    obtain ⟨port, hport⟩ := hreads.port hkey hfind
    obtain ⟨hget, hlow, hhigh⟩ := portAt_ok hport
    have heq := Except.ok.inj (hn.symm.trans hget)
    omega
  | unreadable error =>
    obtain ⟨path, hfind, hf⟩ := hf
    cases hf.symm.trans (hreads.isRegularFile hfind)
  | noFile path => cases hf.2.symm.trans (hreads.isRegularFile hf.1)
  | method =>
    obtain ⟨m, hfind, hne⟩ := hf
    have hmethod := hreads.method
    rw [optionalString_ok_iff, hfind] at hmethod
    obtain hmethod | ⟨hmethod, -⟩ := hmethod
    · cases hmethod
      exact hne hreads.supported
    · cases hmethod

/-! ## The document -/

theorem loadInstances_error {objects : List Json} {tcpPorts udpPorts : Finset Nat} {e : String}
    (h : loadInstances P objects tcpPorts udpPorts = .error e) :
    ∃ before object after is, objects = before ++ object :: after ∧
      loadInstances P before tcpPorts udpPorts = .ok is ∧
      (loadInstance P object = .error e ∨ ∃ i, loadInstance P object = .ok i ∧
        e = "duplicate Shadowsocks listen port for the same protocol" ∧
        ((i.shadowsocks.tcpPort ∈ tcpPorts ∨ i.shadowsocks.tcpPort ∈ is.map (·.shadowsocks.tcpPort)) ∨
          (i.shadowsocks.udpPort ∈ udpPorts ∨ i.shadowsocks.udpPort ∈ is.map (·.shadowsocks.udpPort)))) := by
  induction objects generalizing tcpPorts udpPorts with
  | nil => cases h
  | cons object objects ih =>
    rw [loadInstances] at h
    obtain h | ⟨i, hi, h⟩ := bind_eq_error_iff.mp h
    · exact ⟨[], object, objects, [], rfl, rfl, Or.inl h⟩
    · split at h
      · rename_i hdup
        cases h
        refine ⟨[], object, objects, [], rfl, rfl, Or.inr ⟨i, hi, rfl, ?_⟩⟩
        exact hdup.imp Or.inl fun hudp => Or.inl hudp.2
      · rename_i hfresh
        have hzero : i.shadowsocks.udpPort ≠ 0 := Nat.ne_of_gt (loadInstance_range hi).2.1
        obtain h | ⟨is, -, h⟩ := bind_eq_error_iff.mp h
        · rw [if_pos hzero] at h
          obtain ⟨before, bad, after, is, rfl, hbefore, hbad⟩ := ih h
          refine ⟨object :: before, bad, after, i :: is, rfl, ?_, hbad.imp_right ?_⟩
          · rw [loadInstances, hi]
            show (if _ then _ else _) = _
            rw [if_neg hfresh, if_pos hzero, hbefore]
            rfl
          · rintro ⟨j, hj, he, hrepeats⟩
            refine ⟨j, hj, he, ?_⟩
            simp only [Finset.mem_insert, List.map_cons, List.mem_cons] at hrepeats ⊢
            tauto
        · cases h

/-- Why a file is refused, with a message that says so. -/
inductive Refused (P : Platform) (path : String) : Option (Except String Json) → String → Prop
  | cannotOpen : Refused P path none ("cannot open config: " ++ path)
  | unparsable {e : String} : Refused P path (some (.error e)) e
  | noArray {json : Json} (h : ∀ objects, json.find "instances" ≠ some (.array objects)) :
      Refused P path (some (.ok json)) "config requires instances array"
  | empty {json : Json} (h : json.find "instances" = some (.array [])) :
      Refused P path (some (.ok json)) "config must contain at least one instance"
  /-- The instances before this one are fine, and it has a fault. -/
  | fault {json object : Json} {before after : List Json} {is : List InstanceConfig} {f : Fault}
      (h : json.find "instances" = some (.array (before ++ object :: after)))
      (hbefore : loadInstances P before ∅ ∅ = .ok is) (hf : f.Holds P object) :
      Refused P path (some (.ok json)) f.message
  /-- The instances up to this one are fine, and it has a port of one before it. -/
  | conflict {json object : Json} {before after : List Json} {is : List InstanceConfig}
      {i : InstanceConfig} (h : json.find "instances" = some (.array (before ++ object :: after)))
      (hbefore : loadInstances P before ∅ ∅ = .ok is) (hi : loadInstance P object = .ok i)
      (hrepeats : i.shadowsocks.tcpPort ∈ is.map (·.shadowsocks.tcpPort) ∨
        i.shadowsocks.udpPort ∈ is.map (·.shadowsocks.udpPort)) :
      Refused P path (some (.ok json)) "duplicate Shadowsocks listen port for the same protocol"

theorem refused_of_error {path : String} {file : Option (Except String Json)} {e : String}
    (h : loadJsonConfig P path file = .error e) : Refused P path file e := by
  unfold loadJsonConfig at h
  split at h
  · cases h
    exact .cannotOpen
  · cases h
    exact .unparsable
  · rename_i json
    split at h
    · rename_i objects hfind
      split at h
      · rename_i hempty
        cases h
        rw [List.isEmpty_iff.mp hempty] at hfind
        exact .empty hfind
      · obtain h | ⟨is, -, h⟩ := bind_eq_error_iff.mp h
        · obtain ⟨before, object, after, is, rfl, hbefore, h | ⟨i, hi, rfl, hrepeats⟩⟩ :=
            loadInstances_error h
          · obtain ⟨f, hf, rfl⟩ := blames_of_loadInstance h
            exact .fault hfind hbefore hf
          · exact .conflict hfind hbefore hi (by simpa using hrepeats)
        · cases h
    · rename_i hno
      cases h
      exact .noArray fun objects hfind => hno objects hfind

/-- An instance among those loaded, with those before it. -/
theorem loaded_split {before after : List Json} {all : List InstanceConfig}
    (h : List.Forall₂ (fun object i => loadInstance P object = .ok i) (before ++ object :: after) all) :
    ∃ is i rest, all = is ++ i :: rest ∧ loadInstance P object = .ok i ∧
      List.Forall₂ (fun object i => loadInstance P object = .ok i) before is := by
  have htake := List.forall₂_take_append all before (object :: after) h.flip
  have hdrop := List.forall₂_drop_append all before (object :: after) h.flip
  cases hall : all.drop before.length with
  | nil =>
    rw [hall] at hdrop
    cases hdrop
  | cons i rest =>
    rw [hall] at hdrop
    cases hdrop with
    | cons hi _ =>
      refine ⟨all.take before.length, i, rest, ?_, hi, htake.flip⟩
      rw [← hall, List.take_append_drop]

theorem not_loaded_of_refused {path : String} {file : Option (Except String Json)} {e : String}
    {config : ManagerConfig} (h : Refused P path file e) : loadJsonConfig P path file ≠ .ok config := by
  intro hload
  cases h with
  | cannotOpen | unparsable => cases hload
  | noArray hno =>
    obtain ⟨objects, hfind⟩ := exists_instances hload
    exact hno objects hfind
  | empty hfind => exact ((loadJsonConfig_instances hfind).mp hload).1 rfl
  | fault hfind _ hf =>
    obtain ⟨-, all, -, hall, -⟩ := (loadJsonConfig_instances hfind).mp hload
    obtain ⟨is, i, rest, -, hi, -⟩ := loaded_split hall
    exact faultless_of_loadInstance hi _ hf
  | conflict hfind hbefore hi hrepeats =>
    obtain ⟨-, all, -, hall, htcp, hudp⟩ := (loadJsonConfig_instances hfind).mp hload
    obtain ⟨js, j, rest, rfl, hj, hjs⟩ := loaded_split hall
    obtain rfl := loadedAs_unique (loadInstances_ok_iff.mp hbefore).1 hjs
    obtain rfl := Except.ok.inj (hi.symm.trans hj)
    rw [List.map_append, List.nodup_append] at htcp hudp
    obtain hrepeats | hrepeats := hrepeats
    · exact htcp.2.2 _ hrepeats _ List.mem_cons_self rfl
    · exact hudp.2.2 _ hrepeats _ List.mem_cons_self rfl

/-- A file is refused exactly if there is a reason to, and the message is that of a reason: for an
    instance, of a fault that it has, all instances before it being fine. -/
theorem refusal_names_the_fault (P : Platform) (path : String) (file : Option (Except String Json)) :
    (∀ e, loadJsonConfig P path file = .error e → Refused P path file e) ∧
      ((∃ e, Refused P path file e) → ∃ e, loadJsonConfig P path file = .error e) := by
  refine ⟨fun e => refused_of_error, ?_⟩
  rintro ⟨e, he⟩
  cases hload : loadJsonConfig P path file with
  | error e' => exact ⟨e', rfl⟩
  | ok config => exact absurd hload (not_loaded_of_refused he)

/-! ## What can be loaded -/

structure ValidInstance (P : Platform) (i : InstanceConfig) : Prop where
  name : i.name ≠ ""
  ovpnPath : i.ovpnPath ≠ ""
  file : P.isRegularFile i.ovpnPath = .ok true
  tcp : 1 ≤ i.shadowsocks.tcpPort ∧ i.shadowsocks.tcpPort ≤ 65535
  udp : 1 ≤ i.shadowsocks.udpPort ∧ i.shadowsocks.udpPort ≤ 65535
  method : i.shadowsocks.method = "chacha20-ietf-poly1305"
  password : i.shadowsocks.password ≠ ""
  udpEnabled : i.udpEnabled = true

structure Valid (P : Platform) (config : ManagerConfig) : Prop where
  instances : ∀ i ∈ config.instances, ValidInstance P i
  nonempty : config.instances ≠ []
  tcpPorts : (config.instances.map (·.shadowsocks.tcpPort)).Nodup
  udpPorts : (config.instances.map (·.shadowsocks.udpPort)).Nodup

/-- An instance written out in full. -/
def writeInstance (i : InstanceConfig) : Json :=
  .object [("name", .string i.name), ("ovpn", .string i.ovpnPath),
    ("listen_host", .string i.shadowsocks.listenHost), ("tcp_port", port i.shadowsocks.tcpPort),
    ("udp_port", port i.shadowsocks.udpPort), ("method", .string i.shadowsocks.method),
    ("password", .string i.shadowsocks.password), ("vpn_username", .string i.vpnUsername),
    ("vpn_password", .string i.vpnPassword)]

def write (config : ManagerConfig) : Json :=
  .object [("instances", .array (config.instances.map writeInstance))]

theorem portAt_port {n : Nat} (key : String) (h : 1 ≤ n ∧ n ≤ 65535) : portAt P (port n) key = .ok n := by
  have hget : (port n).getInt P = .ok (n : Int) := by
    obtain hget | hsmall | hlarge := getInt_integer P false n
    · rw [port, hget, integerValue, if_neg (by decide), (castInt_eq_self_iff _).mpr (by omega)]
    · rw [integerValue, if_neg (by decide)] at hsmall
      omega
    · rw [integerValue, if_neg (by decide)] at hlarge
      omega
  refine bind_eq_ok_iff.mpr ⟨n, hget, ?_⟩
  rw [checkedPort, if_neg (by omega), Int.toNat_natCast]

theorem isNumberInteger_port {n : Nat} (h : n ≤ 65535) : (port n).isNumberInteger P = true := by
  rw [port, Json.isNumberInteger, scanNumber, if_pos (by omega)]

theorem reads_writeInstance (h : ValidInstance P i) : Reads P (writeInstance i) i where
  isObject := rfl
  name := requiredString_ok_iff.mpr ⟨rfl, h.name⟩
  ovpnPath := requiredString_ok_iff.mpr ⟨rfl, h.ovpnPath⟩
  listenHost := rfl
  tcp := by
    show (if (port i.shadowsocks.tcpPort).isNumberInteger P = true then _ else _) = _
    rw [if_pos (isNumberInteger_port h.tcp.2), portAt_port "tcp_port" h.tcp]
  udp := portAt_port "udp_port" h.udp
  method := rfl
  password := requiredString_ok_iff.mpr ⟨rfl, h.password⟩
  vpnUsername := rfl
  vpnPassword := rfl
  file := h.file
  supported := h.method
  udpEnabled := h.udpEnabled

theorem validInstance_of_loadInstance (h : loadInstance P object = .ok i) : ValidInstance P i := by
  have hreads := reads_of_loadInstance h
  obtain ⟨htcp, hudp⟩ := loadInstance_range h
  exact ⟨(requiredString_ok_iff.mp hreads.name).2, (requiredString_ok_iff.mp hreads.ovpnPath).2,
    hreads.file, htcp, hudp, hreads.supported, (requiredString_ok_iff.mp hreads.password).2,
    hreads.udpEnabled⟩

theorem valid_of_loaded {path : String} {json : Json} {config : ManagerConfig}
    (h : loadJsonConfig P path (some (.ok json)) = .ok config) : Valid P config := by
  obtain ⟨objects, hfind⟩ := exists_instances h
  obtain ⟨hne, is, rfl, hall, htcp, hudp⟩ := (loadJsonConfig_instances hfind).mp h
  refine ⟨fun i hi => ?_, fun hnil => ?_, htcp, hudp⟩
  · have hvalid : List.Forall₂ (fun i object => ValidInstance P i ∧ loadInstance P object = .ok i) is objects :=
      hall.flip.imp fun i object hload => ⟨validInstance_of_loadInstance hload, hload⟩
    exact ((List.forall₂_and_left is objects).mp hvalid).1 i hi
  · obtain rfl : is = [] := hnil
    cases hall
    exact hne rfl

theorem loaded_write {config : ManagerConfig} (h : Valid P config) :
    loadJsonConfig P config.jsonPath (some (.ok (write config))) = .ok config := by
  have hfind : (write config).find "instances" =
      some (.array (config.instances.map writeInstance)) := rfl
  refine (loadJsonConfig_instances hfind).mpr ⟨fun hnil => ?_, config.instances, rfl, ?_, h.tcpPorts, h.udpPorts⟩
  · exact h.nonempty (List.map_eq_nil_iff.mp hnil)
  · rw [List.forall₂_map_left_iff, List.forall₂_same]
    exact fun i hi => loadInstance_of_reads (reads_writeInstance (h.instances i hi))

/-- The configurations that some file loads as are exactly the valid ones, and each of them is loaded
    back from what `write` makes of it. -/
theorem loadable_iff_valid (P : Platform) (config : ManagerConfig) :
    ((∃ json, loadJsonConfig P config.jsonPath (some (.ok json)) = .ok config) ↔ Valid P config) ∧
      (Valid P config ↔
        loadJsonConfig P config.jsonPath (some (.ok (write config))) = .ok config) := by
  refine ⟨⟨?_, fun h => ⟨_, loaded_write h⟩⟩, loaded_write, valid_of_loaded⟩
  rintro ⟨json, h⟩
  exact valid_of_loaded h

end Ovpn2ss.Config
