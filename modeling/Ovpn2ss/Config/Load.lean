/-
  `load_json_config` (`src/MultiInstanceManager.cpp`).

  The function takes a configuration apart instance by instance: the fields of one instance are read
  and checked in the order of the source (`loadInstance`), then its ports are put into two sets that
  may not have them already (`loadInstances`). The file is given as what reading it comes to: it
  cannot be opened, the parser throws, or there is a document.

  Ports. The range is checked after `get<int>()`, and only `tcp_port` has to be an integer before
  it. So a port is loaded as it is written exactly if an `int` can hold what is written, and for
  `udp_port` also that it is an integer at all (`loaded_ports_exact_iff`).

  Conflicts. The loop accepts instances that are valid one by one exactly if the TCP ports written in
  the document are pairwise distinct and the UDP ports are (`conflicts_exact`). Valid is more than
  accepted here: 80 and 2³² + 80 are two numbers and one port.
-/
import Ovpn2ss.Lib.Validate
import Ovpn2ss.Config.Json
import Mathlib.Data.List.Forall2
import Mathlib.Data.List.Perm.Basic

namespace Ovpn2ss.Config

open Ovpn2ss.Lib

structure ShadowsocksConfig where
  listenHost : String
  tcpPort : Nat
  udpPort : Nat
  method : String
  password : String
  deriving DecidableEq

structure InstanceConfig where
  name : String
  ovpnPath : String
  shadowsocks : ShadowsocksConfig
  udpEnabled : Bool := true
  vpnUsername : String
  vpnPassword : String
  deriving DecidableEq

structure ManagerConfig where
  jsonPath : String
  instances : List InstanceConfig
  deriving DecidableEq

/-! ## One instance -/

def checkedPort (value : Int) (key : String) : Except String Nat :=
  if value ≤ 0 ∨ 65535 < value then .error ("invalid port for key: " ++ key) else .ok value.toNat

def requiredString (object : Json) (key : String) : Except String String :=
  match object.find key with
  | some (.string value) =>
    if value.isEmpty then .error ("instance requires non-empty string: " ++ key) else .ok value
  | _ => .error ("instance requires non-empty string: " ++ key)

def optionalString (object : Json) (key fallback : String) : Except String String :=
  match object.find key with
  | none => .ok fallback
  | some (.string value) => .ok value
  | some _ => .error ("config key must be string: " ++ key)

/-- `checked_port(object.at(key).get<int>(), key)`. -/
def portAt (P : Platform) (value : Json) (key : String) : Except String Nat := do
  checkedPort (← value.getInt P) key

def tcpPort (P : Platform) (object : Json) : Except String Nat :=
  match object.find "tcp_port" with
  | none => .error "instance requires integer tcp_port"
  | some value =>
    if value.isNumberInteger P then portAt P value "tcp_port"
    else .error "instance requires integer tcp_port"

/-- Unlike `tcp_port` this one is not asked to be an integer. -/
def udpPort (P : Platform) (object : Json) (tcpPort : Nat) : Except String Nat :=
  match object.find "udp_port" with
  | none => .ok tcpPort
  | some value => portAt P value "udp_port"

/-- The body of the loop, up to the check of the ports against the other instances. -/
def loadInstance (P : Platform) (object : Json) : Except String InstanceConfig :=
  if object.isObject then do
    let name ← requiredString object "name"
    let ovpnPath ← requiredString object "ovpn"
    let listenHost ← optionalString object "listen_host" "127.0.0.1"
    let tcp ← tcpPort P object
    let udp ← udpPort P object tcp
    let method ← optionalString object "method" "chacha20-ietf-poly1305"
    let password ← requiredString object "password"
    let vpnUsername ← optionalString object "vpn_username" ""
    let vpnPassword ← optionalString object "vpn_password" ""
    let regular ← P.isRegularFile ovpnPath
    if !regular then .error ("ovpn file does not exist: " ++ ovpnPath)
    else if method ≠ "chacha20-ietf-poly1305" then .error "only chacha20-ietf-poly1305 is supported"
    else .ok { name, ovpnPath, shadowsocks := ⟨listenHost, tcp, udp, method, password⟩,
               vpnUsername, vpnPassword }
  else .error "instances entries must be objects"

/-! ## The document -/

/-- The loop over the instances, with the two sets of ports. The second `insert` is only reached
    with a port other than 0 and after the first has succeeded. -/
def loadInstances (P : Platform) : List Json → Finset Nat → Finset Nat →
    Except String (List InstanceConfig)
  | [], _, _ => .ok []
  | object :: objects, tcpPorts, udpPorts => do
    let i ← loadInstance P object
    if i.shadowsocks.tcpPort ∈ tcpPorts ∨
        (i.shadowsocks.udpPort ≠ 0 ∧ i.shadowsocks.udpPort ∈ udpPorts) then
      .error "duplicate Shadowsocks listen port for the same protocol"
    else do
      let is ← loadInstances P objects (insert i.shadowsocks.tcpPort tcpPorts)
        (if i.shadowsocks.udpPort ≠ 0 then insert i.shadowsocks.udpPort udpPorts else udpPorts)
      return i :: is

def loadJsonConfig (P : Platform) (path : String) (file : Option (Except String Json)) :
    Except String ManagerConfig :=
  match file with
  | none => .error ("cannot open config: " ++ path)
  | some (.error e) => .error e
  | some (.ok json) =>
    match json.find "instances" with
    | some (.array objects) =>
      if objects.isEmpty then .error "config must contain at least one instance"
      else do
        let instances ← loadInstances P objects ∅ ∅
        return ⟨path, instances⟩
    | _ => .error "config requires instances array"

/-! ## Ports are what was written, or not -/

variable {P : Platform} {object : Json} {i : InstanceConfig}

/-- The object has the fields of the instance, and they pass the checks. -/
structure Reads (P : Platform) (object : Json) (i : InstanceConfig) : Prop where
  isObject : object.isObject = true
  name : requiredString object "name" = .ok i.name
  ovpnPath : requiredString object "ovpn" = .ok i.ovpnPath
  listenHost : optionalString object "listen_host" "127.0.0.1" = .ok i.shadowsocks.listenHost
  tcp : tcpPort P object = .ok i.shadowsocks.tcpPort
  udp : udpPort P object i.shadowsocks.tcpPort = .ok i.shadowsocks.udpPort
  method : optionalString object "method" "chacha20-ietf-poly1305" = .ok i.shadowsocks.method
  password : requiredString object "password" = .ok i.shadowsocks.password
  vpnUsername : optionalString object "vpn_username" "" = .ok i.vpnUsername
  vpnPassword : optionalString object "vpn_password" "" = .ok i.vpnPassword
  file : P.isRegularFile i.ovpnPath = .ok true
  supported : i.shadowsocks.method = "chacha20-ietf-poly1305"
  udpEnabled : i.udpEnabled = true

theorem reads_of_loadInstance (h : loadInstance P object = .ok i) : Reads P object i := by
  unfold loadInstance at h
  split at h
  · rename_i hobject
    obtain ⟨name, hname, h⟩ := bind_eq_ok_iff.mp h
    obtain ⟨ovpnPath, hovpn, h⟩ := bind_eq_ok_iff.mp h
    obtain ⟨listenHost, hhost, h⟩ := bind_eq_ok_iff.mp h
    obtain ⟨tcp, htcp, h⟩ := bind_eq_ok_iff.mp h
    obtain ⟨udp, hudp, h⟩ := bind_eq_ok_iff.mp h
    obtain ⟨method, hmethod, h⟩ := bind_eq_ok_iff.mp h
    obtain ⟨password, hpassword, h⟩ := bind_eq_ok_iff.mp h
    obtain ⟨vpnUsername, huser, h⟩ := bind_eq_ok_iff.mp h
    obtain ⟨vpnPassword, hpass, h⟩ := bind_eq_ok_iff.mp h
    obtain ⟨regular, hfile, h⟩ := bind_eq_ok_iff.mp h
    split at h
    · cases h
    · rename_i hregular
      split at h
      · cases h
      · rename_i hsupported
        cases h
        rw [Bool.not_eq_true', Bool.not_eq_false] at hregular
        rw [hregular] at hfile
        exact ⟨hobject, hname, hovpn, hhost, htcp, hudp, hmethod, hpassword, huser, hpass, hfile,
          not_not.mp hsupported, rfl⟩
  · cases h

theorem portAt_ok {value : Json} {key : String} {port : Nat} (h : portAt P value key = .ok port) :
    value.getInt P = .ok port ∧ 1 ≤ port ∧ port ≤ 65535 := by
  obtain ⟨n, hn, h⟩ := bind_eq_ok_iff.mp h
  unfold checkedPort at h
  split at h
  · cases h
  · rename_i hrange
    cases h
    rw [Int.toNat_of_nonneg (by omega)]
    exact ⟨hn, by omega, by omega⟩

/-- The port of a field is the integer written there exactly if an `int` can hold that. -/
theorem portAt_exact_iff {value : Json} {key : String} {port : Nat}
    (h : portAt P value key = .ok port) : value.IsInteger port ↔ value.FitsInt := by
  obtain ⟨hget, hle, hge⟩ := portAt_ok h
  exact isInteger_iff_fitsInt hget (by omega) (by omega)

theorem tcpPort_ok {port : Nat} (h : tcpPort P object = .ok port) :
    ∃ value, object.find "tcp_port" = some value ∧ portAt P value "tcp_port" = .ok port := by
  unfold tcpPort at h
  split at h
  · cases h
  · rename_i value hfind
    split at h
    · exact ⟨value, hfind, h⟩
    · cases h

theorem udpPort_ok {tcp port : Nat} (h : udpPort P object tcp = .ok port) :
    (object.find "udp_port" = none ∧ port = tcp) ∨
      ∃ value, object.find "udp_port" = some value ∧ portAt P value "udp_port" = .ok port := by
  unfold udpPort at h
  split at h
  · rename_i hfind
    cases h
    exact .inl ⟨hfind, rfl⟩
  · rename_i value hfind
    exact .inr ⟨value, hfind, h⟩

/-- The loaded ports are in the range, whatever they were made of. -/
theorem loadInstance_range (h : loadInstance P object = .ok i) :
    (1 ≤ i.shadowsocks.tcpPort ∧ i.shadowsocks.tcpPort ≤ 65535) ∧
      1 ≤ i.shadowsocks.udpPort ∧ i.shadowsocks.udpPort ≤ 65535 := by
  have hreads := reads_of_loadInstance h
  obtain ⟨value, -, hport⟩ := tcpPort_ok hreads.tcp
  have hrange := (portAt_ok hport).2
  refine ⟨hrange, ?_⟩
  rcases udpPort_ok hreads.udp with ⟨-, heq⟩ | ⟨value, -, hport⟩
  · rw [heq]
    exact hrange
  · exact (portAt_ok hport).2

/-- The ports are integers of the range and loaded as they are written; without a UDP port it is the
    TCP port. -/
structure PortsExact (object : Json) (i : InstanceConfig) : Prop where
  tcp : ∃ value, object.find "tcp_port" = some value ∧ value.IsInteger i.shadowsocks.tcpPort
  udp : ∀ value, object.find "udp_port" = some value → value.IsInteger i.shadowsocks.udpPort
  udpDefault : object.find "udp_port" = none → i.shadowsocks.udpPort = i.shadowsocks.tcpPort
  tcpRange : 1 ≤ i.shadowsocks.tcpPort ∧ i.shadowsocks.tcpPort ≤ 65535
  udpRange : 1 ≤ i.shadowsocks.udpPort ∧ i.shadowsocks.udpPort ≤ 65535

/-- The ports are written as integers that an `int` can hold. -/
def PortsFit (object : Json) : Prop :=
  (∀ value, object.find "tcp_port" = some value → value.FitsInt) ∧
    ∀ value, object.find "udp_port" = some value → value.FitsInt

theorem loadInstance_udpDefault (h : loadInstance P object = .ok i)
    (hnone : object.find "udp_port" = none) : i.shadowsocks.udpPort = i.shadowsocks.tcpPort := by
  rcases udpPort_ok (reads_of_loadInstance h).udp with ⟨-, heq⟩ | ⟨value, hfind, -⟩
  · exact heq
  · rw [hnone] at hfind
    cases hfind

theorem loadInstance_udp_exact_iff {value : Json} (h : loadInstance P object = .ok i)
    (hvalue : object.find "udp_port" = some value) :
    value.IsInteger i.shadowsocks.udpPort ↔ value.FitsInt := by
  rcases udpPort_ok (reads_of_loadInstance h).udp with ⟨hnone, -⟩ | ⟨value', hfind, hport⟩
  · rw [hvalue] at hnone
    cases hnone
  · rw [hvalue] at hfind
    cases hfind
    exact portAt_exact_iff hport

theorem portsExact_iff (h : loadInstance P object = .ok i) :
    PortsExact object i ↔ PortsFit object := by
  obtain ⟨tcp, hfind, hport⟩ := tcpPort_ok (reads_of_loadInstance h).tcp
  constructor
  · intro hexact
    refine ⟨fun value hvalue => ?_, fun value hvalue => ?_⟩
    · obtain ⟨value', hvalue', hint⟩ := hexact.tcp
      rw [hfind] at hvalue hvalue'
      cases hvalue
      cases hvalue'
      exact (portAt_exact_iff hport).mp hint
    · exact (loadInstance_udp_exact_iff h hvalue).mp (hexact.udp value hvalue)
  · rintro ⟨htcp, hudp⟩
    obtain ⟨htcpRange, hudpRange⟩ := loadInstance_range h
    exact
      { tcp := ⟨tcp, hfind, (portAt_exact_iff hport).mpr (htcp tcp hfind)⟩
        udp := fun value hvalue =>
          (loadInstance_udp_exact_iff h hvalue).mpr (hudp value hvalue)
        udpDefault := loadInstance_udpDefault h
        tcpRange := htcpRange
        udpRange := hudpRange }

/-! ## The loop over the instances -/

/-- The loop succeeds exactly if every instance loads and no port was there before. -/
theorem loadInstances_ok_iff {objects : List Json} {tcpPorts udpPorts : Finset Nat}
    {is : List InstanceConfig} :
    loadInstances P objects tcpPorts udpPorts = .ok is ↔
      List.Forall₂ (fun object i => loadInstance P object = .ok i) objects is ∧
        Fresh (·.shadowsocks.tcpPort) tcpPorts is ∧ Fresh (·.shadowsocks.udpPort) udpPorts is := by
  induction objects generalizing tcpPorts udpPorts is with
  | nil =>
    constructor
    · intro h
      cases h
      exact ⟨.nil, fresh_nil, fresh_nil⟩
    · rintro ⟨h, -⟩
      cases h
      rfl
  | cons object objects ih =>
    rw [loadInstances, bind_eq_ok_iff]
    constructor
    · rintro ⟨i, hi, h⟩
      -- port 0 does not get this far
      have hzero : i.shadowsocks.udpPort ≠ 0 := Nat.ne_of_gt (loadInstance_range hi).2.1
      by_cases hdup : i.shadowsocks.tcpPort ∈ tcpPorts ∨
          (i.shadowsocks.udpPort ≠ 0 ∧ i.shadowsocks.udpPort ∈ udpPorts)
      · rw [if_pos hdup] at h
        cases h
      · rw [if_neg hdup, if_pos hzero] at h
        obtain ⟨htcp, hudp⟩ := not_or.mp hdup
        obtain ⟨rest, hrest, h⟩ := bind_eq_ok_iff.mp h
        cases h
        obtain ⟨hall, hft, hfu⟩ := ih.mp hrest
        exact ⟨.cons hi hall, fresh_cons.mpr ⟨htcp, hft⟩,
          fresh_cons.mpr ⟨fun hmem => hudp ⟨hzero, hmem⟩, hfu⟩⟩
    · rintro ⟨hall, hft, hfu⟩
      cases hall with
      | cons hi hall =>
        rename_i i rest
        have hzero : i.shadowsocks.udpPort ≠ 0 := Nat.ne_of_gt (loadInstance_range hi).2.1
        obtain ⟨htcp, hft⟩ := fresh_cons.mp hft
        obtain ⟨hudp, hfu⟩ := fresh_cons.mp hfu
        refine ⟨i, hi, ?_⟩
        rw [if_neg (not_or.mpr ⟨htcp, fun h => hudp h.2⟩), if_pos hzero, ih.mpr ⟨hall, hft, hfu⟩]
        rfl

/-- Loading a document with an array of instances. -/
theorem loadJsonConfig_instances {path : String} {json : Json} {objects : List Json}
    {config : ManagerConfig} (hjson : json.find "instances" = some (.array objects)) :
    loadJsonConfig P path (some (.ok json)) = .ok config ↔
      objects ≠ [] ∧ ∃ is, config = ⟨path, is⟩ ∧
        List.Forall₂ (fun object i => loadInstance P object = .ok i) objects is ∧
        (is.map (·.shadowsocks.tcpPort)).Nodup ∧ (is.map (·.shadowsocks.udpPort)).Nodup := by
  simp only [loadJsonConfig, hjson]
  cases objects with
  | nil => exact iff_of_false (fun h => (by cases h)) fun h => h.1 rfl
  | cons object objects =>
    rw [and_iff_right (List.cons_ne_nil _ _), if_neg (by simp), bind_eq_ok_iff]
    constructor
    · rintro ⟨is, his, h⟩
      cases h
      obtain ⟨hall, hft, hfu⟩ := loadInstances_ok_iff.mp his
      exact ⟨is, rfl, hall, fresh_empty_iff.mp hft, fresh_empty_iff.mp hfu⟩
    · rintro ⟨is, rfl, hall, htcp, hudp⟩
      exact ⟨is, loadInstances_ok_iff.mpr ⟨hall, fresh_empty_iff.mpr htcp, fresh_empty_iff.mpr hudp⟩,
        rfl⟩

theorem exists_instances {path : String} {json : Json} {config : ManagerConfig}
    (h : loadJsonConfig P path (some (.ok json)) = .ok config) :
    ∃ objects, json.find "instances" = some (.array objects) := by
  simp only [loadJsonConfig] at h
  split at h
  · rename_i objects hfind
    exact ⟨objects, hfind⟩
  · cases h

/-- A configuration of one instance. -/
def single (object : Json) : Json := .object [("instances", .array [object])]

/-- An instance that is accepted alone is one that loads. -/
theorem loadJsonConfig_single {path : String} (object : Json) (i : InstanceConfig) :
    loadJsonConfig P path (some (.ok (single object))) = .ok ⟨path, [i]⟩ ↔
      loadInstance P object = .ok i := by
  have hfind : (single object).find "instances" = some (.array [object]) := rfl
  rw [loadJsonConfig_instances hfind, and_iff_right (List.cons_ne_nil _ _)]
  constructor
  · rintro ⟨is, heq, hall, -⟩
    cases heq
    cases hall with
    | cons hi _ => exact hi
  · intro hi
    exact ⟨[i], rfl, .cons hi .nil, List.nodup_singleton _, List.nodup_singleton _⟩

/-- A loaded configuration has the ports of the document exactly if every port there is an integer
    that an `int` can hold. -/
theorem loaded_ports_exact_iff {path : String} {json : Json} {config : ManagerConfig}
    (h : loadJsonConfig P path (some (.ok json)) = .ok config) :
    ∃ objects, json.find "instances" = some (.array objects) ∧
      objects.length = config.instances.length ∧
      ((∀ p ∈ objects.zip config.instances, PortsExact p.1 p.2) ↔
        ∀ object ∈ objects, PortsFit object) := by
  obtain ⟨objects, hfind⟩ := exists_instances h
  obtain ⟨-, is, rfl, hall, -⟩ := (loadJsonConfig_instances hfind).mp h
  refine ⟨objects, hfind, hall.length_eq, ?_⟩
  clear h hfind
  show (∀ p ∈ objects.zip is, PortsExact p.1 p.2) ↔ _
  induction hall with
  | nil => exact iff_of_true (fun p hp => (by cases hp)) fun object ho => (by cases ho)
  | cons hi _ ih => rw [List.zip_cons_cons, List.forall_mem_cons, List.forall_mem_cons, ih,
      portsExact_iff hi]

/-- A system on which every path is a regular file. -/
def anyFile : Platform := ⟨id, fun _ => 0, fun _ => .ok true⟩

/-- An instance with the fields it needs, and its ports. -/
def instanceWith (ports : List (String × Json)) : Json :=
  .object ([("name", .string "a"), ("ovpn", .string "a.ovpn"), ("password", .string "p")] ++ ports)

def configWith (tcpPort udpPort : Nat) : InstanceConfig where
  name := "a"
  ovpnPath := "a.ovpn"
  shadowsocks := ⟨"127.0.0.1", tcpPort, udpPort, "chacha20-ietf-poly1305", "p"⟩
  vpnUsername := ""
  vpnPassword := ""

def port (n : Nat) : Json := .number (.integer false n)

theorem loaded_ports_exact_iff_plain :
    ∃ config, loadJsonConfig anyFile "c.json"
        (some (.ok (single (instanceWith [("tcp_port", port 80)])))) = .ok config ∧
      ∃ objects, (single (instanceWith [("tcp_port", port 80)])).find "instances" =
          some (.array objects) ∧
        objects.length = config.instances.length ∧
        ((∀ p ∈ objects.zip config.instances, PortsExact p.1 p.2) ↔
          ∀ object ∈ objects, PortsFit object) := by
  have h : loadJsonConfig anyFile "c.json"
      (some (.ok (single (instanceWith [("tcp_port", port 80)])))) =
        .ok ⟨"c.json", [configWith 80 80]⟩ := (loadJsonConfig_single _ _).mpr rfl
  exact ⟨_, h, loaded_ports_exact_iff h⟩

/-- 4294967376 is 2³² + 80. -/
def wrapped : Json := instanceWith [("tcp_port", port 4294967376)]

/-- A UDP port of 80.5. -/
def fractional : Json :=
  instanceWith [("tcp_port", port 81), ("udp_port", .number (.real ⟨161, 2, by decide, by decide⟩))]

def booleanPort : Json := instanceWith [("tcp_port", port 81), ("udp_port", .boolean true)]

/-- Three documents with something else than a port that are accepted. -/
theorem inexact_ports_accepted :
    (loadJsonConfig anyFile "c.json" (some (.ok (single wrapped))) =
        .ok ⟨"c.json", [configWith 80 80]⟩ ∧ ¬ PortsExact wrapped (configWith 80 80)) ∧
      (loadJsonConfig anyFile "c.json" (some (.ok (single fractional))) =
        .ok ⟨"c.json", [configWith 81 80]⟩ ∧ ¬ PortsExact fractional (configWith 81 80)) ∧
      (loadJsonConfig anyFile "c.json" (some (.ok (single booleanPort))) =
        .ok ⟨"c.json", [configWith 81 1]⟩ ∧ ¬ PortsExact booleanPort (configWith 81 1)) := by
  refine ⟨⟨(loadJsonConfig_single _ _).mpr rfl, fun h => ?_⟩,
    ⟨(loadJsonConfig_single _ _).mpr rfl, fun h => ?_⟩,
    ⟨(loadJsonConfig_single _ _).mpr rfl, fun h => ?_⟩⟩
  · obtain ⟨value, hvalue, negative, digits, hjson, hint⟩ := h.tcp
    have hfind : wrapped.find "tcp_port" = some (port 4294967376) := rfl
    rw [hfind] at hvalue
    cases hvalue
    cases hjson
    exact absurd hint (by decide)
  · obtain ⟨negative, digits, hjson, -⟩ := h.udp _ rfl
    cases hjson
  · obtain ⟨negative, digits, hjson, -⟩ := h.udp _ rfl
    cases hjson

/-! ## Conflicts -/

theorem loadedAs_unique {objects : List Json} {is js : List InstanceConfig}
    (his : List.Forall₂ (fun object i => loadInstance P object = .ok i) objects is)
    (hjs : List.Forall₂ (fun object i => loadInstance P object = .ok i) objects js) : is = js :=
  List.right_unique_forall₂' (fun _ _ _ hi hj => Except.ok.inj (hi.symm.trans hj)) his hjs

/-- Instances that load are accepted together exactly if no TCP port and no UDP port repeats. -/
theorem accepted_iff_nodup {path : String} {json : Json} {objects : List Json}
    {is : List InstanceConfig} (hjson : json.find "instances" = some (.array objects))
    (hne : objects ≠ [])
    (hall : List.Forall₂ (fun object i => loadInstance P object = .ok i) objects is) :
    (∃ config, loadJsonConfig P path (some (.ok json)) = .ok config) ↔
      (is.map (·.shadowsocks.tcpPort)).Nodup ∧ (is.map (·.shadowsocks.udpPort)).Nodup := by
  constructor
  · rintro ⟨config, h⟩
    obtain ⟨-, js, -, hjs, hnodup⟩ := (loadJsonConfig_instances hjson).mp h
    rw [loadedAs_unique hall hjs]
    exact hnodup
  · intro hnodup
    exact ⟨_, (loadJsonConfig_instances hjson).mpr ⟨hne, is, rfl, hall, hnodup⟩⟩

/-- The integer that a field has. -/
def Json.integer? : Json → Option Int
  | .number (.integer negative digits) => some (integerValue negative digits)
  | _ => none

def writtenTcp (object : Json) : Option Int := (object.find "tcp_port").bind Json.integer?

/-- `udp_port`, or `tcp_port` without it. -/
def effectiveUdp (object : Json) : Option Int :=
  match object.find "udp_port" with
  | none => writtenTcp object
  | some value => value.integer?

theorem integer?_of_isInteger {value : Json} {n : Int} (h : value.IsInteger n) :
    value.integer? = some n := by
  obtain ⟨negative, digits, rfl, rfl⟩ := h
  rfl

theorem PortsExact.writtenTcp (h : PortsExact object i) :
    writtenTcp object = some (i.shadowsocks.tcpPort : Int) := by
  obtain ⟨value, hfind, hvalue⟩ := h.tcp
  rw [Config.writtenTcp, hfind]
  exact integer?_of_isInteger hvalue

theorem PortsExact.effectiveUdp (h : PortsExact object i) :
    effectiveUdp object = some (i.shadowsocks.udpPort : Int) := by
  unfold Config.effectiveUdp
  split
  · rename_i hnone
    rw [h.writtenTcp, h.udpDefault hnone]
  · rename_i value hfind
    exact integer?_of_isInteger (h.udp value hfind)

/-- What the objects have written is what the instances have, so it repeats in both or in neither. -/
theorem nodup_written_iff {objects : List Json} {is : List InstanceConfig} {written : Json → Option Int}
    {loaded : InstanceConfig → Nat}
    (h : List.Forall₂ (fun object i => written object = some (loaded i : Int)) objects is) :
    (objects.map written).Nodup ↔ (is.map loaded).Nodup := by
  have hmap : objects.map written = (is.map loaded).map (fun n : Nat => some (n : Int)) := by
    rw [List.map_map, ← List.forall₂_eq_eq_eq, List.forall₂_map_left_iff, List.forall₂_map_right_iff]
    exact h
  rw [hmap, List.nodup_map_iff fun m n hmn => Int.ofNat_inj.mp (Option.some.inj hmn)]

/-- An instance that is valid by itself: it is accepted in a document of its own, and its ports are
    integers of the range, loaded as they are written. -/
structure ValidAlone (P : Platform) (path : String) (object : Json) (i : InstanceConfig) : Prop where
  accepted : loadJsonConfig P path (some (.ok (single object))) = .ok ⟨path, [i]⟩
  ports : PortsExact object i

/-- Instances that are valid one by one are accepted exactly if no TCP port and no UDP port of the
    document repeats; they are loaded in their order; and their order does not matter for whether they
    are. -/
theorem conflicts_exact {path : String} {json : Json} {objects : List Json}
    {is : List InstanceConfig} (hjson : json.find "instances" = some (.array objects))
    (hne : objects ≠ []) (hvalid : List.Forall₂ (ValidAlone P path) objects is) :
    ((∃ config, loadJsonConfig P path (some (.ok json)) = .ok config) ↔
        (objects.map writtenTcp).Nodup ∧ (objects.map effectiveUdp).Nodup) ∧
      (∀ config, loadJsonConfig P path (some (.ok json)) = .ok config → config = ⟨path, is⟩) ∧
      ∀ json' objects', json'.find "instances" = some (.array objects') → objects'.Perm objects →
        ((∃ config, loadJsonConfig P path (some (.ok json')) = .ok config) ↔
          ∃ config, loadJsonConfig P path (some (.ok json)) = .ok config) := by
  have hall : List.Forall₂ (fun object i => loadInstance P object = .ok i) objects is :=
    hvalid.imp fun object i h => (loadJsonConfig_single object i).mp h.accepted
  have haccepted : (∃ config, loadJsonConfig P path (some (.ok json)) = .ok config) ↔ _ :=
    accepted_iff_nodup hjson hne hall
  refine ⟨?_, fun config h => ?_, ?_⟩
  · rw [haccepted, nodup_written_iff (hvalid.imp fun _ _ h => h.ports.writtenTcp),
      nodup_written_iff (hvalid.imp fun _ _ h => h.ports.effectiveUdp)]
  · obtain ⟨-, js, rfl, hjs, -⟩ := (loadJsonConfig_instances hjson).mp h
    rw [loadedAs_unique hall hjs]
  · intro json' objects' hjson' hperm
    -- the permuted instances load to the permuted configurations
    obtain ⟨js, hjs, hperm'⟩ := List.perm_comp_forall₂ hperm hall
    have hne' : objects' ≠ [] := fun h0 => hne (by rw [h0] at hperm; exact hperm.nil_eq.symm)
    rw [haccepted, accepted_iff_nodup hjson' hne' hjs, (hperm'.map _).nodup_iff,
      (hperm'.map _).nodup_iff]

theorem fitsInt_port {n : Nat} (h : n ≤ 65535) : (port n).FitsInt := by
  refine ⟨n, ⟨false, n, rfl, rfl⟩, ?_, ?_⟩ <;> omega

/-- What an object has under a key is written there. -/
theorem mem_of_find {members : List (String × Json)} {key : String} {value : Json}
    (h : (Json.object members).find key = some value) : (key, value) ∈ members := by
  obtain ⟨before, after, heq, -⟩ := List.lookup_eq_some_iff.mp h
  rw [← List.mem_reverse, heq]
  exact List.mem_append_right _ List.mem_cons_self

theorem validAlone_instanceWith {ports : List (String × Json)} {tcp udp : Nat}
    (h : loadInstance P (instanceWith ports) = .ok (configWith tcp udp))
    (hports : ∀ p ∈ ports, p.2.FitsInt) (path : String) :
    ValidAlone P path (instanceWith ports) (configWith tcp udp) := by
  have hfit {key : String} (hkey : key = "tcp_port" ∨ key = "udp_port") {value : Json}
      (hvalue : (instanceWith ports).find key = some value) : value.FitsInt := by
    obtain hmem | hmem := List.mem_append.mp (mem_of_find hvalue)
    · obtain rfl | rfl := hkey <;> simp at hmem
    · exact hports _ hmem
  refine ⟨(loadJsonConfig_single _ _).mpr h, (portsExact_iff h).mpr ⟨fun value hvalue => ?_, ?_⟩⟩
  · exact hfit (Or.inl rfl) hvalue
  · exact fun value hvalue => hfit (Or.inr rfl) hvalue

def demoCrossed : List Json :=
  [instanceWith [("tcp_port", port 80), ("udp_port", port 81)],
    instanceWith [("tcp_port", port 81), ("udp_port", port 80)]]

def demoDefaulted : List Json :=
  [instanceWith [("tcp_port", port 80), ("udp_port", port 81)], instanceWith [("tcp_port", port 81)]]

/-- The TCP port of one is the UDP port of the other, which is no conflict; but without a `udp_port` the
    second has the UDP port of the first. -/
theorem conflicts_exact_overlap :
    (∃ config, loadJsonConfig anyFile "c.json"
        (some (.ok (.object [("instances", .array demoCrossed)]))) = .ok config) ∧
      ¬ ∃ config, loadJsonConfig anyFile "c.json"
        (some (.ok (.object [("instances", .array demoDefaulted)]))) = .ok config := by
  have hfirst : ValidAlone anyFile "c.json" (instanceWith [("tcp_port", port 80), ("udp_port", port 81)])
      (configWith 80 81) := validAlone_instanceWith rfl (by simp [fitsInt_port]) _
  have hcrossed : List.Forall₂ (ValidAlone anyFile "c.json") demoCrossed
      [configWith 80 81, configWith 81 80] :=
    .cons hfirst (.cons (validAlone_instanceWith rfl (by simp [fitsInt_port]) _) .nil)
  have hdefaulted : List.Forall₂ (ValidAlone anyFile "c.json") demoDefaulted
      [configWith 80 81, configWith 81 81] :=
    .cons hfirst (.cons (validAlone_instanceWith rfl (by simp [fitsInt_port]) _) .nil)
  exact ⟨(conflicts_exact rfl (by simp [demoCrossed]) hcrossed).1.mpr ⟨by decide, by decide⟩,
    fun h => absurd ((conflicts_exact rfl (by simp [demoDefaulted]) hdefaulted).1.mp h).2 (by decide)⟩

end Ovpn2ss.Config
