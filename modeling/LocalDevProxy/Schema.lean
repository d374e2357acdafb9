import LocalDevProxy.Config
import Mathlib.Data.List.Count
import Mathlib.Data.List.Nodup
import Mathlib.Data.Set.List

namespace LocalDevProxy.Schema

open Lib.Fallible Text Toml Config

def OnlyKeys (allowed : List String) (t : Table) : Prop := ∀ key ∈ keys t, key ∈ allowed

def Present (t : Table) (key : String) : Prop := (getKey t key).isSome

def Required (t : Table) (key : String) (P : Value → Prop) : Prop := ∃ v, getKey t key = some v ∧ P v

def Optional (t : Table) (key : String) (P : Value → Prop) : Prop := ∀ v, getKey t key = some v → P v

def IsPort (v : Value) : Prop := ∃ n : Int, v = .integer n ∧ 1 ≤ n ∧ n ≤ 65535

def IsBool (v : Value) : Prop := ∃ b, v = .boolean b

def IsText (v : Value) : Prop := ∃ s : String, v = .string s ∧ s ≠ ""

def IsTextList (v : Value) : Prop := ∃ items, v = .array items ∧ items ≠ [] ∧ ∀ item ∈ items, IsText item

def IsEnv (v : Value) : Prop := ∃ entries, v = .table entries ∧ ∀ entry ∈ entries, ∃ s, entry.2 = .string s

/-- A route: an id, hosts, one target, and a target host for a TCP target only. -/
structure RouteSchema (t : Table) : Prop where
  known : OnlyKeys routeKeys t
  id : Required t "id" IsText
  hosts : Required t "hosts" IsTextList
  target : ∃ key ∈ targetKeys, Present t key ∧ ∀ other ∈ targetKeys, Present t other → other = key
  port : Optional t "target_port" IsPort
  portEnv : Optional t "target_port_env" IsText
  socket : Optional t "target_socket" IsText
  socketEnv : Optional t "target_socket_env" IsText
  targetHost : Optional t "target_host" fun v =>
    (∃ host ∈ allowedTargetHosts, v = .string host) ∧ (Present t "target_port" ∨ Present t "target_port_env")

structure ServiceSchema (name : String) (t : Table) : Prop where
  nonempty : name ≠ ""
  wellFormed : ∀ c ∈ name.toList, isAsciiAlphanumeric c = true ∨ c = '_' ∨ c = '-'
  unreserved : name ∉ reservedServiceNames
  known : OnlyKeys serviceKeys t
  command : Optional t "command" IsTextList
  env : Optional t "env" IsEnv
  disabled : Optional t "disabled" IsBool
  autoStart : Optional t "auto_start" IsBool
  startable : Present t "auto_start" → Present t "command"
  routes : Optional t "routes" fun v => ∃ items, v = .array items ∧
    ∀ item ∈ items, ∃ route, item = .table route ∧ RouteSchema route

structure ManifestSchema (t : Table) : Prop where
  known : OnlyKeys topLevelKeys t
  httpPort : Required t "http_port" IsPort
  bind : Required t "bind" IsTextList
  services : Required t "services" fun v => ∃ entries, v = .table entries ∧ entries ≠ [] ∧
    ∀ entry ∈ entries, ∃ service, entry.2 = .table service ∧ ServiceSchema entry.1 service

def textList (texts : List String) : Value := .array (texts.map .string)

theorem containsKey_iff {t : Table} {key : String} : containsKey t key = true ↔ Present t key := by
  simp [containsKey, keys, Present, getKey]

theorem rejectUnknownKeys_ok {t : Table} {allowed : List String} {field : String} {u : Unit} :
    rejectUnknownKeys t allowed field = .ok u ↔ OnlyKeys allowed t := by
  rw [rejectUnknownKeys, check_eq_ok]
  simp [OnlyKeys, List.filter_eq_nil_iff]

theorem parsePort_ok {v : Value} {field : String} {port : Port} :
    parsePort v field = .ok port ↔ v = .integer port.number := by
  cases v with
  | integer n =>
      rw [Value.integer.injEq, ← portOfInt_some, parsePort]
      cases Port.ofInt n <;> simp
  | _ => simp [parsePort]

theorem parseBool_ok {v : Option Value} {default b : Bool} {field : String} :
    parseBool v default field = .ok b ↔ v.getD (.boolean default) = .boolean b := by
  cases v with
  | none => simp [parseBool]
  | some v => cases v <;> simp [parseBool]

theorem nonEmpty_ok {s t : String} {err : ConfigError} :
    (if s ≠ "" then .ok s else .error err : Except ConfigError String) = .ok t ↔ s = t ∧ t ≠ "" := by
  by_cases hs : s = ""
  · rw [if_neg (not_not.mpr hs)]
    constructor
    · rintro ⟨⟩
    · rintro ⟨rfl, hne⟩
      exact absurd hs hne
  · rw [if_pos hs, Except.ok.injEq]
    constructor
    · rintro rfl
      exact ⟨rfl, hs⟩
    · exact And.left

theorem parseNonEmptyString_ok {v : Value} {field s : String} :
    parseNonEmptyString v field = .ok s ↔ v = .string s ∧ s ≠ "" := by
  cases v with
  | string t => rw [parseNonEmptyString, nonEmpty_ok, Value.string.injEq]
  | _ => simp [parseNonEmptyString]

theorem parseStringList_ok {v : Value} {field : String} {texts : List String} :
    parseStringList v field = .ok texts ↔ v = textList texts ∧ texts ≠ [] ∧ ∀ s ∈ texts, s ≠ "" := by
  cases v with
  | array items =>
      rw [parseStringList, textList, Value.array.injEq]
      by_cases hempty : items = []
      · subst hempty
        constructor
        · rintro ⟨⟩
        · rintro ⟨hmap, hne, _⟩
          exact absurd (List.map_eq_nil_iff.mp hmap.symm) hne
      · rw [if_neg (by simpa using hempty)]
        rw [collect_eq_ok_of_inverse (g := Value.string) (Q := fun s => s ≠ "")]
        · constructor
          · rintro ⟨rfl, hall⟩
            exact ⟨rfl, fun he => hempty (by rw [he]; rfl), hall⟩
          · rintro ⟨rfl, _, hall⟩
            exact ⟨rfl, hall⟩
        · intro item s
          cases item with
          | string t => rw [Value.string.injEq, nonEmpty_ok]
          | _ => simp
  | _ => simp [parseStringList, textList]

theorem isTextList_iff {v : Value} :
    IsTextList v ↔ ∃ texts, v = textList texts ∧ texts ≠ [] ∧ ∀ s ∈ texts, s ≠ "" := by
  constructor
  · rintro ⟨items, rfl, hne, hall⟩
    obtain ⟨texts, rfl⟩ : items ∈ Set.range (List.map Value.string) := by
      rw [Set.range_list_map]
      intro item hitem
      obtain ⟨s, hs, _⟩ := hall item hitem
      exact ⟨s, hs.symm⟩
    refine ⟨texts, rfl, fun he => hne (by rw [he]; rfl), fun s hs => ?_⟩
    obtain ⟨s', hs', hne'⟩ := hall (.string s) (List.mem_map_of_mem hs)
    cases hs'
    exact hne'
  · rintro ⟨texts, rfl, hne, hall⟩
    refine ⟨_, rfl, fun he => hne (List.map_eq_nil_iff.mp he), fun item hitem => ?_⟩
    obtain ⟨s, hs, rfl⟩ := List.mem_map.mp hitem
    exact ⟨s, rfl, hall s hs⟩

def envTable (pairs : List (String × String)) : Value :=
  .table (pairs.map fun pair => (pair.1, .string pair.2))

theorem parseStringMap_ok {v : Value} {field : String} {env : List (String × String)} :
    parseStringMap v field = .ok env ↔ ∃ pairs, v = envTable pairs ∧ env = toOrderedMap pairs := by
  cases v with
  | table entries =>
      rw [parseStringMap, bind_eq_ok]
      refine exists_congr fun pairs => and_congr ?_ ?_
      · rw [collect_eq_ok_of_inverse (g := fun pair : String × String => (pair.1, Value.string pair.2))
          (Q := fun _ => True), envTable, Value.table.injEq]
        · simp
        · rintro ⟨key, value⟩ ⟨key', s⟩
          cases value <;> simp
      · rw [Except.ok.injEq, eq_comm]
  | _ => simp [parseStringMap, envTable]

theorem isEnv_iff {v : Value} : IsEnv v ↔ ∃ pairs, v = envTable pairs := by
  constructor
  · rintro ⟨entries, rfl, hall⟩
    obtain ⟨pairs, rfl⟩ : entries ∈ Set.range
        (List.map fun pair : String × String => (pair.1, Value.string pair.2)) := by
      rw [Set.range_list_map]
      intro entry hentry
      obtain ⟨s, hs⟩ := hall entry hentry
      exact ⟨(entry.1, s), Prod.ext rfl hs.symm⟩
    exact ⟨pairs, rfl⟩
  · rintro ⟨pairs, rfl⟩
    refine ⟨_, rfl, fun entry hentry => ?_⟩
    obtain ⟨pair, _, rfl⟩ := List.mem_map.mp hentry
    exact ⟨pair.2, rfl⟩

def targetKey : RouteTarget → String
  | .port .. => "target_port"
  | .portEnv .. => "target_port_env"
  | .socket _ => "target_socket"
  | .socketEnv _ => "target_socket_env"

def targetValue : RouteTarget → Value
  | .port _ port => .integer port.number
  | .portEnv _ var => .string var
  | .socket path => .string path
  | .socketEnv var => .string var

def targetHost : RouteTarget → Option String
  | .port host _ => some host
  | .portEnv host _ => some host
  | .socket _ => none
  | .socketEnv _ => none

/-- The target host of a table gives the host of a target. -/
def HostReads (v : Option Value) : Option String → Prop
  | none => v = none
  | some host => host ∈ allowedTargetHosts ∧ v.getD (.string defaultTargetHost) = .string host

/-- A table gives a target: it has the target's key alone of the four. -/
structure TargetReads (t : Table) (target : RouteTarget) : Prop where
  selected : ∀ key ∈ targetKeys,
    getKey t key = if key = targetKey target then some (targetValue target) else none
  nonempty : targetValue target ≠ .string ""
  host : HostReads (getKey t "target_host") (targetHost target)

theorem targetKey_mem (target : RouteTarget) : targetKey target ∈ targetKeys := by
  cases target <;> simp [targetKey, targetKeys]

theorem parseTargetHost_ok {t : Table} {pre host : String} :
    parseTargetHost t pre = .ok host ↔ HostReads (getKey t "target_host") (some host) := by
  rw [parseTargetHost, HostReads]
  split
  · rename_i hkey
    rw [hkey, Option.getD_none, Except.ok.injEq, Value.string.injEq]
    constructor
    · rintro rfl
      exact ⟨by decide, rfl⟩
    · exact And.right
  · rename_i host' hkey
    rw [hkey, Option.getD_some, Value.string.injEq]
    constructor
    · intro h
      split at h
      · rename_i hallowed
        cases h
        exact ⟨List.contains_iff_mem.mp hallowed, rfl⟩
      · cases h
    · rintro ⟨hallowed, rfl⟩
      rw [if_pos (List.contains_iff_mem.mpr hallowed)]
  · rename_i other hnot hkey
    rw [hkey, Option.getD_some]
    constructor
    · rintro ⟨⟩
    · rintro ⟨_, hv⟩
      exact absurd hv (hnot host)

/-- One target key is selected when the table has it and none of the others. -/
theorem filter_eq_singleton {α : Type} [DecidableEq α] {p : α → Bool} {l : List α} {a : α} (hl : l.Nodup) :
    l.filter p = [a] ↔ a ∈ l ∧ ∀ b ∈ l, p b = true ↔ b = a := by
  constructor
  · intro h
    have hmem : ∀ b, b ∈ l ∧ p b = true ↔ b = a := fun b => by
      rw [← List.mem_filter, h, List.mem_singleton]
    refine ⟨((hmem a).mpr rfl).1, fun b hb => ?_⟩
    rw [← hmem b]
    exact ⟨fun hp => ⟨hb, hp⟩, And.right⟩
  · rintro ⟨ha, hp⟩
    have hfilter : l.filter p = l.filter (· == a) := by
      refine List.filter_congr fun b hb => ?_
      rw [Bool.eq_iff_iff, hp b hb, beq_iff_eq]
    rw [hfilter, List.filter_beq, List.count_eq_one_of_mem hl ha, List.replicate_one]

theorem containsKey_eq_false {t : Table} {key : String} : containsKey t key = false ↔ getKey t key = none := by
  rw [← Bool.not_eq_true, containsKey_iff, Present, Bool.not_eq_true, Option.isSome_eq_false_iff,
    Option.isNone_iff_eq_none]

theorem parseSocketTarget_ok {t : Table} {pre selected : String} {v : Value} {target : RouteTarget}
    (hport : selected ≠ "target_port") (henv : selected ≠ "target_port_env") :
    parseRouteTarget t pre selected v = .ok target ↔ ∃ path, v = .string path ∧ path ≠ "" ∧
      getKey t "target_host" = none ∧
      target = if selected = "target_socket" then .socket path else .socketEnv path := by
  rw [parseRouteTarget, if_neg hport, if_neg henv, bind_eq_ok]
  constructor
  · rintro ⟨_, hcheck, h⟩
    obtain ⟨path, hpath, h⟩ := bind_eq_ok.mp h
    obtain ⟨hv, hne⟩ := parseNonEmptyString_ok.mp hpath
    rw [check_eq_ok, Bool.not_eq_true', containsKey_eq_false] at hcheck
    exact ⟨path, hv, hne, hcheck, (Except.ok.inj h).symm⟩
  · rintro ⟨path, hv, hne, hhost, rfl⟩
    refine ⟨(), ?_, bind_eq_ok.mpr ⟨path, parseNonEmptyString_ok.mpr ⟨hv, hne⟩, rfl⟩⟩
    rw [check_eq_ok, Bool.not_eq_true', containsKey_eq_false]
    exact hhost

theorem parseRouteTarget_ok {t : Table} {pre selected : String} {v : Value} {target : RouteTarget}
    (hselected : selected ∈ targetKeys) :
    parseRouteTarget t pre selected v = .ok target ↔ selected = targetKey target ∧
      v = targetValue target ∧ targetValue target ≠ .string "" ∧
      HostReads (getKey t "target_host") (targetHost target) := by
  simp only [targetKeys, List.mem_cons, List.not_mem_nil, or_false] at hselected
  rcases hselected with rfl | rfl | rfl | rfl
  · rw [parseRouteTarget, if_pos rfl, bind_eq_ok]
    constructor
    · rintro ⟨host, hhost, h⟩
      obtain ⟨port, hport, h⟩ := bind_eq_ok.mp h
      cases h
      exact ⟨rfl, parsePort_ok.mp hport, Value.noConfusion, parseTargetHost_ok.mp hhost⟩
    · rintro ⟨hkey, hv, _, hhost⟩
      cases target with
      | port host port =>
          exact ⟨host, parseTargetHost_ok.mpr hhost, bind_eq_ok.mpr ⟨port, parsePort_ok.mpr hv, rfl⟩⟩
      | _ => exact absurd hkey (by simp [targetKey])
  · rw [parseRouteTarget, if_neg (by decide), if_pos rfl, bind_eq_ok]
    constructor
    · rintro ⟨host, hhost, h⟩
      obtain ⟨var, hvar, h⟩ := bind_eq_ok.mp h
      obtain ⟨hv, hne⟩ := parseNonEmptyString_ok.mp hvar
      cases h
      exact ⟨rfl, hv, fun he => hne (Value.string.inj he), parseTargetHost_ok.mp hhost⟩
    · rintro ⟨hkey, hv, hne, hhost⟩
      cases target with
      | portEnv host var =>
          refine ⟨host, parseTargetHost_ok.mpr hhost, bind_eq_ok.mpr ⟨var, ?_, rfl⟩⟩
          exact parseNonEmptyString_ok.mpr ⟨hv, fun he => hne (congrArg Value.string he)⟩
      | _ => exact absurd hkey (by simp [targetKey])
  · simp only [parseSocketTarget_ok, ne_eq, String.reduceEq, not_false_eq_true, reduceIte]
    constructor
    · rintro ⟨path, hv, hne, hhost, rfl⟩
      exact ⟨rfl, hv, fun he => hne (Value.string.inj he), hhost⟩
    · rintro ⟨hkey, hv, hne, hhost⟩
      cases target with
      | socket path => exact ⟨path, hv, fun he => hne (congrArg Value.string he), hhost, rfl⟩
      | _ => exact absurd hkey (by simp [targetKey])
  · simp only [parseSocketTarget_ok, ne_eq, String.reduceEq, not_false_eq_true, reduceIte]
    constructor
    · rintro ⟨var, hv, hne, hhost, rfl⟩
      exact ⟨rfl, hv, fun he => hne (Value.string.inj he), hhost⟩
    · rintro ⟨hkey, hv, hne, hhost⟩
      cases target with
      | socketEnv var => exact ⟨var, hv, fun he => hne (congrArg Value.string he), hhost, rfl⟩
      | _ => exact absurd hkey (by simp [targetKey])

structure RouteReads (t : Table) (route : ServiceRoute) : Prop where
  known : OnlyKeys routeKeys t
  id : getKey t "id" = some (.string route.id)
  idNonempty : route.id ≠ ""
  hosts : getKey t "hosts" = some (textList route.hosts)
  hostsNonempty : route.hosts ≠ [] ∧ ∀ host ∈ route.hosts, host ≠ ""
  target : TargetReads t route.target

theorem parseRouteId_ok {t : Table} {pre id : String} :
    parseRouteId t pre = .ok id ↔ getKey t "id" = some (.string id) ∧ id ≠ "" := by
  rw [parseRouteId]
  split
  · rename_i s hkey
    rw [hkey, nonEmpty_ok, Option.some.injEq, Value.string.injEq]
  · rename_i hnot
    constructor
    · rintro ⟨⟩
    · rintro ⟨hkey, _⟩
      exact absurd hkey (hnot id)

theorem getD_eq_textList {v : Option Value} {texts : List String} (hne : texts ≠ []) :
    v.getD (.array []) = textList texts ↔ v = some (textList texts) := by
  cases v with
  | none =>
      constructor
      · intro h
        exact absurd (List.map_eq_nil_iff.mp (Value.array.inj h).symm) hne
      · rintro ⟨⟩
  | some v => rw [Option.getD_some, Option.some.injEq]

/-- The target of a table is the one whose key it has. -/
theorem targetReads_iff {t : Table} {pre : String} {target : RouteTarget} :
    TargetReads t target ↔ ∃ selected, targetKeys.filter (fun key => containsKey t key) = [selected] ∧
      parseRouteTarget t pre selected ((getKey t selected).getD (.array [])) = .ok target := by
  constructor
  · rintro ⟨hselected, hne, hhost⟩
    refine ⟨targetKey target, ?_, ?_⟩
    · rw [filter_eq_singleton (by decide)]
      refine ⟨targetKey_mem target, fun key hkey => ?_⟩
      rw [containsKey_iff, Present, hselected key hkey]
      by_cases he : key = targetKey target <;> simp [he]
    · rw [parseRouteTarget_ok (targetKey_mem target), hselected _ (targetKey_mem target), if_pos rfl]
      exact ⟨rfl, rfl, hne, hhost⟩
  · rintro ⟨selected, hfilter, hparse⟩
    obtain ⟨hmem, hothers⟩ := (filter_eq_singleton (by decide)).mp hfilter
    obtain ⟨rfl, hv, hne, hhost⟩ := (parseRouteTarget_ok hmem).mp hparse
    refine ⟨fun key hkey => ?_, hne, hhost⟩
    by_cases he : key = targetKey target
    · subst he
      obtain ⟨v, hsome⟩ := Option.isSome_iff_exists.mp (containsKey_iff.mp ((hothers _ hkey).mpr rfl))
      rw [hsome, Option.getD_some] at hv
      rw [if_pos rfl, hsome, hv]
    · rw [if_neg he, ← containsKey_eq_false, Bool.eq_false_iff]
      exact fun hc => he ((hothers key hkey).mp hc)

theorem parseRoute_ok {v : Value} {pre : String} {route : ServiceRoute} :
    parseRoute v pre = .ok route ↔ ∃ t, v = .table t ∧ RouteReads t route := by
  cases v with
  | table t =>
      rw [parseRoute, bind_eq_ok]
      constructor
      · rintro ⟨_, hknown, h⟩
        obtain ⟨id, hid, h⟩ := bind_eq_ok.mp h
        obtain ⟨hosts, hhosts, h⟩ := bind_eq_ok.mp h
        obtain ⟨hv, hne, hall⟩ := parseStringList_ok.mp hhosts
        obtain ⟨hid, hidne⟩ := parseRouteId_ok.mp hid
        split at h
        · rename_i selected hfilter
          obtain ⟨target, htarget, h⟩ := bind_eq_ok.mp h
          cases h
          exact ⟨t, rfl, rejectUnknownKeys_ok.mp hknown, hid, hidne, (getD_eq_textList hne).mp hv,
            ⟨hne, hall⟩, targetReads_iff.mpr ⟨selected, hfilter, htarget⟩⟩
        · cases h
      · rintro ⟨_, ⟨⟩, h⟩
        obtain ⟨selected, hfilter, htarget⟩ := targetReads_iff.mp h.target
        refine ⟨(), rejectUnknownKeys_ok.mpr h.known, bind_eq_ok.mpr ⟨route.id, ?_, ?_⟩⟩
        · exact parseRouteId_ok.mpr ⟨h.id, h.idNonempty⟩
        refine bind_eq_ok.mpr ⟨route.hosts, ?_, ?_⟩
        · exact parseStringList_ok.mpr ⟨(getD_eq_textList h.hostsNonempty.1).mpr h.hosts, h.hostsNonempty⟩
        rw [hfilter]
        exact bind_eq_ok.mpr ⟨route.target, htarget, rfl⟩
  | _ => simp [parseRoute]

structure ServiceReads (name : String) (t : Table) (service : ServiceDef) : Prop where
  named : service.name = name
  wellFormed : validName name = true
  unreserved : name ∉ reservedServiceNames
  known : OnlyKeys serviceKeys t
  command : getKey t "command" = service.command.map textList
  commandNonempty : ∀ args, service.command = some args → args ≠ [] ∧ ∀ arg ∈ args, arg ≠ ""
  env : ∃ pairs, (getKey t "env").getD (.table []) = envTable pairs ∧ service.env = toOrderedMap pairs
  disabled : (getKey t "disabled").getD (.boolean false) = .boolean service.disabled
  autoStart : (getKey t "auto_start").getD (.boolean true) = .boolean service.autoStart
  startable : Present t "auto_start" → service.command ≠ none
  routes : ∃ routes, (getKey t "routes").getD (.array []) = .array (routes.map .table) ∧
    List.Forall₂ RouteReads routes service.routes

theorem parseCommand_ok {t : Table} {pre : String} {command : Option (List String)} :
    parseCommand t pre = .ok command ↔ getKey t "command" = command.map textList ∧
      ∀ args, command = some args → args ≠ [] ∧ ∀ arg ∈ args, arg ≠ "" := by
  rw [parseCommand]
  cases getKey t "command" with
  | none => cases command <;> simp
  | some v =>
      cases command with
      | none =>
          simp only [Option.map_none, reduceCtorEq, false_and, iff_false]
          cases parseStringList v (pre ++ ".command") <;> simp [Except.map]
      | some args =>
          have hmap : ((parseStringList v (pre ++ ".command")).map some : Except ConfigError _) =
              .ok (some args) ↔ parseStringList v (pre ++ ".command") = .ok args := by
            cases parseStringList v (pre ++ ".command") <;> simp [Except.map]
          simp only [hmap, parseStringList_ok, Option.map_some, Option.some.injEq, forall_eq']

theorem parseEnv_ok {t : Table} {pre : String} {env : List (String × String)} :
    parseEnv t pre = .ok env ↔
      ∃ pairs, (getKey t "env").getD (.table []) = envTable pairs ∧ env = toOrderedMap pairs := by
  rw [parseEnv]
  cases getKey t "env" with
  | some v => exact parseStringMap_ok
  | none =>
      constructor
      · rintro ⟨⟩
        exact ⟨[], rfl, rfl⟩
      · rintro ⟨pairs, htable, rfl⟩
        rw [List.map_eq_nil_iff.mp (Value.table.inj htable).symm]
        rfl

theorem forall₂_zipIdx {α β : Type} {R : α → β → Prop} {as : List α} {bs : List β} :
    List.Forall₂ (fun a b => R a.1 b) as.zipIdx bs ↔ List.Forall₂ R as bs := by
  conv_rhs => rw [← List.zipIdx_map_fst 0 as]
  rw [List.forall₂_map_left_iff]

theorem parseRoutes_ok {t : Table} {pre : String} {routes : List ServiceRoute} :
    parseRoutes t pre = .ok routes ↔ ∃ tables, (getKey t "routes").getD (.array []) =
      .array (tables.map .table) ∧ List.Forall₂ RouteReads tables routes := by
  rw [parseRoutes]
  split
  · rename_i hkey
    rw [hkey, Option.getD_none]
    constructor
    · rintro ⟨⟩
      exact ⟨[], rfl, .nil⟩
    · rintro ⟨tables, htables, hall⟩
      rw [List.map_eq_nil_iff.mp (Value.array.inj htables).symm, List.forall₂_nil_left_iff] at hall
      rw [hall]
  · rename_i items hkey
    simp only [hkey, Option.getD_some, Value.array.injEq, collect_eq_ok, parseRoute_ok]
    rw [forall₂_zipIdx (R := fun v route => ∃ t, v = Value.table t ∧ RouteReads t route),
      forall₂_exists_map]
  · rename_i other hnot hkey
    rw [hkey, Option.getD_some]
    constructor
    · rintro ⟨⟩
    · rintro ⟨tables, rfl, _⟩
      exact absurd rfl (hnot _)

theorem parseService_ok {name : String} {v : Value} {service : ServiceDef} :
    parseService name v = .ok service ↔ ∃ t, v = .table t ∧ ServiceReads name t service := by
  rw [parseService, bind_eq_ok]
  constructor
  · rintro ⟨_, hname, h⟩
    obtain ⟨_, hreserved, h⟩ := bind_eq_ok.mp h
    rw [check_eq_ok] at hname hreserved
    cases v with
    | table t =>
        obtain ⟨_, hknown, h⟩ := bind_eq_ok.mp h
        obtain ⟨command, hcommand, h⟩ := bind_eq_ok.mp h
        obtain ⟨env, henv, h⟩ := bind_eq_ok.mp h
        obtain ⟨disabled, hdisabled, h⟩ := bind_eq_ok.mp h
        obtain ⟨autoStart, hauto, h⟩ := bind_eq_ok.mp h
        obtain ⟨_, hstart, h⟩ := bind_eq_ok.mp h
        obtain ⟨routes, hroutes, h⟩ := bind_eq_ok.mp h
        cases h
        obtain ⟨hcommand, hargs⟩ := parseCommand_ok.mp hcommand
        refine ⟨t, rfl, rfl, hname, ?_, rejectUnknownKeys_ok.mp hknown, hcommand, hargs,
          parseEnv_ok.mp henv, parseBool_ok.mp hdisabled, parseBool_ok.mp hauto, ?_,
          parseRoutes_ok.mp hroutes⟩
        · simpa using hreserved
        · rw [check_eq_ok] at hstart
          intro hpresent (hnone : command = none)
          rw [containsKey_iff.mpr hpresent, hnone] at hstart
          cases hstart
    | _ => cases h
  · rintro ⟨t, rfl, h⟩
    obtain ⟨_, command, env, routes, disabled, autoStart⟩ := service
    obtain ⟨rfl, hname, hreserved, hknown, hcommand, hargs, henv, hdisabled, hauto, hstart, hroutes⟩ := h
    refine ⟨(), check_eq_ok.mpr hname, bind_eq_ok.mpr ⟨(), check_eq_ok.mpr ?_, ?_⟩⟩
    · simpa using hreserved
    refine bind_eq_ok.mpr ⟨(), rejectUnknownKeys_ok.mpr hknown, ?_⟩
    refine bind_eq_ok.mpr ⟨command, parseCommand_ok.mpr ⟨hcommand, hargs⟩, ?_⟩
    refine bind_eq_ok.mpr ⟨env, parseEnv_ok.mpr henv, ?_⟩
    refine bind_eq_ok.mpr ⟨disabled, parseBool_ok.mpr hdisabled, ?_⟩
    refine bind_eq_ok.mpr ⟨autoStart, parseBool_ok.mpr hauto, ?_⟩
    refine bind_eq_ok.mpr ⟨(), check_eq_ok.mpr ?_, ?_⟩
    · cases command with
      | some args => simp
      | none =>
          have hnone : containsKey t "auto_start" = false := by
            rw [Bool.eq_false_iff]
            exact fun hc => hstart (containsKey_iff.mp hc) rfl
          rw [hnone]
          rfl
    exact bind_eq_ok.mpr ⟨routes, parseRoutes_ok.mpr hroutes, rfl⟩

def servicesTable (services : List (String × Table)) : Value :=
  .table (services.map fun service => (service.1, .table service.2))

structure ManifestReads (t : Table) (manifest : Manifest) : Prop where
  known : OnlyKeys topLevelKeys t
  httpPort : getKey t "http_port" = some (.integer manifest.httpPort.number)
  bind : getKey t "bind" = some (textList manifest.bind)
  bindNonempty : manifest.bind ≠ [] ∧ ∀ address ∈ manifest.bind, address ≠ ""
  services : ∃ services, getKey t "services" = some (servicesTable services) ∧ services ≠ [] ∧
    List.Forall₂ (fun entry service => ServiceReads entry.1 entry.2 service) services manifest.services

theorem parseServices_ok {t : Table} {services : List ServiceDef} :
    parseServices t = .ok services ↔ ∃ tables, getKey t "services" = some (servicesTable tables) ∧
      tables ≠ [] ∧
      List.Forall₂ (fun entry service => ServiceReads entry.1 entry.2 service) tables services := by
  have hreads : ∀ (entry : String × Value) (service : ServiceDef),
      parseService entry.1 entry.2 = .ok service ↔ ∃ named : String × Table,
        entry = (named.1, .table named.2) ∧ ServiceReads named.1 named.2 service := by
    intro entry service
    rw [parseService_ok]
    constructor
    · rintro ⟨service, hv, h⟩
      exact ⟨(entry.1, service), Prod.ext rfl hv, h⟩
    · rintro ⟨named, rfl, h⟩
      exact ⟨named.2, rfl, h⟩
  rw [parseServices]
  split
  · rename_i hkey
    rw [hkey]
    constructor
    · rintro ⟨⟩
    · rintro ⟨tables, htables, hne, _⟩
      rw [Option.some.injEq, servicesTable, Value.table.injEq] at htables
      exact absurd (List.map_eq_nil_iff.mp htables.symm) hne
  · rename_i entries hne hkey
    simp only [hkey, servicesTable, Option.some.injEq, Value.table.injEq, collect_eq_ok_of_reads hreads]
    constructor
    · rintro ⟨tables, rfl, hall⟩
      refine ⟨tables, rfl, ?_, hall⟩
      rintro rfl
      exact hne rfl
    · rintro ⟨tables, rfl, _, hall⟩
      exact ⟨tables, rfl, hall⟩
  · rename_i hnil hnot
    constructor
    · rintro ⟨⟩
    · rintro ⟨tables, htables, _⟩
      exact absurd htables (hnot _)

theorem require_ok {v : Option Value} {message : String} {w : Value} :
    require v message = .ok w ↔ v = some w := by
  cases v <;> simp [require]

/-- The manifest that a table is read as. -/
theorem buildManifest_ok {t : Table} {manifest : Manifest} :
    buildManifest t = .ok manifest ↔ ManifestReads t manifest := by
  rw [buildManifest, bind_eq_ok]
  constructor
  · rintro ⟨_, hknown, h⟩
    obtain ⟨portValue, hport, h⟩ := bind_eq_ok.mp h
    obtain ⟨bindValue, hbind, h⟩ := bind_eq_ok.mp h
    obtain ⟨port, hparsePort, h⟩ := bind_eq_ok.mp h
    obtain ⟨bind, hparseBind, h⟩ := bind_eq_ok.mp h
    obtain ⟨services, hservices, h⟩ := bind_eq_ok.mp h
    cases h
    obtain rfl := parsePort_ok.mp hparsePort
    obtain ⟨rfl, hne⟩ := parseStringList_ok.mp hparseBind
    exact ⟨rejectUnknownKeys_ok.mp hknown, require_ok.mp hport, require_ok.mp hbind, hne,
      parseServices_ok.mp hservices⟩
  · intro h
    refine ⟨(), rejectUnknownKeys_ok.mpr h.known, ?_⟩
    refine bind_eq_ok.mpr ⟨_, require_ok.mpr h.httpPort, ?_⟩
    refine bind_eq_ok.mpr ⟨_, require_ok.mpr h.bind, ?_⟩
    refine bind_eq_ok.mpr ⟨manifest.httpPort, parsePort_ok.mpr rfl, ?_⟩
    refine bind_eq_ok.mpr ⟨manifest.bind, parseStringList_ok.mpr ⟨rfl, h.bindNonempty⟩, ?_⟩
    exact bind_eq_ok.mpr ⟨manifest.services, parseServices_ok.mpr h.services, rfl⟩

theorem isPort_iff {v : Value} : IsPort v ↔ ∃ port : Port, v = .integer port.number := by
  constructor
  · rintro ⟨n, rfl, hlow, hhigh⟩
    refine ⟨⟨n.toNat, by omega⟩, ?_⟩
    rw [Int.toNat_of_nonneg (by omega)]
  · rintro ⟨port, rfl⟩
    have hrange := port.inRange
    exact ⟨port.number, rfl, by omega, by omega⟩

theorem exists_hostReads {t : Table}
    (h : Optional t "target_host" fun v => ∃ host ∈ allowedTargetHosts, v = .string host) :
    ∃ host, HostReads (getKey t "target_host") (some host) := by
  cases hkey : getKey t "target_host" with
  | none => exact ⟨defaultTargetHost, by decide, rfl⟩
  | some v =>
      obtain ⟨host, hallowed, rfl⟩ := h v hkey
      exact ⟨host, hallowed, rfl⟩

theorem exists_targetReads {t : Table} (h : RouteSchema t) : ∃ target, TargetReads t target := by
  obtain ⟨key, hkey, hpresent, honly⟩ := h.target
  obtain ⟨v, hv⟩ := Option.isSome_iff_exists.mp hpresent
  have hlookup : ∀ other ∈ targetKeys, getKey t other = if other = key then some v else none := by
    intro other hother
    by_cases he : other = key
    · rw [if_pos he, he, hv]
    · rw [if_neg he, ← Option.isNone_iff_eq_none, Option.isNone_iff_eq_none]
      by_contra hne
      exact he (honly other hother (Option.isSome_iff_ne_none.mpr hne))
  have hallowed : ∃ host, HostReads (getKey t "target_host") (some host) :=
    exists_hostReads fun w hw => (h.targetHost w hw).1
  -- a target host would need one of the two other keys
  have hnoHost : key ≠ "target_port" → key ≠ "target_port_env" → getKey t "target_host" = none := by
    intro hport henv
    by_contra hne
    obtain ⟨w, hw⟩ := Option.ne_none_iff_exists'.mp hne
    rcases (h.targetHost w hw).2 with hp | hp
    · exact hport (honly _ (by decide) hp).symm
    · exact henv (honly _ (by decide) hp).symm
  simp only [targetKeys, List.mem_cons, List.not_mem_nil, or_false] at hkey
  rcases hkey with rfl | rfl | rfl | rfl
  · obtain ⟨port, rfl⟩ := isPort_iff.mp (h.port v hv)
    obtain ⟨host, hhost⟩ := hallowed
    exact ⟨.port host port, hlookup, Value.noConfusion, hhost⟩
  · obtain ⟨var, rfl, hne⟩ := h.portEnv v hv
    obtain ⟨host, hhost⟩ := hallowed
    exact ⟨.portEnv host var, hlookup, fun he => hne (Value.string.inj he), hhost⟩
  · obtain ⟨path, rfl, hne⟩ := h.socket v hv
    exact ⟨.socket path, hlookup, fun he => hne (Value.string.inj he), hnoHost (by decide) (by decide)⟩
  · obtain ⟨var, rfl, hne⟩ := h.socketEnv v hv
    exact ⟨.socketEnv var, hlookup, fun he => hne (Value.string.inj he), hnoHost (by decide) (by decide)⟩

theorem TargetReads.key_eq {t : Table} {target : RouteTarget} {key : String} {v : Value}
    (h : TargetReads t target) (hkey : key ∈ targetKeys) (hv : getKey t key = some v) :
    key = targetKey target ∧ v = targetValue target := by
  have hselected := h.selected key hkey
  rw [hv] at hselected
  split at hselected
  · rename_i he
    exact ⟨he, Option.some.inj hselected⟩
  · cases hselected

theorem routeSchema_iff {t : Table} : RouteSchema t ↔ ∃ route, RouteReads t route := by
  constructor
  · intro h
    obtain ⟨v, hid, s, rfl, hne⟩ := h.id
    obtain ⟨w, hhosts, htexts⟩ := h.hosts
    obtain ⟨texts, rfl, hall⟩ := isTextList_iff.mp htexts
    obtain ⟨target, htarget⟩ := exists_targetReads h
    exact ⟨⟨s, texts, target⟩, h.known, hid, hne, hhosts, hall, htarget⟩
  · rintro ⟨⟨id, hosts, target⟩, hknown, hid, hne, hhosts, hall, h⟩
    have hpresent : Present t (targetKey target) := by
      rw [Present, h.selected _ (targetKey_mem target), if_pos rfl]
      rfl
    refine ⟨hknown, ⟨_, hid, _, rfl, hne⟩, ⟨_, hhosts, isTextList_iff.mpr ⟨_, rfl, hall⟩⟩,
      ⟨targetKey target, targetKey_mem target, hpresent, fun other hother hp => ?_⟩, ?_, ?_, ?_, ?_, ?_⟩
    · obtain ⟨v, hv⟩ := Option.isSome_iff_exists.mp hp
      exact (h.key_eq hother hv).1
    all_goals intro v hv
    · obtain ⟨hkey, rfl⟩ := h.key_eq (by decide) hv
      cases target with
      | port host port => exact isPort_iff.mpr ⟨port, rfl⟩
      | _ => exact absurd hkey (by simp [targetKey])
    · obtain ⟨hkey, rfl⟩ := h.key_eq (by decide) hv
      cases target with
      | portEnv host var => exact ⟨var, rfl, fun he => h.nonempty (congrArg Value.string he)⟩
      | _ => exact absurd hkey (by simp [targetKey])
    · obtain ⟨hkey, rfl⟩ := h.key_eq (by decide) hv
      cases target with
      | socket path => exact ⟨path, rfl, fun he => h.nonempty (congrArg Value.string he)⟩
      | _ => exact absurd hkey (by simp [targetKey])
    · obtain ⟨hkey, rfl⟩ := h.key_eq (by decide) hv
      cases target with
      | socketEnv var => exact ⟨var, rfl, fun he => h.nonempty (congrArg Value.string he)⟩
      | _ => exact absurd hkey (by simp [targetKey])
    · have hhost := h.host
      rw [hv] at hhost
      cases target with
      | port host port => exact ⟨⟨host, hhost.1, hhost.2⟩, .inl hpresent⟩
      | portEnv host var => exact ⟨⟨host, hhost.1, hhost.2⟩, .inr hpresent⟩
      | _ => cases hhost

theorem validName_iff {name : String} : validName name = true ↔ name ≠ "" ∧
    ∀ c ∈ name.toList, isAsciiAlphanumeric c = true ∨ c = '_' ∨ c = '-' := by
  simp [validName, or_assoc]

theorem exists_getD {t : Table} {key : String} {P : Value → Prop} {default : Value}
    (h : Optional t key P) (hdefault : P default) : P ((getKey t key).getD default) := by
  cases hkey : getKey t key with
  | none => exact hdefault
  | some v => exact h v hkey

theorem serviceSchema_iff {name : String} {t : Table} :
    ServiceSchema name t ↔ ∃ service, ServiceReads name t service := by
  constructor
  · intro h
    have hcommand : ∃ command : Option (List String), getKey t "command" = command.map textList ∧
        ∀ args, command = some args → args ≠ [] ∧ ∀ arg ∈ args, arg ≠ "" := by
      cases hkey : getKey t "command" with
      | none => exact ⟨none, rfl, fun _ he => by cases he⟩
      | some v =>
          obtain ⟨args, rfl, hargs⟩ := isTextList_iff.mp (h.command v hkey)
          refine ⟨some args, rfl, fun _ he => ?_⟩
          cases he
          exact hargs
    obtain ⟨command, hkey, hargs⟩ := hcommand
    obtain ⟨pairs, hpairs⟩ := isEnv_iff.mp (exists_getD h.env (isEnv_iff.mpr ⟨[], rfl⟩))
    obtain ⟨disabled, hdisabled⟩ := exists_getD h.disabled ⟨false, rfl⟩
    obtain ⟨autoStart, hauto⟩ := exists_getD h.autoStart ⟨true, rfl⟩
    have hnone : ∀ item ∈ ([] : List Value), ∃ r, item = .table r ∧ RouteSchema r :=
      fun _ hitem => absurd hitem List.not_mem_nil
    obtain ⟨items, hitems, hschema⟩ := exists_getD h.routes ⟨[], rfl, hnone⟩
    obtain ⟨routes, hall⟩ : ∃ routes, List.Forall₂ (fun v route => ∃ r, v = Value.table r ∧
        RouteReads r route) items routes := by
      rw [exists_forall₂]
      intro item hitem
      obtain ⟨r, rfl, hr⟩ := hschema item hitem
      obtain ⟨route, hroute⟩ := routeSchema_iff.mp hr
      exact ⟨route, r, rfl, hroute⟩
    obtain ⟨tables, rfl, hroutes⟩ := forall₂_exists_map.mp hall
    refine ⟨⟨name, command, toOrderedMap pairs, routes, disabled, autoStart⟩, rfl,
      validName_iff.mpr ⟨h.nonempty, h.wellFormed⟩, h.unreserved, h.known, hkey, hargs,
      ⟨pairs, hpairs, rfl⟩, hdisabled, hauto, ?_, ⟨tables, hitems, hroutes⟩⟩
    rintro hpresent (rfl : command = none)
    have hstart := h.startable hpresent
    rw [Present, hkey] at hstart
    cases hstart
  · rintro ⟨service, h⟩
    obtain ⟨pairs, hpairs, _⟩ := h.env
    obtain ⟨tables, htables, hroutes⟩ := h.routes
    obtain ⟨hne, hchars⟩ := validName_iff.mp h.wellFormed
    refine ⟨hne, hchars, h.unreserved, h.known, ?_, ?_, ?_, ?_, ?_, ?_⟩
    · intro v hv
      rw [h.command] at hv
      obtain ⟨args, hargs, rfl⟩ := Option.map_eq_some_iff.mp hv
      exact isTextList_iff.mpr ⟨args, rfl, h.commandNonempty args hargs⟩
    · intro v hv
      rw [hv, Option.getD_some] at hpairs
      exact isEnv_iff.mpr ⟨pairs, hpairs⟩
    · intro v hv
      have hdisabled := h.disabled
      rw [hv] at hdisabled
      exact ⟨_, hdisabled⟩
    · intro v hv
      have hauto := h.autoStart
      rw [hv] at hauto
      exact ⟨_, hauto⟩
    · intro hpresent
      rw [Present, h.command, Option.isSome_map]
      exact Option.isSome_iff_ne_none.mpr (h.startable hpresent)
    · intro v hv
      rw [hv, Option.getD_some] at htables
      refine ⟨_, htables, fun item hitem => ?_⟩
      obtain ⟨r, hr, rfl⟩ := List.mem_map.mp hitem
      obtain ⟨route, _, hroute⟩ := exists_of_forall₂ (List.Forall₂.flip hroutes) r hr
      exact ⟨r, rfl, routeSchema_iff.mpr ⟨route, hroute⟩⟩

theorem manifestSchema_iff {t : Table} : ManifestSchema t ↔ ∃ manifest, ManifestReads t manifest := by
  constructor
  · intro h
    obtain ⟨v, hport, hv⟩ := h.httpPort
    obtain ⟨port, rfl⟩ := isPort_iff.mp hv
    obtain ⟨w, hbind, hw⟩ := h.bind
    obtain ⟨bind, rfl, hall⟩ := isTextList_iff.mp hw
    obtain ⟨_, hservices, entries, rfl, hne, hentries⟩ := h.services
    obtain ⟨services, hmapped⟩ : ∃ services, List.Forall₂ (fun (entry : String × Value) service =>
        ∃ named : String × Table, entry = (named.1, .table named.2) ∧ ServiceReads named.1 named.2 service)
          entries services := by
      rw [exists_forall₂]
      intro entry hentry
      obtain ⟨t, ht, hschema⟩ := hentries entry hentry
      obtain ⟨service, hservice⟩ := serviceSchema_iff.mp hschema
      exact ⟨service, (entry.1, t), Prod.ext rfl ht, hservice⟩
    obtain ⟨tables, rfl, hreads⟩ := forall₂_exists_map.mp hmapped
    refine ⟨⟨port, bind, services⟩, h.known, hport, hbind, hall, ⟨tables, hservices, ?_, hreads⟩⟩
    rintro rfl
    exact hne rfl
  · rintro ⟨manifest, h⟩
    obtain ⟨tables, htables, hne, hreads⟩ := h.services
    refine ⟨h.known, ⟨_, h.httpPort, isPort_iff.mpr ⟨_, rfl⟩⟩,
      ⟨_, h.bind, isTextList_iff.mpr ⟨_, rfl, h.bindNonempty⟩⟩, ⟨_, htables, _, rfl, ?_, ?_⟩⟩
    · exact fun he => hne (List.map_eq_nil_iff.mp he)
    · intro entry hentry
      obtain ⟨named, hnamed, rfl⟩ := List.mem_map.mp hentry
      obtain ⟨service, _, hservice⟩ := exists_of_forall₂ (List.Forall₂.flip hreads) named hnamed
      exact ⟨named.2, rfl, serviceSchema_iff.mpr ⟨service, hservice⟩⟩

/-- The parser accepts exactly the tables of the schema. -/
theorem buildManifest_accepts {t : Table} : (∃ manifest, buildManifest t = .ok manifest) ↔ ManifestSchema t := by
  simp only [buildManifest_ok, manifestSchema_iff]

end LocalDevProxy.Schema
