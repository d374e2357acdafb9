import LocalDevProxy.Schema
import Mathlib.Data.List.Induction
import Mathlib.Data.List.Perm.Basic
import Mathlib.Data.String.Basic

namespace LocalDevProxy.Lossless

open Lib.Fallible Toml Config Schema

/-- Equal up to the order of the keys in every table. -/
inductive Same : Value → Value → Prop
  | refl (v : Value) : Same v v
  | array {items items' : List Value} (h : List.Forall₂ Same items items') :
      Same (.array items) (.array items')
  | table {t t' : Table} (h : ∀ key, Option.Rel Same (getKey t key) (getKey t' key)) :
      Same (.table t) (.table t')

/-- Equal up to the order of the keys below the entries of a table. -/
inductive SameInOrder : Value → Value → Prop
  | refl (v : Value) : SameInOrder v v
  | table {t t' : Table} (h : List.Forall₂ (fun e e' => e.1 = e'.1 ∧ Same e.2 e'.2) t t') :
      SameInOrder (.table t) (.table t')

/-- Equal up to the order of the keys, other than that of the services. -/
structure SameDocument (t t' : Table) : Prop where
  values : ∀ key, key ≠ "services" → Option.Rel Same (getKey t key) (getKey t' key)
  services : Option.Rel SameInOrder (getKey t "services") (getKey t' "services")

def fillKey (t : Table) (key : String) (default : Value) : Table :=
  if containsKey t key then t else t ++ [(key, default)]

def mapKey (t : Table) (key : String) (f : Value → Value) : Table :=
  t.map fun entry => if entry.1 = key then (entry.1, f entry.2) else entry

/-- A route with the host that it has by default, which only a TCP target has. -/
def fillRoute : Value → Value
  | .table t => .table (if containsKey t "target_port" || containsKey t "target_port_env" then
      fillKey t "target_host" (.string defaultTargetHost) else t)
  | v => v

def fillRoutes : Value → Value
  | .array routes => .array (routes.map fillRoute)
  | v => v

def fillOptions (t : Table) : Table :=
  fillKey (fillKey (fillKey (fillKey t "disabled" (.boolean false)) "auto_start" (.boolean true))
    "env" (.table [])) "routes" (.array [])

def fillService : Value → Value
  | .table t => .table (mapKey (fillOptions t) "routes" fillRoutes)
  | v => v

def fillServices : Value → Value
  | .table services => .table (services.map fun entry => (entry.1, fillService entry.2))
  | v => v

def fill (t : Table) : Table := mapKey t "services" fillServices

theorem getKey_fillKey (t : Table) (key : String) (default : Value) (other : String) :
    getKey (fillKey t key default) other =
      if other = key then some ((getKey t key).getD default) else getKey t other := by
  by_cases hcontains : containsKey t key = true
  · obtain ⟨v, hv⟩ := Option.isSome_iff_exists.mp (containsKey_iff.mp hcontains)
    rw [fillKey, if_pos hcontains]
    split
    · rename_i he
      rw [he, hv, Option.getD_some]
    · rfl
  · have hnone := containsKey_eq_false.mp (Bool.eq_false_iff.mpr hcontains)
    rw [fillKey, if_neg hcontains, getKey, List.find?_append]
    split
    · rename_i he
      subst he
      rw [getKey, Option.map_eq_none_iff] at hnone
      rw [getKey, hnone]
      simp
    · rename_i hne
      rw [getKey]
      simp [Ne.symm hne]

theorem getKey_cons (entry : String × Value) (t : Table) (key : String) :
    getKey (entry :: t) key = if entry.1 = key then some entry.2 else getKey t key := by
  rw [getKey, List.find?_cons]
  by_cases he : entry.1 = key <;> simp [he, getKey]

theorem getKey_mapKey (t : Table) (key : String) (f : Value → Value) (other : String) :
    getKey (mapKey t key f) other = if other = key then (getKey t key).map f else getKey t other := by
  induction t with
  | nil => simp [mapKey, getKey]
  | cons entry t ih =>
      rw [mapKey, List.map_cons, getKey_cons, getKey_cons, getKey_cons]
      by_cases hother : other = key
      · subst hother
        rw [if_pos rfl] at ih ⊢
        by_cases he : entry.1 = other
        · simp [he]
        · simp only [he, reduceIte]
          exact ih
      · rw [if_neg hother] at ih ⊢
        by_cases he : entry.1 = key
        · simp only [he, reduceIte, Ne.symm hother]
          exact ih
        · simp only [he, reduceIte]
          by_cases he' : entry.1 = other
          · simp [he']
          · simp only [he', reduceIte]
            exact ih

theorem getKey_eq_some_iff {t : Table} (h : (t.map Prod.fst).Nodup) {key : String} {v : Value} :
    getKey t key = some v ↔ (key, v) ∈ t := by
  induction t with
  | nil => simp [getKey]
  | cons entry t ih =>
      rw [List.map_cons, List.nodup_cons] at h
      rw [getKey_cons, List.mem_cons]
      by_cases he : entry.1 = key
      · subst he
        rw [if_pos rfl, Option.some.injEq]
        constructor
        · rintro rfl
          exact .inl rfl
        · rintro (hpair | hmem)
          · exact congrArg Prod.snd hpair.symm
          · exact absurd (List.mem_map_of_mem hmem) h.1
      · rw [if_neg he, ih h.2]
        constructor
        · exact .inr
        · rintro (hpair | hmem)
          · exact absurd (congrArg Prod.fst hpair).symm he
          · exact hmem

theorem distinctKeys_of_getKey {t : Table} (h : (Value.table t).distinctKeys) {key : String} {v : Value}
    (hv : getKey t key = some v) : v.distinctKeys := by
  rw [getKey_eq_some_iff h.1] at hv
  replace h := h.2
  induction t with
  | nil => cases hv
  | cons entry t ih =>
      rcases List.mem_cons.mp hv with rfl | hv
      · exact h.1
      · exact ih hv h.2

theorem mem_insertSorted {key value : String} {map : List (String × String)} {e : String × String}
    (h : map.Pairwise fun a b => a.1 < b.1) :
    e ∈ insertSorted key value map ↔ e = (key, value) ∨ e ∈ map ∧ e.1 ≠ key := by
  induction map with
  | nil => simp [insertSorted]
  | cons entry rest ih =>
      obtain ⟨k, v⟩ := entry
      obtain ⟨hhead, hrest⟩ := List.pairwise_cons.mp h
      rw [insertSorted]
      split
      · rename_i hlt
        rw [List.mem_cons]
        refine or_congr_right ⟨fun hmem => ⟨hmem, ?_⟩, And.left⟩
        rcases List.mem_cons.mp hmem with rfl | hmem
        · exact hlt.ne'
        · exact (hlt.trans (hhead e hmem)).ne'
      · split
        · rename_i he
          subst he
          rw [List.mem_cons]
          refine or_congr_right ⟨fun hmem => ⟨List.mem_cons_of_mem _ hmem, (hhead e hmem).ne'⟩, ?_⟩
          rintro ⟨hmem, hne⟩
          rcases List.mem_cons.mp hmem with rfl | hmem
          · exact absurd rfl hne
          · exact hmem
        · rename_i hne
          rw [List.mem_cons, List.mem_cons, ih hrest]
          constructor
          · rintro (rfl | rfl | ⟨hmem, hk⟩)
            · exact .inr ⟨.inl rfl, Ne.symm hne⟩
            · exact .inl rfl
            · exact .inr ⟨.inr hmem, hk⟩
          · rintro (rfl | ⟨rfl | hmem, hk⟩)
            · exact .inr (.inl rfl)
            · exact .inl rfl
            · exact .inr (.inr ⟨hmem, hk⟩)

theorem insertSorted_sorted {key value : String} {map : List (String × String)}
    (h : map.Pairwise fun a b => a.1 < b.1) :
    (insertSorted key value map).Pairwise fun a b => a.1 < b.1 := by
  induction map with
  | nil => exact List.pairwise_singleton ..
  | cons entry rest ih =>
      obtain ⟨k, v⟩ := entry
      obtain ⟨hhead, hrest⟩ := List.pairwise_cons.mp h
      rw [insertSorted]
      split
      · rename_i hlt
        refine List.pairwise_cons.mpr ⟨fun e hmem => ?_, h⟩
        rcases List.mem_cons.mp hmem with rfl | hmem
        · exact hlt
        · exact hlt.trans (hhead e hmem)
      · split
        · rename_i he
          subst he
          exact List.pairwise_cons.mpr ⟨hhead, hrest⟩
        · rename_i hlt hne
          refine List.pairwise_cons.mpr ⟨fun e hmem => ?_, ih hrest⟩
          rcases (mem_insertSorted hrest).mp hmem with rfl | ⟨hmem, _⟩
          · exact lt_of_le_of_ne (not_lt.mp hlt) (Ne.symm hne)
          · exact hhead e hmem

/-- The ordered map of pairs has the pairs, where no key is given twice. -/
theorem toOrderedMap_spec {pairs : List (String × String)} (h : (pairs.map Prod.fst).Nodup) :
    ((toOrderedMap pairs).Pairwise fun a b => a.1 < b.1) ∧ ∀ e, e ∈ toOrderedMap pairs ↔ e ∈ pairs := by
  induction pairs using List.reverseRecOn with
  | nil => exact ⟨.nil, fun e => Iff.rfl⟩
  | append_singleton pairs pair ih =>
      rw [List.map_append, List.nodup_append] at h
      obtain ⟨hsorted, hmem⟩ := ih h.1
      rw [toOrderedMap, List.foldl_append, List.foldl_cons, List.foldl_nil, ← toOrderedMap]
      refine ⟨insertSorted_sorted hsorted, fun e => ?_⟩
      rw [mem_insertSorted hsorted, hmem, List.mem_append, List.mem_singleton, or_comm]
      refine or_congr_left ⟨And.left, fun he => ⟨he, ?_⟩⟩
      exact h.2.2 e.1 (List.mem_map_of_mem he) pair.1 (List.mem_singleton.mpr rfl)

theorem toOrderedMap_eq_iff {pairs pairs' : List (String × String)} (h : (pairs.map Prod.fst).Nodup)
    (h' : (pairs'.map Prod.fst).Nodup) :
    toOrderedMap pairs = toOrderedMap pairs' ↔ ∀ e, e ∈ pairs ↔ e ∈ pairs' := by
  obtain ⟨hsorted, hmem⟩ := toOrderedMap_spec h
  obtain ⟨hsorted', hmem'⟩ := toOrderedMap_spec h'
  constructor
  · intro heq e
    rw [← hmem, ← hmem', heq]
  · intro hiff
    have hnodup : ∀ {map : List (String × String)}, (map.Pairwise fun a b => a.1 < b.1) → map.Nodup :=
      fun hs => hs.imp fun hlt he => hlt.ne (congrArg Prod.fst he)
    have hperm : (toOrderedMap pairs).Perm (toOrderedMap pairs') := by
      rw [List.perm_ext_iff_of_nodup (hnodup hsorted) (hnodup hsorted')]
      intro e
      rw [hmem, hmem', hiff]
    exact hperm.eq_of_pairwise (fun a b _ _ hab hba => absurd hab hba.asymm) hsorted hsorted'

theorem same_table_iff {t t' : Table} :
    Same (.table t) (.table t') ↔ ∀ key, Option.Rel Same (getKey t key) (getKey t' key) := by
  constructor
  · intro h key
    cases h with
    | refl => cases getKey t key with
      | none => exact .none
      | some v => exact .some (.refl v)
    | table h => exact h key
  · exact .table

theorem same_array_iff {items items' : List Value} :
    Same (.array items) (.array items') ↔ List.Forall₂ Same items items' := by
  constructor
  · intro h
    cases h with
    | refl => exact List.forall₂_same.mpr fun v _ => .refl v
    | array h => exact h
  · exact .array

theorem same_table_of_getKey {t t' : Table} (h : ∀ key, getKey t key = getKey t' key) :
    Same (.table t) (.table t') := by
  refine .table fun key => ?_
  rw [h key]
  exact same_table_iff.mp (.refl _) key

def Plain (v : Value) : Prop := ∀ w, Same v w → v = w

theorem plain_string (s : String) : Plain (.string s) := by
  rintro _ ⟨⟩
  rfl

theorem plain_integer (n : Int) : Plain (.integer n) := by
  rintro _ ⟨⟩
  rfl

theorem plain_boolean (b : Bool) : Plain (.boolean b) := by
  rintro _ ⟨⟩
  rfl

theorem textList_injective {texts texts' : List String} (h : textList texts = textList texts') :
    texts = texts' :=
  List.map_injective_iff.mpr (fun _ _ he => Value.string.inj he) (Value.array.inj h)

theorem plain_textList (texts : List String) : Plain (textList texts) := by
  intro w h
  cases h with
  | refl => rfl
  | @array _ items h =>
      rw [textList, Value.array.injEq]
      induction texts generalizing items with
      | nil => exact (List.forall₂_nil_left_iff.mp h).symm
      | cons text texts ih =>
          obtain ⟨item, items, hitem, hitems, rfl⟩ := List.forall₂_cons_left_iff.mp h
          rw [List.map_cons, plain_string _ _ hitem, ih hitems]

theorem eq_of_rel_plain {a b : Option Value} (ha : ∀ v, a = some v → Plain v) (h : Option.Rel Same a b) :
    a = b := by
  cases h with
  | none => rfl
  | some h => exact congrArg some (ha _ rfl _ h)

theorem getKey_envTable {pairs : List (String × String)} (h : (pairs.map Prod.fst).Nodup) {key : String}
    {v : Value} : getKey (pairs.map fun pair => (pair.1, .string pair.2)) key = some v ↔
      ∃ s, v = .string s ∧ (key, s) ∈ pairs := by
  rw [getKey_eq_some_iff (by rwa [List.map_map]), List.mem_map]
  constructor
  · rintro ⟨pair, hmem, he⟩
    cases he
    exact ⟨pair.2, rfl, hmem⟩
  · rintro ⟨s, rfl, hmem⟩
    exact ⟨(key, s), hmem, rfl⟩

theorem same_envTable_iff {pairs pairs' : List (String × String)} (h : (pairs.map Prod.fst).Nodup)
    (h' : (pairs'.map Prod.fst).Nodup) :
    Same (envTable pairs) (envTable pairs') ↔ toOrderedMap pairs = toOrderedMap pairs' := by
  rw [toOrderedMap_eq_iff h h', envTable, envTable, same_table_iff]
  constructor
  · rintro hsame ⟨key, s⟩
    have heq := eq_of_rel_plain (fun v hv => by
      obtain ⟨s, rfl, _⟩ := (getKey_envTable h).mp hv
      exact plain_string s) (hsame key)
    have hiff : getKey _ key = some (.string s) ↔ _ := getKey_envTable h
    rw [heq, getKey_envTable h'] at hiff
    simpa using hiff.symm
  · intro hiff
    refine same_table_iff.mp (same_table_of_getKey fun key => ?_)
    refine Option.ext fun v => ?_
    rw [getKey_envTable h, getKey_envTable h']
    simp only [hiff]

theorem nodup_env {t : Table} (h : (Value.table t).distinctKeys) {pairs : List (String × String)}
    (hpairs : (getKey t "env").getD (.table []) = envTable pairs) : (pairs.map Prod.fst).Nodup := by
  cases hkey : getKey t "env" with
  | none =>
      rw [hkey, Option.getD_none] at hpairs
      rw [List.map_eq_nil_iff.mp (Value.table.inj hpairs).symm]
      exact .nil
  | some v =>
      rw [hkey, Option.getD_some] at hpairs
      subst hpairs
      have henv := (distinctKeys_of_getKey h hkey).1
      rwa [List.map_map] at henv

def routeEntry (route : ServiceRoute) (key : String) : Option Value :=
  if key = "id" then some (.string route.id)
  else if key = "hosts" then some (textList route.hosts)
  else if key = "target_host" then (targetHost route.target).map .string
  else if key = targetKey route.target then some (targetValue route.target)
  else none

theorem plain_routeEntry (route : ServiceRoute) (key : String) (v : Value)
    (h : routeEntry route key = some v) : Plain v := by
  unfold routeEntry at h
  split at h
  · cases h
    exact plain_string _
  · split at h
    · cases h
      exact plain_textList _
    · split at h
      · obtain ⟨host, _, rfl⟩ := Option.map_eq_some_iff.mp h
        exact plain_string host
      · split at h
        · cases h
          cases route.target with
          | port _ _ => exact plain_integer _
          | _ => exact plain_string _
        · cases h

theorem target_ext {target target' : RouteTarget} (hkey : targetKey target = targetKey target')
    (hvalue : targetValue target = targetValue target') (hhost : targetHost target = targetHost target') :
    target = target' := by
  cases target with
  | port host port =>
      cases target' with
      | port host' port' =>
          cases hhost
          obtain ⟨number, hrange⟩ := port
          obtain ⟨number', hrange'⟩ := port'
          obtain rfl : number = number' := Int.ofNat.inj (Value.integer.inj hvalue)
          rfl
      | _ => exact absurd hkey (by simp [targetKey])
  | portEnv host var =>
      cases target' with
      | portEnv host' var' =>
          cases hhost
          cases hvalue
          rfl
      | _ => exact absurd hkey (by simp [targetKey])
  | socket path =>
      cases target' with
      | socket path' =>
          cases hvalue
          rfl
      | _ => exact absurd hkey (by simp [targetKey])
  | socketEnv var =>
      cases target' with
      | socketEnv var' =>
          cases hvalue
          rfl
      | _ => exact absurd hkey (by simp [targetKey])

theorem routeEntry_target (route : ServiceRoute) {key : String} (hkey : key ∈ targetKeys) :
    routeEntry route key = if key = targetKey route.target then some (targetValue route.target) else none := by
  simp only [targetKeys, List.mem_cons, List.not_mem_nil, or_false] at hkey
  rcases hkey with rfl | rfl | rfl | rfl <;> simp [routeEntry]

theorem routeEntry_injective {route route' : ServiceRoute}
    (h : ∀ key, routeEntry route key = routeEntry route' key) : route = route' := by
  have hid : some (Value.string route.id) = some (.string route'.id) := h "id"
  have hhosts : some (textList route.hosts) = some (textList route'.hosts) := h "hosts"
  have hhost : (targetHost route.target).map Value.string = (targetHost route'.target).map .string :=
    h "target_host"
  have htarget := h (targetKey route.target)
  rw [routeEntry_target _ (targetKey_mem _), routeEntry_target _ (targetKey_mem _), if_pos rfl] at htarget
  obtain ⟨id, hosts, target⟩ := route
  obtain ⟨id', hosts', target'⟩ := route'
  have htargets : target = target' := by
    split at htarget
    · rename_i hkey
      exact target_ext hkey (Option.some.inj htarget)
        (Option.map_injective (fun _ _ he => Value.string.inj he) hhost)
    · cases htarget
  cases hid
  subst htargets
  obtain rfl : hosts = hosts' := textList_injective (Option.some.inj hhosts)
  rfl

theorem getKey_eq_none_of_unknown {t : Table} {allowed : List String} (h : OnlyKeys allowed t) {key : String}
    (hkey : key ∉ allowed) : getKey t key = none := by
  rw [← containsKey_eq_false, Bool.eq_false_iff]
  exact fun hc => hkey (h key (List.contains_iff_mem.mp hc))

/-- Apart from the host, a route's table says what the route says. -/
theorem getKey_of_routeReads {t : Table} {route : ServiceRoute} (h : RouteReads t route) {key : String}
    (hkey : key ≠ "target_host") : getKey t key = routeEntry route key := by
  by_cases htarget : key ∈ targetKeys
  · rw [routeEntry_target route htarget]
    exact h.target.selected key htarget
  · have hne : key ≠ targetKey route.target := fun he => htarget (he ▸ targetKey_mem route.target)
    by_cases hid : key = "id"
    · rw [hid, h.id]
      rfl
    · by_cases hhosts : key = "hosts"
      · rw [hhosts, h.hosts]
        rfl
      · rw [routeEntry, if_neg hid, if_neg hhosts, if_neg hkey, if_neg hne]
        exact getKey_eq_none_of_unknown h.known (by simp [routeKeys, hid, hhosts, hkey, htarget])

theorem isTcp_iff {t : Table} {target : RouteTarget} (h : TargetReads t target) :
    (containsKey t "target_port" || containsKey t "target_port_env") = (targetHost target).isSome := by
  have hport := h.selected "target_port" (by decide)
  have henv := h.selected "target_port_env" (by decide)
  rw [Bool.eq_iff_iff, Bool.or_eq_true, containsKey_iff, containsKey_iff, Present, Present, hport, henv]
  cases target <;> simp [targetKey, targetHost]

theorem getKey_fillRoute {t : Table} {route : ServiceRoute} (h : RouteReads t route) :
    ∃ filled, fillRoute (.table t) = .table filled ∧ ∀ key, getKey filled key = routeEntry route key := by
  refine ⟨_, rfl, fun key => ?_⟩
  have hhost := h.target.host
  rw [isTcp_iff h.target]
  cases htcp : targetHost route.target with
  | some host =>
      rw [htcp] at hhost
      rw [Option.isSome_some, if_pos rfl, getKey_fillKey]
      split
      · rename_i he
        rw [he, hhost.2, routeEntry, htcp]
        rfl
      · rename_i hne
        exact getKey_of_routeReads h hne
  | none =>
      rw [htcp] at hhost
      rw [Option.isSome_none, if_neg Bool.false_ne_true]
      by_cases he : key = "target_host"
      · rw [he, hhost, routeEntry, htcp]
        rfl
      · exact getKey_of_routeReads h he

theorem same_fillRoute_iff {t t' : Table} {route route' : ServiceRoute} (h : RouteReads t route)
    (h' : RouteReads t' route') :
    Same (fillRoute (.table t)) (fillRoute (.table t')) ↔ route = route' := by
  obtain ⟨filled, hfilled, hkeys⟩ := getKey_fillRoute h
  obtain ⟨filled', hfilled', hkeys'⟩ := getKey_fillRoute h'
  rw [hfilled, hfilled']
  constructor
  · intro hsame
    refine routeEntry_injective fun key => eq_of_rel_plain (plain_routeEntry route key) ?_
    rw [← hkeys, ← hkeys']
    exact same_table_iff.mp hsame key
  · rintro rfl
    refine same_table_of_getKey fun key => ?_
    rw [hkeys, hkeys']

/-- Two lists are read as the same list when they are related element by
element, if that is so of single elements. -/
theorem forall₂_iff_eq {α γ : Type} {R : α → γ → Prop} {S : α → α → Prop}
    (h : ∀ a a' c c', R a c → R a' c' → (S a a' ↔ c = c')) {as as' : List α} {cs cs' : List γ}
    (has : List.Forall₂ R as cs) (has' : List.Forall₂ R as' cs') : List.Forall₂ S as as' ↔ cs = cs' := by
  induction has generalizing as' cs' with
  | nil =>
      cases has' with
      | nil => simp
      | cons _ _ => simp
  | cons hr _ ih =>
      cases has' with
      | nil => simp
      | cons hr' hrs' => rw [List.forall₂_cons, h _ _ _ _ hr hr', ih hrs', List.cons.injEq]

theorem same_fillRoutes_iff {ts ts' : List Table} {routes routes' : List ServiceRoute}
    (h : List.Forall₂ RouteReads ts routes) (h' : List.Forall₂ RouteReads ts' routes') :
    Same (fillRoutes (.array (ts.map .table))) (fillRoutes (.array (ts'.map .table))) ↔
      routes = routes' := by
  have hsame : ∀ (t t' : Table) (route route' : ServiceRoute), RouteReads t route → RouteReads t' route' →
      (Same (fillRoute (.table t)) (fillRoute (.table t')) ↔ route = route') :=
    fun _ _ _ _ hr hr' => same_fillRoute_iff hr hr'
  rw [← forall₂_iff_eq hsame h h', fillRoutes, fillRoutes, List.map_map, List.map_map, same_array_iff,
    List.forall₂_map_left_iff, List.forall₂_map_right_iff]
  rfl

theorem getKey_fillService (t : Table) (key : String) :
    getKey (mapKey (fillOptions t) "routes" fillRoutes) key =
      if key = "routes" then some (fillRoutes ((getKey t "routes").getD (.array [])))
      else if key = "env" then some ((getKey t "env").getD (.table []))
      else if key = "auto_start" then some ((getKey t "auto_start").getD (.boolean true))
      else if key = "disabled" then some ((getKey t "disabled").getD (.boolean false))
      else getKey t key := by
  rw [getKey_mapKey]
  split
  · simp only [fillOptions, getKey_fillKey, String.reduceEq, reduceIte, Option.map_some]
  · rename_i hne
    simp only [fillOptions, getKey_fillKey, String.reduceEq, hne, reduceIte]

/-- The options of a service, beside its routes and its environment. -/
theorem same_fillService_iff {name : String} {t t' : Table} {service service' : ServiceDef}
    (hd : (Value.table t).distinctKeys) (hd' : (Value.table t').distinctKeys)
    (h : ServiceReads name t service) (h' : ServiceReads name t' service') :
    Same (fillService (.table t)) (fillService (.table t')) ↔ service = service' := by
  obtain ⟨pairs, hpairs, henv⟩ := h.env
  obtain ⟨pairs', hpairs', henv'⟩ := h'.env
  obtain ⟨routes, hroutes, hreads⟩ := h.routes
  obtain ⟨routes', hroutes', hreads'⟩ := h'.routes
  have hnodup := nodup_env hd hpairs
  have hnodup' := nodup_env hd' hpairs'
  rw [fillService, fillService, same_table_iff]
  simp only [getKey_fillService, hpairs, hpairs', hroutes, hroutes', h.disabled, h'.disabled, h.autoStart,
    h'.autoStart]
  constructor
  · intro hsame
    have hroutesEq := hsame "routes"
    have henvEq := hsame "env"
    have hautoEq := hsame "auto_start"
    have hdisabledEq := hsame "disabled"
    have hcommandEq := hsame "command"
    simp only [String.reduceEq, reduceIte, Option.rel_some_some]
      at hroutesEq henvEq hautoEq hdisabledEq hcommandEq
    rw [same_fillRoutes_iff hreads hreads'] at hroutesEq
    rw [same_envTable_iff hnodup hnodup', ← henv, ← henv'] at henvEq
    have hauto := Value.boolean.inj (plain_boolean _ _ hautoEq)
    have hdisabled := Value.boolean.inj (plain_boolean _ _ hdisabledEq)
    have hcommand : service.command = service'.command := by
      refine Option.map_injective (fun _ _ he => textList_injective he) ?_
      rw [← h.command, ← h'.command]
      refine eq_of_rel_plain (fun v hv => ?_) hcommandEq
      rw [h.command] at hv
      obtain ⟨args, _, rfl⟩ := Option.map_eq_some_iff.mp hv
      exact plain_textList args
    have hname := h.named.trans h'.named.symm
    obtain ⟨_, _, _, _, _, _⟩ := service
    obtain ⟨_, _, _, _, _, _⟩ := service'
    rw [ServiceDef.mk.injEq]
    exact ⟨hname, hcommand, henvEq, hroutesEq, hdisabled, hauto⟩
  · rintro rfl key
    split
    · exact .some ((same_fillRoutes_iff hreads hreads').mpr rfl)
    · rename_i hroutesNe
      split
      · exact .some ((same_envTable_iff hnodup hnodup').mpr (henv.symm.trans henv'))
      · rename_i henvNe
        split
        · exact .some (.refl _)
        · rename_i hautoNe
          split
          · exact .some (.refl _)
          · rename_i hdisabledNe
            have hkeys : getKey t key = getKey t' key := by
              by_cases hcommand : key = "command"
              · rw [hcommand, h.command, h'.command]
              · have hunknown : key ∉ serviceKeys := by
                  simp [serviceKeys, hcommand, henvNe, hroutesNe, hdisabledNe, hautoNe]
                rw [getKey_eq_none_of_unknown h.known hunknown, getKey_eq_none_of_unknown h'.known hunknown]
            rw [hkeys]
            exact same_table_iff.mp (.refl (.table t')) key

theorem sameInOrder_table_iff {t t' : Table} : SameInOrder (.table t) (.table t') ↔
    List.Forall₂ (fun e e' => e.1 = e'.1 ∧ Same e.2 e'.2) t t' := by
  constructor
  · intro h
    cases h with
    | refl => exact List.forall₂_same.mpr fun e _ => ⟨rfl, .refl e.2⟩
    | table h => exact h
  · exact .table

theorem distinctKeys_of_mem {t : Table} (h : (Value.table t).distinctKeys) {entry : String × Value}
    (hmem : entry ∈ t) : entry.2.distinctKeys :=
  distinctKeys_of_getKey h ((getKey_eq_some_iff h.1).mpr hmem)

theorem same_fillServices_iff {tables tables' : List (String × Table)} {services services' : List ServiceDef}
    (hd : (servicesTable tables).distinctKeys) (hd' : (servicesTable tables').distinctKeys)
    (h : List.Forall₂ (fun entry service => ServiceReads entry.1 entry.2 service) tables services)
    (h' : List.Forall₂ (fun entry service => ServiceReads entry.1 entry.2 service) tables' services') :
    SameInOrder (fillServices (servicesTable tables)) (fillServices (servicesTable tables')) ↔
      services = services' := by
  have hdistinct : ∀ {tables : List (String × Table)}, (servicesTable tables).distinctKeys →
      ∀ entry ∈ tables, (Value.table entry.2).distinctKeys := fun hd entry hmem =>
    distinctKeys_of_mem hd (List.mem_map_of_mem (f := fun entry => (entry.1, Value.table entry.2)) hmem)
  have hsame : ∀ (e e' : String × Table) (service service' : ServiceDef),
      ((Value.table e.2).distinctKeys ∧ ServiceReads e.1 e.2 service) →
      ((Value.table e'.2).distinctKeys ∧ ServiceReads e'.1 e'.2 service') →
      (e.1 = e'.1 ∧ Same (fillService (.table e.2)) (fillService (.table e'.2)) ↔ service = service') := by
    rintro ⟨name, t⟩ ⟨name', t'⟩ service service' ⟨ht, hr⟩ ⟨ht', hr'⟩
    constructor
    · rintro ⟨rfl, hs⟩
      exact (same_fillService_iff ht ht' hr hr').mp hs
    · rintro rfl
      obtain rfl : name = name' := hr.named.symm.trans hr'.named
      exact ⟨rfl, (same_fillService_iff ht ht' hr hr').mpr rfl⟩
  have hwith : ∀ {tables : List (String × Table)} {services : List ServiceDef},
      (servicesTable tables).distinctKeys →
      List.Forall₂ (fun entry service => ServiceReads entry.1 entry.2 service) tables services →
      List.Forall₂ (fun entry service => (Value.table entry.2).distinctKeys ∧
        ServiceReads entry.1 entry.2 service) tables services := fun hd h =>
    (List.forall₂_and_left _ _).mpr ⟨hdistinct hd, h⟩
  rw [← forall₂_iff_eq hsame (hwith hd h) (hwith hd' h'), servicesTable, servicesTable, fillServices,
    fillServices, List.map_map, List.map_map, sameInOrder_table_iff, List.forall₂_map_left_iff,
    List.forall₂_map_right_iff]
  rfl

theorem getKey_fill (t : Table) (key : String) : getKey (fill t) key =
    if key = "services" then (getKey t "services").map fillServices else getKey t key :=
  getKey_mapKey t "services" fillServices key

/-- Equal manifests come from the documents that are the same when filled. -/
theorem manifest_eq_iff {t t' : Table} {manifest manifest' : Manifest}
    (hd : (Value.table t).distinctKeys) (hd' : (Value.table t').distinctKeys)
    (h : ManifestReads t manifest) (h' : ManifestReads t' manifest') :
    manifest = manifest' ↔ SameDocument (fill t) (fill t') := by
  obtain ⟨tables, htables, _, hreads⟩ := h.services
  obtain ⟨tables', htables', _, hreads'⟩ := h'.services
  have hservices : Option.Rel SameInOrder (getKey (fill t) "services") (getKey (fill t') "services") ↔
      manifest.services = manifest'.services := by
    rw [getKey_fill, getKey_fill, if_pos rfl, if_pos rfl, htables, htables', Option.map_some,
      Option.map_some, Option.rel_some_some]
    exact same_fillServices_iff (distinctKeys_of_getKey hd htables) (distinctKeys_of_getKey hd' htables')
      hreads hreads'
  have hother : ∀ {t : Table} {key : String}, key ≠ "services" → getKey (fill t) key = getKey t key :=
    fun hne => (getKey_fill _ _).trans (if_neg hne)
  constructor
  · rintro rfl
    refine ⟨fun key hne => ?_, hservices.mpr rfl⟩
    rw [hother hne, hother hne]
    have hkeys : getKey t key = getKey t' key := by
      by_cases hport : key = "http_port"
      · rw [hport, h.httpPort, h'.httpPort]
      · by_cases hbind : key = "bind"
        · rw [hbind, h.bind, h'.bind]
        · have hunknown : key ∉ topLevelKeys := by simp [topLevelKeys, hport, hbind, hne]
          rw [getKey_eq_none_of_unknown h.known hunknown, getKey_eq_none_of_unknown h'.known hunknown]
    rw [hkeys]
    exact same_table_iff.mp (.refl (.table t')) key
  · rintro ⟨hvalues, hs⟩
    have hport := hvalues "http_port" (by decide)
    have hbind := hvalues "bind" (by decide)
    rw [hother (by decide), hother (by decide), h.httpPort, h'.httpPort, Option.rel_some_some] at hport
    rw [hother (by decide), hother (by decide), h.bind, h'.bind, Option.rel_some_some] at hbind
    have hservicesEq := hservices.mp hs
    have hbindEq := textList_injective (plain_textList _ _ hbind)
    have hportEq := Int.ofNat.inj (Value.integer.inj (plain_integer _ _ hport))
    obtain ⟨⟨number, hrange⟩, bind, services⟩ := manifest
    obtain ⟨⟨number', hrange'⟩, bind', services'⟩ := manifest'
    rw [Manifest.mk.injEq, Port.mk.injEq]
    exact ⟨hportEq, hbindEq, hservicesEq⟩

/-- The parser accepts exactly the tables of the schema, and it reads two of
them as one manifest exactly when they say the same with every default written
out. -/
theorem accepts_and_loses_nothing :
    (∀ t : Table, (∃ manifest, buildManifest t = .ok manifest) ↔ ManifestSchema t) ∧
    ∀ (t t' : Table) (manifest manifest' : Manifest), (Value.table t).distinctKeys →
      (Value.table t').distinctKeys → buildManifest t = .ok manifest → buildManifest t' = .ok manifest' →
      (manifest = manifest' ↔ SameDocument (fill t) (fill t')) := by
  refine ⟨fun t => buildManifest_accepts, fun t t' manifest manifest' hd hd' h h' => ?_⟩
  exact manifest_eq_iff hd hd' (buildManifest_ok.mp h) (buildManifest_ok.mp h')

/-- A default that is written out and keys in another order. -/
theorem accepts_and_loses_nothing_reordered :
    SameDocument
      (fill (headedTable [("web", .table [("command", textList ["serve"]),
        ("env", envTable [("B", "2"), ("A", "1")])])]))
      (fill (headedTable [("web", .table [("disabled", .boolean false),
        ("env", envTable [("A", "1"), ("B", "2")]), ("command", textList ["serve"])])])) :=
  (accepts_and_loses_nothing.2 _ _
    (headedManifest [⟨"web", some ["serve"], [("A", "1"), ("B", "2")], [], false, true⟩]) _
    (by simp [headedTable, textList, envTable]) (by simp [headedTable, textList, envTable]) rfl rfl).mp rfl

end LocalDevProxy.Lossless
