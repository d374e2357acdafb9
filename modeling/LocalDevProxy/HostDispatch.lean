import LocalDevProxy.Proxy

namespace LocalDevProxy.HostDispatch

open Lib.Fallible Text Paths Toml Config Routes Proxy

variable {G : Glob}

theorem isWildcard_lower (host : String) :
    isWildcardHost (toAsciiLowercase host) = isWildcardHost host := by
  have hchar : ∀ c d : Char, (d.toNat < 97 ∨ 122 < d.toNat) → d.toLower = d →
      decide (c.toLower = d) = decide (c = d) := by
    intro c d hd hl
    rw [decide_eq_decide]
    exact ⟨eq_of_toLower hd, fun he => by rw [he, hl]⟩
  simp only [isWildcardHost, toList_toAsciiLowercase, List.any_map, Function.comp_def]
  congr 1
  funext c
  rw [hchar c '*' (by decide) (by decide), hchar c '?' (by decide) (by decide),
    hchar c '[' (by decide) (by decide)]

def isFor (host : String) (entry : String × Nat) : Bool := toAsciiLowercase entry.1 = host

theorem exactIndex_insertHost (m : HostMatcher G) (entry : String × Nat) {host : String}
    (hhost : isWildcardHost host = false) :
    (m.insertHost entry).exactIndex host =
      (m.exactIndex host).or (if isFor host entry then some entry.2 else none) := by
  unfold HostMatcher.insertHost
  by_cases hfor : toAsciiLowercase entry.1 = host
  · subst hfor
    have hself : isFor (toAsciiLowercase entry.1) entry = true := by simp [isFor]
    rw [if_neg (by simp [hhost]), if_pos hself]
    cases hm : m.exactIndex (toAsciiLowercase entry.1) with
    | some index => simp [hm]
    | none =>
        have hnone : m.exact.find? (fun e => e.1 = toAsciiLowercase entry.1) = none := by
          simpa [HostMatcher.exactIndex] using hm
        simp [HostMatcher.exactIndex, List.find?_append, hnone]
  · have hother : isFor host entry = false := by simp [isFor, hfor]
    simp only [hother, Bool.false_eq_true, if_false, Option.or_none]
    split
    · rfl
    · split
      · rfl
      · simp [HostMatcher.exactIndex, List.find?_append, hfor]

theorem exactIndex_foldl (entries : List (String × Nat)) (m : HostMatcher G) {host : String}
    (hhost : isWildcardHost host = false) :
    (entries.foldl HostMatcher.insertHost m).exactIndex host =
      (m.exactIndex host).or ((entries.find? (isFor host)).map Prod.snd) := by
  induction entries generalizing m with
  | nil => simp
  | cons entry rest ih =>
      rw [List.foldl_cons, ih, exactIndex_insertHost m entry hhost, Option.or_assoc, List.find?_cons]
      cases isFor host entry <;> simp

/-- Whether a route lists a host, which is in lower case, in any spelling. -/
def lists (host : String) (hosts : List String) : Bool :=
  hosts.any (fun listed => toAsciiLowercase listed = host)

theorem find?_hosts (q : String → Bool) (hosts : List String) (index : Nat) :
    ((hosts.map (fun h => (h, index))).find? (fun entry => q entry.1)).map Prod.snd =
      if hosts.any q then some index else none := by
  induction hosts with
  | nil => rfl
  | cons h rest ih =>
      rw [List.map_cons, List.find?_cons]
      by_cases hh : q h
      · simp [hh]
      · simpa [hh] using ih

/-- Searching the entries for a host is searching the routes for one with such a host. -/
theorem find?_hostEntries (q : String → Bool) (routes : List ResolvedRoute) (start : Nat) :
    (((routes.zipIdx start).flatMap (fun e => e.1.hostPatterns.map (fun h => (h, e.2)))).find?
        (fun entry => q entry.1)).map Prod.snd =
      (routes.findIdx? (fun r => r.hostPatterns.any q)).map (· + start) := by
  induction routes generalizing start with
  | nil => rfl
  | cons r rest ih =>
      rw [List.zipIdx_cons, List.flatMap_cons, List.find?_append, Option.map_or, find?_hosts, ih,
        List.findIdx?_cons]
      cases r.hostPatterns.any q with
      | true => simp
      | false =>
          simp only [Bool.false_eq_true, if_false, Option.none_or, Option.map_map]
          congr 1
          funext n
          simp only [Function.comp_apply]
          omega

theorem exactIndex_new (routes : List ResolvedRoute) {host : String} (hhost : isWildcardHost host = false) :
    (HostMatcher.new G routes).exactIndex host =
      routes.findIdx? (fun r => lists host r.hostPatterns) := by
  have hentries := find?_hostEntries (fun listed => decide (toAsciiLowercase listed = host)) routes 0
  simp only [Nat.add_zero, Option.map_id'] at hentries
  have hempty : (⟨[], []⟩ : HostMatcher G).exactIndex host = none := rfl
  rw [HostMatcher.new, exactIndex_foldl _ _ hhost, hempty, Option.none_or]
  exact hentries

/-- A host without wildcards that some route lists goes to the first that does. -/
theorem find_eq (routes : List ResolvedRoute) (host : String) (hw : isWildcardHost host = false)
    {index : Nat} (h : routes.findIdx? (fun r => lists (toAsciiLowercase host) r.hostPatterns) = some index) :
    (HostMatcher.new G routes).find host = some index := by
  have hexact := (exactIndex_new (G := G) routes ((isWildcard_lower host).trans hw)).trans h
  simp only [HostMatcher.find, hexact]

theorem stripPort_port {host port : String} (hhead : host.toList.head? ≠ some '[')
    (hport : ':' ∉ port.toList) : stripPort (host ++ ":" ++ port) = host := by
  have hl : (host ++ ":" ++ port).toList = host.toList ++ ':' :: port.toList := by simp
  have hbefore : ∀ c ∈ port.toList.reverse, decide (c ≠ ':') = true := by
    intro c hc
    simpa using fun he : c = ':' => hport (he ▸ List.mem_reverse.mp hc)
  have hhead' : (host ++ ":" ++ port).toList.head? ≠ some '[' := by
    rw [hl]
    cases hcs : host.toList with
    | nil => simp
    | cons c cs =>
        rw [hcs] at hhead
        exact hhead
  have hsplit : rsplitOnce ':' (host ++ ":" ++ port).toList = some (host.toList, port.toList) := by
    rw [hl, rsplitOnce, List.reverse_append, List.reverse_cons, List.append_assoc,
      List.dropWhile_append_of_pos hbefore, List.takeWhile_append_of_pos hbefore]
    simp
  rw [stripPort, if_neg hhead', hsplit]
  exact String.ofList_toList

theorem head_ne_bracket {host : String} (hw : isWildcardHost host = false) :
    host.toList.head? ≠ some '[' := by
  intro h
  have hmem : '[' ∈ host.toList := List.mem_of_mem_head? h
  have hany : isWildcardHost host = true := List.any_eq_true.mpr ⟨'[', hmem, by decide⟩
  rw [hw] at hany
  cases hany

def SentTo (handled : Handled) (route : ResolvedRoute) : Prop :=
  handled = .websocket route ∨ handled = .http route

theorem handle_route {table : RouteTable G} {request : Request} {host : String} {route : ResolvedRoute}
    (hhost : requestHost request = host) (hlocal : eqIgnoreAsciiCase host "localhost" = false)
    (hfind : table.find host = some route) : SentTo (handle table request) route := by
  simp only [handle, hhost, hlocal, hfind, Bool.false_eq_true, if_false]
  split
  · exact .inl rfl
  · exact .inr rfl

theorem fromManifest_routes {cwd : Option Path} {manifest : Manifest} {env : EnvLookup} {baseDir : Path}
    {table : RouteTable G} (h : RouteTable.fromManifest G cwd manifest env baseDir = .ok table) :
    table = RouteTable.new G manifest.httpPort table.routes ∧
      table.routes.map (fun r => (r.id, r.hostPatterns)) =
        (enabledRoutes manifest).map (fun entry => (entry.2.id, entry.2.hosts)) := by
  obtain ⟨routes, hroutes, h⟩ := bind_eq_ok.mp h
  cases h
  exact ⟨rfl, resolveRoutes_shape cwd hroutes⟩

/-- The first enabled route that lists a host, at or before one that does. -/
theorem first_lister {entries : List (ServiceDef × ServiceRoute)} {host : String} {i : Nat}
    {entry : ServiceDef × ServiceRoute} (hentry : entries[i]? = some entry)
    (hlists : lists host entry.2.hosts = true) :
    ∃ j first, j ≤ i ∧ entries[j]? = some first ∧ lists host first.2.hosts = true ∧
      (∀ k earlier, k < j → entries[k]? = some earlier → lists host earlier.2.hosts = false) ∧
      entries.findIdx? (fun e => lists host e.2.hosts) = some j := by
  obtain ⟨hi, rfl⟩ := List.getElem?_eq_some_iff.mp hentry
  cases hj : entries.findIdx? (fun e => lists host e.2.hosts) with
  | none =>
      have hnone := List.findIdx?_eq_none_iff.mp hj _ (List.getElem_mem hi)
      rw [hlists] at hnone
      cases hnone
  | some j =>
      obtain ⟨hlt, hfirst, hbefore⟩ := List.findIdx?_eq_some_iff_getElem.mp hj
      refine ⟨j, entries[j], ?_, List.getElem?_eq_getElem hlt, hfirst, ?_, rfl⟩
      · by_contra hgt
        exact hbefore i (by omega) hlists
      · intro k earlier hk he
        obtain ⟨_, rfl⟩ := List.getElem?_eq_some_iff.mp he
        simpa using hbefore k hk

/-- A table finds the route that was resolved from the first one to list a host. -/
theorem fromManifest_find {cwd : Option Path} {manifest : Manifest} {env : EnvLookup} {baseDir : Path}
    {table : RouteTable G} (h : RouteTable.fromManifest G cwd manifest env baseDir = .ok table)
    {host : String} (hw : isWildcardHost host = false) {j : Nat} {first : ServiceDef × ServiceRoute}
    (hj : (enabledRoutes manifest)[j]? = some first)
    (hidx : (enabledRoutes manifest).findIdx? (fun e => lists (toAsciiLowercase host) e.2.hosts) = some j) :
    ∃ resolved, table.routes[j]? = some resolved ∧ resolved.id = first.2.id ∧
      resolved.hostPatterns = first.2.hosts ∧ table.find host = some resolved := by
  obtain ⟨hnew, hshape⟩ := fromManifest_routes h
  have hsame : (table.routes[j]?).map (fun r => (r.id, r.hostPatterns)) =
      some (first.2.id, first.2.hosts) := by
    rw [← List.getElem?_map, hshape, List.getElem?_map, hj]
    rfl
  obtain ⟨resolved, hresolved, he⟩ := Option.map_eq_some_iff.mp hsame
  obtain ⟨hid, hpatterns⟩ := Prod.mk.inj he
  have hroutes : table.routes.findIdx? (fun r => lists (toAsciiLowercase host) r.hostPatterns) =
      some j := by
    let listing := fun p : String × List String => lists (toAsciiLowercase host) p.2
    have hl := congrArg (List.findIdx? listing) hshape
    rw [List.findIdx?_map, List.findIdx?_map] at hl
    exact hl.trans hidx
  refine ⟨resolved, hresolved, hid, hpatterns, ?_⟩
  rw [RouteTable.find, hnew]
  simp only [RouteTable.new, find_eq table.routes host hw hroutes, Option.bind_some, hresolved]

/-- A request for a host that an enabled route lists goes to the portal where
the host is localhost, and otherwise to the first enabled route that lists it. -/
theorem listed_host_served (G : Glob) (cwd : Option Path) (manifest : Manifest) (env : EnvLookup)
    (baseDir : Path) (table : RouteTable G) (request : Request) (i : Nat) (service : ServiceDef)
    (route : ServiceRoute) (host : String)
    (htable : RouteTable.fromManifest G cwd manifest env baseDir = .ok table)
    (hroute : (enabledRoutes manifest)[i]? = some (service, route)) (hhost : host ∈ route.hosts)
    (hw : isWildcardHost host = false)
    (hrequest : (request.header "host").bind HeaderValue.toStr =
      some (host ++ ":" ++ decimal manifest.httpPort.number)) :
    (eqIgnoreAsciiCase host "localhost" = true → handle table request = .portal table.portalHtml) ∧
    (eqIgnoreAsciiCase host "localhost" = false →
      ∃ j first resolved, j ≤ i ∧ (enabledRoutes manifest)[j]? = some first ∧
        lists (toAsciiLowercase host) first.2.hosts = true ∧
        (∀ k earlier, k < j → (enabledRoutes manifest)[k]? = some earlier →
          lists (toAsciiLowercase host) earlier.2.hosts = false) ∧
        table.routes[j]? = some resolved ∧ resolved.id = first.2.id ∧
        resolved.hostPatterns = first.2.hosts ∧ SentTo (handle table request) resolved) := by
  have hstrip : requestHost request = host := by
    rw [requestHost, hrequest]
    exact stripPort_port (head_ne_bracket hw) (not_mem_decimal (by decide) _)
  refine ⟨?_, ?_⟩
  · intro hlocal
    rw [handle, hstrip, hlocal]
    rfl
  · intro hlocal
    have hlists : lists (toAsciiLowercase host) route.hosts = true :=
      List.any_eq_true.mpr ⟨host, hhost, decide_eq_true rfl⟩
    obtain ⟨j, first, hle, hj, hfirst, hbefore, hidx⟩ := first_lister hroute hlists
    obtain ⟨resolved, hresolved, hid, hpatterns, hfind⟩ := fromManifest_find htable hw hj hidx
    exact ⟨j, first, resolved, hle, hj, hfirst, hbefore, hresolved, hid, hpatterns,
      handle_route hstrip hlocal hfind⟩

def portalText : String :=
  withHeader <|
    "[[services.app.routes]]\n" ++
    "id = \"app\"\n" ++
    "hosts = [\"localhost\", \"App.localhost\"]\n" ++
    "target_port = 3000\n"

def portalTable : Table :=
  headedTable [("app", .table [("routes", .array [.table [("id", .string "app"),
      ("hosts", .array [.string "localhost", .string "App.localhost"]),
      ("target_port", .integer 3000)]])])]

def portalReader : Reader :=
  .knowing portalText portalTable (distinctKeys_headedTable (by simp))

def portalRoute : ServiceRoute :=
  ⟨"app", ["localhost", "App.localhost"], .port "localhost" ⟨3000, by decide⟩⟩

def portalService : ServiceDef := ⟨"app", none, [], [portalRoute], false, true⟩

def portalManifest : Manifest := headedManifest [portalService]

theorem parse_portal : parseManifest portalReader portalText = .ok portalManifest :=
  parseManifest_knowing _ _ _

def portalRoutes : RouteTable literalGlob :=
  .new literalGlob headerPort
    [⟨"app", ["localhost", "App.localhost"], .tcp "localhost" ⟨3000, by decide⟩⟩]

def textValue (text : String) : List UInt8 := text.toList.map (fun c => c.toNat.toUInt8)

def headerText (text : String)
    (h : (textValue text).all (fun b => decide ((32 ≤ b ∧ b ≠ 127) ∨ b = 9)) = true) : HeaderValue :=
  ⟨textValue text, fun b hb => of_decide_eq_true (List.all_eq_true.mp h b hb)⟩

def localhostRequest : Request where
  headers := [("host", headerText "localhost:2800" (by decide))]
  uri := ⟨none, "/"⟩

def appRequest : Request where
  headers := [("host", headerText "App.localhost:2800" (by decide))]
  uri := ⟨none, "/"⟩

theorem listed_host_served_app :
    ∃ j first resolved, j ≤ 0 ∧ (enabledRoutes portalManifest)[j]? = some first ∧
      lists (toAsciiLowercase "App.localhost") first.2.hosts = true ∧
      (∀ k earlier, k < j → (enabledRoutes portalManifest)[k]? = some earlier →
        lists (toAsciiLowercase "App.localhost") earlier.2.hosts = false) ∧
      portalRoutes.routes[j]? = some resolved ∧ resolved.id = first.2.id ∧
      resolved.hostPatterns = first.2.hosts ∧ SentTo (handle portalRoutes appRequest) resolved :=
  (listed_host_served literalGlob none portalManifest (fun _ => none) (parse "/p") portalRoutes
    appRequest 0 portalService portalRoute "App.localhost" rfl rfl (by decide) (by decide) rfl).2 rfl

/-- A route that lists localhost is accepted, and requests for it get the portal. -/
theorem localhost_shadowed :
    parseManifest portalReader portalText = .ok portalManifest ∧
    RouteTable.fromManifest literalGlob none portalManifest (fun _ => none) (parse "/p") =
      .ok portalRoutes ∧
    (enabledRoutes portalManifest)[0]? = some (portalService, portalRoute) ∧
    "localhost" ∈ portalRoute.hosts ∧ isWildcardHost "localhost" = false ∧
    (localhostRequest.header "host").bind HeaderValue.toStr = some ("localhost" ++ ":" ++ decimal 2800) ∧
    handle portalRoutes localhostRequest = .portal portalRoutes.portalHtml ∧
    ∀ resolved, ¬ SentTo (handle portalRoutes localhostRequest) resolved := by
  refine ⟨parse_portal, rfl, rfl, by decide, by decide, rfl, rfl, ?_⟩
  rintro resolved (h | h) <;> cases h

end LocalDevProxy.HostDispatch
