import LocalDevProxy.HostDispatch

namespace LocalDevProxy.HostRule

open Text Paths Config Routes Proxy HostDispatch

/-- An escaped text, compiled, matches that text and nothing else. -/
def EscapesLiterally (G : Glob) : Prop :=
  ∀ text compiled host, G.new (G.escape text) = some compiled →
    (G.matchesText compiled host = true ↔ host = text)

def hostText (request : Request) : String :=
  (((request.header "host").bind HeaderValue.toStr).or request.uri.authority).getD ""

/-- A host is a name, or an address in brackets. -/
def IsHost (h : String) : Prop :=
  (':' ∉ h.toList ∧ h.toList.head? ≠ some '[') ∨
    ∃ inner, h.toList = '[' :: (inner ++ [']']) ∧ ']' ∉ inner

def StandsFor (text h : String) : Prop :=
  IsHost h ∧ (text = h ∨ ∃ port : String, ':' ∉ port.toList ∧ text = h ++ ":" ++ port)

/-- A route has a pattern without wildcards that is the host, in any letter case. -/
def ListsExactly (h : String) (r : ResolvedRoute) : Prop :=
  ∃ pattern ∈ r.hostPatterns, isWildcardHost pattern = false ∧ eqIgnoreAsciiCase pattern h = true

/-- A pattern matches as its compiled form does, or literally where it has none. -/
def Accepts (G : Glob) (pattern host : String) : Prop :=
  (∃ compiled, G.new pattern = some compiled ∧ G.matchesText compiled host = true) ∨
    G.new pattern = none ∧ host = pattern

def MatchesByWildcard (G : Glob) (h : String) (r : ResolvedRoute) : Prop :=
  ∃ pattern ∈ r.hostPatterns, isWildcardHost pattern = true ∧
    Accepts G (toAsciiLowercase pattern) (toAsciiLowercase h)

def Least (P : ResolvedRoute → Prop) (routes : List ResolvedRoute) (i : Nat) : Prop :=
  (∃ r, routes[i]? = some r ∧ P r) ∧ ∀ j r, j < i → routes[j]? = some r → ¬ P r

inductive Outcome
  | portal
  | route (index : Nat)
  | notFound

/-- What becomes of a host, by a scan over all routes and patterns. -/
inductive Rule (G : Glob) (routes : List ResolvedRoute) (h : String) : Outcome → Prop
  | portal (hl : eqIgnoreAsciiCase h "localhost" = true) : Rule G routes h .portal
  | exact {i} (hl : eqIgnoreAsciiCase h "localhost" = false) (hi : Least (ListsExactly h) routes i) :
      Rule G routes h (.route i)
  | wildcard {i} (hl : eqIgnoreAsciiCase h "localhost" = false) (he : ∀ r ∈ routes, ¬ ListsExactly h r)
      (hi : Least (MatchesByWildcard G h) routes i) : Rule G routes h (.route i)
  | notFound (hl : eqIgnoreAsciiCase h "localhost" = false) (he : ∀ r ∈ routes, ¬ ListsExactly h r)
      (hw : ∀ r ∈ routes, ¬ MatchesByWildcard G h r) : Rule G routes h .notFound

def Answered {G : Glob} (table : RouteTable G) (request : Request) (outcome : Outcome) : Prop :=
  match outcome with
  | .portal => handle table request = .portal table.portalHtml
  | .route i => ∃ r, table.routes[i]? = some r ∧
      handle table request = if isWebsocketUpgrade request then .websocket r else .http r
  | .notFound => handle table request = .notFound

variable {G : Glob}

theorem rsplitOnce_none {cs : List Char} {sep : Char} (h : sep ∉ cs) : rsplitOnce sep cs = none := by
  have hbefore : ∀ c ∈ cs.reverse, decide (c ≠ sep) = true := by
    intro c hc
    simpa using fun he : c = sep => h (he ▸ List.mem_reverse.mp hc)
  have hall : (cs.reverse ++ []).dropWhile (· ≠ sep) = [] := List.dropWhile_append_of_pos hbefore
  rw [List.append_nil] at hall
  rw [rsplitOnce, hall]

theorem stripPort_literal {inner : List Char} (h : ']' ∉ inner) (rest : List Char) :
    stripPort (.ofList ('[' :: (inner ++ ']' :: rest))) = .ofList ('[' :: (inner ++ [']'])) := by
  have htake : ('[' :: (inner ++ ']' :: rest)).takeWhile (· ≠ ']') = '[' :: inner := by
    rw [List.takeWhile_cons_of_pos (by decide), List.takeWhile_append_of_pos]
    · simp
    · intro c hc
      simpa using fun he : c = ']' => h (he ▸ hc)
  rw [stripPort, String.toList_ofList, if_pos (by simp), if_pos (by simp), htake]
  rfl

/-- Taking the port off a text leaves the host that the text stands for. -/
theorem stripPort_eq {text h : String} (hs : StandsFor text h) : stripPort text = h := by
  obtain ⟨hname | ⟨inner, hl, hinner⟩, hport⟩ := hs
  · obtain ⟨hcolon, hhead⟩ := hname
    rcases hport with rfl | ⟨port, hport, rfl⟩
    · rw [stripPort, if_neg hhead, rsplitOnce_none hcolon]
    · exact stripPort_port hhead hport
  · have hh : h = .ofList ('[' :: (inner ++ [']'])) := by rw [← hl, String.ofList_toList]
    rcases hport with rfl | ⟨port, _, rfl⟩
    · rw [hh]
      exact stripPort_literal hinner []
    · have htext : h ++ ":" ++ port = .ofList ('[' :: (inner ++ ']' :: (':' :: port.toList))) := by
        refine String.ext ?_
        simp [hl]
      rw [htext, stripPort_literal hinner]
      exact hh.symm

theorem accepts_iff (hG : EscapesLiterally G) (pattern host : String) :
    G.matchesText (G.compile pattern) host = true ↔ Accepts G pattern host := by
  unfold Glob.compile Accepts
  cases hn : G.new pattern with
  | some compiled => simp
  | none =>
      have hsome := Option.some_get (G.new_escape pattern)
      simp [hG pattern _ host hsome.symm]

theorem exactIndex_wildcard (entries : List (String × Nat)) (m : HostMatcher G) {host : String}
    (hw : isWildcardHost host = true) :
    (entries.foldl HostMatcher.insertHost m).exactIndex host = m.exactIndex host := by
  induction entries generalizing m with
  | nil => rfl
  | cons entry rest ih =>
      rw [List.foldl_cons, ih, HostMatcher.insertHost]
      by_cases hp : isWildcardHost (toAsciiLowercase entry.1) = true
      · rw [if_pos hp]
        rfl
      · have hne : toAsciiLowercase entry.1 ≠ host := fun he => hp (he ▸ hw)
        rw [if_neg hp]
        split
        · rfl
        · simp [HostMatcher.exactIndex, List.find?_append, hne]

def exactly (h pattern : String) : Bool := !isWildcardHost pattern && eqIgnoreAsciiCase pattern h

def byWildcard (G : Glob) (h pattern : String) : Bool :=
  isWildcardHost pattern && G.matchesText (G.compile (toAsciiLowercase pattern)) (toAsciiLowercase h)

theorem exactIndex_lower (routes : List ResolvedRoute) (h : String) :
    (HostMatcher.new G routes).exactIndex (toAsciiLowercase h) =
      routes.findIdx? (fun r => r.hostPatterns.any (exactly h)) := by
  have hsame : ∀ pattern, toAsciiLowercase pattern = toAsciiLowercase h →
      isWildcardHost pattern = isWildcardHost h := by
    intro pattern he
    rw [← isWildcard_lower pattern, he, isWildcard_lower]
  by_cases hw : isWildcardHost h = true
  · rw [HostMatcher.new, exactIndex_wildcard _ _ ((isWildcard_lower h).trans hw)]
    refine (List.findIdx?_eq_none_iff.mpr ?_).symm
    intro r _
    refine Bool.eq_false_iff.mpr fun hany => ?_
    obtain ⟨pattern, _, hp⟩ := List.any_eq_true.mp hany
    simp only [exactly, eqIgnoreAsciiCase, Bool.and_eq_true, Bool.not_eq_true', beq_iff_eq] at hp
    rw [hsame pattern hp.2, hw] at hp
    cases hp.1
  · have hw : isWildcardHost h = false := Bool.not_eq_true _ ▸ hw
    rw [exactIndex_new routes ((isWildcard_lower h).trans hw)]
    congr 1
    funext r
    simp only [lists]
    congr 1
    funext pattern
    rw [exactly, eqIgnoreAsciiCase]
    by_cases he : toAsciiLowercase pattern = toAsciiLowercase h
    · simp [he, hsame pattern he, hw]
    · simp [he]

theorem wildcards_foldl (entries : List (String × Nat)) (m : HostMatcher G) :
    (entries.foldl HostMatcher.insertHost m).wildcards =
      m.wildcards ++ (entries.filter (fun entry => isWildcardHost entry.1)).map
        (fun entry => (G.compile (toAsciiLowercase entry.1), entry.2)) := by
  induction entries generalizing m with
  | nil => simp
  | cons entry rest ih =>
      rw [List.foldl_cons, ih, List.filter_cons, HostMatcher.insertHost]
      simp only [isWildcard_lower]
      by_cases hw : isWildcardHost entry.1 = true
      · simp [hw]
      · simp only [hw, Bool.false_eq_true, if_false]
        split <;> rfl

theorem wildcardIndex_lower (routes : List ResolvedRoute) (h : String) :
    ((HostMatcher.new G routes).wildcards.find?
        (fun entry => G.matchesText entry.1 (toAsciiLowercase h))).map Prod.snd =
      routes.findIdx? (fun r => r.hostPatterns.any (byWildcard G h)) := by
  have hentries := find?_hostEntries (byWildcard G h) routes 0
  simp only [Nat.add_zero, Option.map_id'] at hentries
  rw [HostMatcher.new, wildcards_foldl, List.nil_append, List.find?_map, List.find?_filter,
    Option.map_map, ← hentries, HostMatcher.hostEntries]
  simp only [byWildcard, Function.comp_def, Bool.decide_and, Bool.decide_eq_true]

theorem findIdx?_least {routes : List ResolvedRoute} {q : ResolvedRoute → Bool} {P : ResolvedRoute → Prop}
    (hq : ∀ r, q r = true ↔ P r) {i : Nat} (h : routes.findIdx? q = some i) : Least P routes i := by
  obtain ⟨hi, hfirst, hbefore⟩ := List.findIdx?_eq_some_iff_getElem.mp h
  refine ⟨⟨routes[i], List.getElem?_eq_getElem hi, (hq _).mp hfirst⟩, ?_⟩
  intro j r hj hr
  obtain ⟨_, rfl⟩ := List.getElem?_eq_some_iff.mp hr
  exact fun hp => hbefore j hj ((hq _).mpr hp)

theorem findIdx?_absent {routes : List ResolvedRoute} {q : ResolvedRoute → Bool} {P : ResolvedRoute → Prop}
    (hq : ∀ r, q r = true ↔ P r) (h : routes.findIdx? q = none) : ∀ r ∈ routes, ¬ P r := by
  intro r hr hp
  have hfalse := List.findIdx?_eq_none_iff.mp h r hr
  rw [(hq r).mpr hp] at hfalse
  cases hfalse

theorem any_exactly (h : String) (r : ResolvedRoute) :
    r.hostPatterns.any (exactly h) = true ↔ ListsExactly h r := by
  simp [exactly, ListsExactly, List.any_eq_true]

theorem any_byWildcard (hG : EscapesLiterally G) (h : String) (r : ResolvedRoute) :
    r.hostPatterns.any (byWildcard G h) = true ↔ MatchesByWildcard G h r := by
  simp [byWildcard, MatchesByWildcard, List.any_eq_true, accepts_iff hG]

theorem Least.unique {P : ResolvedRoute → Prop} {routes : List ResolvedRoute} {i j : Nat}
    (hi : Least P routes i) (hj : Least P routes j) : i = j := by
  obtain ⟨⟨r, hr, hp⟩, hbefore⟩ := hi
  obtain ⟨⟨r', hr', hp'⟩, hbefore'⟩ := hj
  rcases Nat.lt_trichotomy i j with hlt | heq | hlt
  · exact absurd hp (hbefore' i r hlt hr)
  · exact heq
  · exact absurd hp' (hbefore j r' hlt hr')

theorem Least.present {P : ResolvedRoute → Prop} {routes : List ResolvedRoute} {i : Nat}
    (hi : Least P routes i) : ∃ r ∈ routes, P r := by
  obtain ⟨⟨r, hr, hp⟩, _⟩ := hi
  exact ⟨r, List.mem_of_getElem? hr, hp⟩

/-- The scan has one outcome. -/
theorem Rule.unique {routes : List ResolvedRoute} {h : String} {o o' : Outcome} (ho : Rule G routes h o)
    (ho' : Rule G routes h o') : o = o' := by
  have habsent : ∀ {P : ResolvedRoute → Prop} {i}, (∀ r ∈ routes, ¬ P r) → ¬ Least P routes i := by
    intro P i hno hi
    obtain ⟨r, hr, hp⟩ := hi.present
    exact hno r hr hp
  cases ho with
  | portal hl =>
      cases ho' with
      | portal => rfl
      | exact hl' | wildcard hl' | notFound hl' =>
          rw [hl] at hl'
          cases hl'
  | exact hl hi =>
      cases ho' with
      | portal hl' =>
          rw [hl] at hl'
          cases hl'
      | exact _ hj => rw [hi.unique hj]
      | wildcard _ he | notFound _ he => exact absurd hi (habsent he)
  | wildcard hl he hi =>
      cases ho' with
      | portal hl' =>
          rw [hl] at hl'
          cases hl'
      | exact _ hj => exact absurd hj (habsent he)
      | wildcard _ _ hj => rw [hi.unique hj]
      | notFound _ _ hw => exact absurd hi (habsent hw)
  | notFound hl he hw =>
      cases ho' with
      | portal hl' =>
          rw [hl] at hl'
          cases hl'
      | exact _ hj => exact absurd hj (habsent he)
      | wildcard _ _ hj => exact absurd hj (habsent hw)
      | notFound => rfl

theorem find_some (hG : EscapesLiterally G) {routes : List ResolvedRoute} {h : String} {i : Nat}
    (hl : eqIgnoreAsciiCase h "localhost" = false) (hfind : (HostMatcher.new G routes).find h = some i) :
    Rule G routes h (.route i) := by
  simp only [HostMatcher.find, exactIndex_lower, wildcardIndex_lower] at hfind
  split at hfind
  · rename_i index hexact
    cases hfind
    exact .exact hl (findIdx?_least (any_exactly h) hexact)
  · rename_i hexact
    exact .wildcard hl (findIdx?_absent (any_exactly h) hexact)
      (findIdx?_least (any_byWildcard hG h) hfind)

theorem find_none (hG : EscapesLiterally G) {routes : List ResolvedRoute} {h : String}
    (hl : eqIgnoreAsciiCase h "localhost" = false) (hfind : (HostMatcher.new G routes).find h = none) :
    Rule G routes h .notFound := by
  simp only [HostMatcher.find, exactIndex_lower, wildcardIndex_lower] at hfind
  split at hfind
  · cases hfind
  · rename_i hexact
    exact .notFound hl (findIdx?_absent (any_exactly h) hexact)
      (findIdx?_absent (any_byWildcard hG h) hfind)

/-- A request for a host is answered as the scan says. -/
theorem handle_rule (hG : EscapesLiterally G) (routes : List ResolvedRoute) (httpPort : Port)
    {request : Request} {h : String} (hs : StandsFor (hostText request) h) :
    ∃ outcome, Rule G routes h outcome ∧ Answered (RouteTable.new G httpPort routes) request outcome := by
  have hhost : requestHost request = h := stripPort_eq hs
  cases hl : eqIgnoreAsciiCase h "localhost" with
  | true => exact ⟨.portal, .portal hl, by simp [Answered, handle, hhost, hl]⟩
  | false =>
      cases hfind : (HostMatcher.new G routes).find h with
      | none =>
          refine ⟨.notFound, find_none hG hl hfind, ?_⟩
          simp [Answered, handle, hhost, hl, RouteTable.find, RouteTable.new, hfind]
      | some i =>
          have hrule := find_some hG hl hfind
          obtain ⟨r, hr⟩ : ∃ r, routes[i]? = some r := by
            cases hrule with
            | exact _ hi => exact ⟨_, hi.1.choose_spec.1⟩
            | wildcard _ _ hi => exact ⟨_, hi.1.choose_spec.1⟩
          refine ⟨.route i, hrule, r, hr, ?_⟩
          simp [handle, hhost, hl, RouteTable.find, RouteTable.new, hfind, hr]

def SamePatterns (r r' : ResolvedRoute) : Prop :=
  r.hostPatterns.map toAsciiLowercase = r'.hostPatterns.map toAsciiLowercase

def lowered (routes : List ResolvedRoute) : List (List String) :=
  routes.map (fun r => r.hostPatterns.map toAsciiLowercase)

theorem lowered_get {routes routes' : List ResolvedRoute} (ha : lowered routes = lowered routes') {i : Nat}
    {r : ResolvedRoute} (hr : routes[i]? = some r) : ∃ r', routes'[i]? = some r' ∧ SamePatterns r r' := by
  have hi := congrArg (fun l => l[i]?) ha
  simp only [lowered, List.getElem?_map, hr, Option.map_some] at hi
  obtain ⟨r', hr', he⟩ := Option.map_eq_some_iff.mp hi.symm
  exact ⟨r', hr', he.symm⟩

theorem lowered_pattern {r r' : ResolvedRoute} (hp : SamePatterns r r') {pattern : String}
    (h : pattern ∈ r.hostPatterns) : ∃ pattern' ∈ r'.hostPatterns,
      toAsciiLowercase pattern' = toAsciiLowercase pattern ∧
        isWildcardHost pattern' = isWildcardHost pattern := by
  have hm := List.mem_map_of_mem (f := toAsciiLowercase) h
  rw [hp] at hm
  obtain ⟨pattern', hmem, he⟩ := List.mem_map.mp hm
  exact ⟨pattern', hmem, he, by rw [← isWildcard_lower pattern', he, isWildcard_lower]⟩

section

variable {h h' : String} {r r' : ResolvedRoute}

theorem ListsExactly.alike (hh : toAsciiLowercase h = toAsciiLowercase h') (hp : SamePatterns r r')
    (hl : ListsExactly h r) : ListsExactly h' r' := by
  obtain ⟨pattern, hmem, hw, he⟩ := hl
  obtain ⟨pattern', hmem', hlow, hwild⟩ := lowered_pattern hp hmem
  refine ⟨pattern', hmem', hwild.trans hw, ?_⟩
  rwa [eqIgnoreAsciiCase, hlow, ← hh]

theorem MatchesByWildcard.alike (hh : toAsciiLowercase h = toAsciiLowercase h') (hp : SamePatterns r r')
    (hm : MatchesByWildcard G h r) : MatchesByWildcard G h' r' := by
  obtain ⟨pattern, hmem, hw, he⟩ := hm
  obtain ⟨pattern', hmem', hlow, hwild⟩ := lowered_pattern hp hmem
  refine ⟨pattern', hmem', hwild.trans hw, ?_⟩
  rwa [hlow, ← hh]

end

section

variable {P Q : ResolvedRoute → Prop} {routes routes' : List ResolvedRoute}

theorem absent_alike (ha : lowered routes = lowered routes')
    (hPQ : ∀ r r', SamePatterns r r' → (P r ↔ Q r')) (hno : ∀ r ∈ routes, ¬ P r) : ∀ r ∈ routes', ¬ Q r := by
  intro r' hr' hq
  obtain ⟨i, hi⟩ := List.getElem?_of_mem hr'
  obtain ⟨r, hr, hsame⟩ := lowered_get ha.symm hi
  exact hno r (List.mem_of_getElem? hr) ((hPQ r r' hsame.symm).mpr hq)

theorem Least.alike (ha : lowered routes = lowered routes')
    (hPQ : ∀ r r', SamePatterns r r' → (P r ↔ Q r')) {i : Nat} (hi : Least P routes i) : Least Q routes' i := by
  obtain ⟨⟨r, hr, hp⟩, hbefore⟩ := hi
  obtain ⟨r', hr', hsame⟩ := lowered_get ha hr
  refine ⟨⟨r', hr', (hPQ r r' hsame).mp hp⟩, ?_⟩
  intro j s' hj hs' hq
  obtain ⟨s, hs, hsame'⟩ := lowered_get ha.symm hs'
  exact hbefore j s hj hs ((hPQ s s' hsame'.symm).mpr hq)

end

/-- The scan does not see the letter case of the host or of the patterns. -/
theorem Rule.alike {routes routes' : List ResolvedRoute} (ha : lowered routes = lowered routes')
    {h h' : String} (hh : toAsciiLowercase h = toAsciiLowercase h') {o : Outcome} (ho : Rule G routes h o) :
    Rule G routes' h' o := by
  have hlocal : eqIgnoreAsciiCase h' "localhost" = eqIgnoreAsciiCase h "localhost" := by
    rw [eqIgnoreAsciiCase, eqIgnoreAsciiCase, hh]
  have hexact : ∀ r r', SamePatterns r r' → (ListsExactly h r ↔ ListsExactly h' r') :=
    fun _ _ hp => ⟨fun hl => hl.alike hh hp, fun hl => hl.alike hh.symm hp.symm⟩
  have hwild : ∀ r r', SamePatterns r r' → (MatchesByWildcard G h r ↔ MatchesByWildcard G h' r') :=
    fun _ _ hp => ⟨fun hm => hm.alike hh hp, fun hm => hm.alike hh.symm hp.symm⟩
  cases ho with
  | portal hl => exact .portal (hlocal.trans hl)
  | exact hl hi => exact .exact (hlocal.trans hl) (hi.alike ha hexact)
  | wildcard hl he hi => exact .wildcard (hlocal.trans hl) (absent_alike ha hexact he) (hi.alike ha hwild)
  | notFound hl he hw =>
      exact .notFound (hlocal.trans hl) (absent_alike ha hexact he) (absent_alike ha hwild hw)

/-- A request for a host is answered by the one outcome of the scan, which names a
route of the list, and so is a request for the same host on another port, in
another letter case, or among patterns in another letter case. -/
theorem handle_by_rule (G : Glob) (hG : EscapesLiterally G) (routes : List ResolvedRoute) (httpPort : Port)
    (request : Request) (h : String) (hs : StandsFor (hostText request) h) :
    ∃ outcome, (∀ o, Rule G routes h o ↔ o = outcome) ∧
      Answered (RouteTable.new G httpPort routes) request outcome ∧
      (∀ i, outcome = .route i → i < routes.length) ∧
      ∀ routes' httpPort' request' h', lowered routes = lowered routes' →
        toAsciiLowercase h = toAsciiLowercase h' → StandsFor (hostText request') h' →
        Answered (RouteTable.new G httpPort' routes') request' outcome := by
  obtain ⟨outcome, hrule, hanswered⟩ := handle_rule hG routes httpPort hs
  refine ⟨outcome, ?_, hanswered, ?_, ?_⟩
  · intro o
    constructor
    · intro ho
      exact ho.unique hrule
    · rintro rfl
      exact hrule
  · rintro i rfl
    obtain ⟨r, hr, _⟩ := hanswered
    exact (List.getElem?_eq_some_iff.mp hr).1
  · intro routes' httpPort' request' h' ha hh hs'
    obtain ⟨outcome', hrule', hanswered'⟩ := handle_rule hG routes' httpPort' hs'
    rw [(hrule.alike ha hh).unique hrule']
    exact hanswered'

theorem escapesLiterally_literalGlob : EscapesLiterally literalGlob := by
  intro text compiled host hc
  cases hc
  simp [literalGlob, eq_comm]

theorem handle_by_rule_app : Answered portalRoutes appRequest (.route 0) := by
  obtain ⟨outcome, hrule, hanswered, _, _⟩ := handle_by_rule literalGlob escapesLiterally_literalGlob
    portalRoutes.routes headerPort appRequest "App.localhost"
    ⟨.inl ⟨by decide, by decide⟩, .inr ⟨"2800", by decide, rfl⟩⟩
  have hroute : Rule literalGlob portalRoutes.routes "App.localhost" (.route 0) := by
    refine .exact rfl ⟨⟨_, rfl, "App.localhost", by decide, by decide, by decide⟩, ?_⟩
    intro j _ hj
    omega
  rw [(hrule _).mp hroute]
  exact hanswered

end LocalDevProxy.HostRule
