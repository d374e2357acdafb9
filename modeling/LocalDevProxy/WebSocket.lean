import LocalDevProxy.HopByHop
import LocalDevProxy.Lib.Utf8

namespace LocalDevProxy.WebSocket

open Lib.Utf8 Text Routes Upstream HopByHop
open Proxy (HeaderValue)

/-- The value takes the place of all that the name had. -/
def insert (headers : HeaderMap) (name : String) (value : HeaderValue) : HeaderMap :=
  headers.remove name ++ [(name, value)]

def containsKey (headers : HeaderMap) (name : String) : Bool := headers.any fun entry => entry.1 = name

def isValid (b : UInt8) : Prop := (32 ≤ b ∧ b ≠ 127) ∨ b = 9

instance : DecidablePred isValid := fun b => inferInstanceAs (Decidable ((32 ≤ b ∧ b ≠ 127) ∨ b = 9))

theorem valid_of_all {bytes : List UInt8} (h : bytes.all (fun b => isValid b) = true) : ∀ b ∈ bytes, isValid b := by
  intro b hb
  exact of_decide_eq_true (List.all_eq_true.mp h b hb)

/-- A text can be a value when it has no control character but the tab. -/
def fromStr (text : String) : Option HeaderValue :=
  let bytes := text.toByteArray.data.toList
  if h : bytes.all (fun b => isValid b) = true then some ⟨bytes, valid_of_all h⟩ else none

def upgradeValue : HeaderValue := textValue "upgrade" (by decide)

def websocketValue : HeaderValue := textValue "websocket" (by decide)

/-- The header that names the target, for a request that names no host. -/
def withHost (target : ResolvedTarget) (headers : HeaderMap) : HeaderMap :=
  if containsKey headers "host" then headers
  else
    match fromStr (targetAuthority target) with
    | some value => insert headers "host" value
    | none => headers

def upgradeHeaders (target : ResolvedTarget) (headers : HeaderMap) : HeaderMap :=
  withHost target
    (insert (insert (stripHopByHop headers) "connection" upgradeValue) "upgrade" websocketValue)

def switchingProtocols : Nat := 101

structure Answer (γ : Type) where
  status : Nat
  headers : HeaderMap
  body : γ

/-- What is sent back: an answer of the target as it is but without a body, one with
its own headers left out, or that there is none. -/
inductive Reply (γ : Type)
  | switched (headers : HeaderMap)
  | relayed (answer : Answer γ)
  | badGateway

/-- What is sent to the target, what is sent back, and whether a tunnel is opened. -/
structure Outcome (β γ : Type) where
  sent : Option (Request (List Char) β)
  reply : Reply γ
  tunnel : Bool

variable {β γ δ : Type}

def upgradeRequest (target : ResolvedTarget) (request : Request Uri (β × δ)) : Request (List Char) β :=
  ⟨request.uri.pathAndQuery.getD ['/'], upgradeHeaders target request.headers, request.rest.1⟩

/-- Whether the connection below a request, and the one below an answer, is handed over. -/
structure Upgrades (β γ δ : Type) where
  client : Request Uri (β × δ) → Bool
  upstream : Answer γ → Bool

/-- Both connections are handed over, and so become a tunnel. -/
def Upgrades.tryJoin (upgrades : Upgrades β γ δ) (request : Request Uri (β × δ)) (answer : Answer γ) : Bool :=
  upgrades.client request && upgrades.upstream answer

/-- How the target is asked is given. A socket is a target on Unix only. -/
def proxyWebsocket (onUnix : Bool) (upgrades : Upgrades β γ δ)
    (openUpgrade : ResolvedTarget → Request (List Char) β → Option (Answer γ)) (request : Request Uri (β × δ))
    (target : ResolvedTarget) : Outcome β γ :=
  let upstreamRequest := upgradeRequest target request
  match target, onUnix with
  | .unix _, false => ⟨none, .badGateway, false⟩
  | _, _ =>
      match openUpgrade target upstreamRequest with
      | none => ⟨some upstreamRequest, .badGateway, false⟩
      | some answer =>
          if answer.status = switchingProtocols then
            ⟨some upstreamRequest, .switched answer.headers, upgrades.tryJoin request answer⟩
          else
            ⟨some upstreamRequest, .relayed { answer with headers := stripHopByHop answer.headers }, false⟩

def uriPath (uri : Uri) : List Char := uri.pathAndQueryText.takeWhile (· ≠ '?')

def routed (request : Request Uri β) : Proxy.Request :=
  ⟨request.headers, ⟨if request.uri.authority = [] then none else some (.ofList request.uri.authority),
    .ofList (uriPath request.uri)⟩⟩

inductive Response (β γ δ : Type)
  | page (html : String)
  | notFound
  | websocket (outcome : Outcome β γ)
  | http (sent : Option (Request String (β × δ))) (reply : Upstream.Reply γ)

def handle {G : Glob} (onUnix : Bool) (accepts : String → Bool) (upgrades : Upgrades β γ δ)
    (openUpgrade : ResolvedTarget → Request (List Char) β → Option (Answer γ))
    (send : ResolvedTarget → Request String (β × δ) → Option (Upstream.Response γ)) (table : RouteTable G)
    (request : Request Uri (β × δ)) : Response β γ δ :=
  match Proxy.handle table (routed request) with
  | .portal html => .page html
  | .notFound => .notFound
  | .websocket route => .websocket (proxyWebsocket onUnix upgrades openUpgrade request route.target)
  | .http route =>
      let (sent, reply) := proxyHttp onUnix accepts send request route.target
      .http sent reply

def Response.tunnel : Response β γ δ → Bool
  | .websocket outcome => outcome.tunnel
  | _ => false

theorem values_append (headers others : HeaderMap) (name : String) :
    HeaderMap.values (headers ++ others) name = headers.values name ++ others.values name := by
  rw [HeaderMap.values, List.filter_append, List.map_append]
  rfl

theorem values_single_self (name : String) (value : HeaderValue) :
    HeaderMap.values [(name, value)] name = [value] := by
  simp [HeaderMap.values]

theorem values_single_of_ne {name other : String} (h : other ≠ name) (value : HeaderValue) :
    HeaderMap.values [(name, value)] other = [] := by
  simp [HeaderMap.values, h.symm]

theorem values_insert_self (headers : HeaderMap) (name : String) (value : HeaderValue) :
    (insert headers name value).values name = [value] := by
  rw [insert, values_append, values_remove_self, values_single_self, List.nil_append]

theorem values_insert_of_ne (headers : HeaderMap) {name other : String} (h : other ≠ name) (value : HeaderValue) :
    (insert headers name value).values other = headers.values other := by
  rw [insert, values_append, values_remove_of_ne headers h, values_single_of_ne h, List.append_nil]

theorem containsKey_eq_false {headers : HeaderMap} {name : String} :
    containsKey headers name = false ↔ headers.values name = [] := by
  simp [containsKey, HeaderMap.values]

theorem withHost_of_ne (target : ResolvedTarget) (headers : HeaderMap) {name : String} (h : name ≠ "host") :
    (withHost target headers).values name = headers.values name := by
  unfold withHost
  split
  · rfl
  · cases fromStr (targetAuthority target) with
    | none => rfl
    | some value => exact values_insert_of_ne headers h value

theorem withHost_host (target : ResolvedTarget) (headers : HeaderMap) :
    (withHost target headers).values "host" =
      if headers.values "host" = [] then (fromStr (targetAuthority target)).toList else headers.values "host" := by
  unfold withHost
  cases hkey : containsKey headers "host" with
  | true =>
      have hnonempty : headers.values "host" ≠ [] := by
        intro h
        rw [containsKey_eq_false.mpr h] at hkey
        cases hkey
      rw [if_neg hnonempty]
      rfl
  | false =>
      have hempty := containsKey_eq_false.mp hkey
      rw [if_pos hempty]
      cases fromStr (targetAuthority target) with
      | none => exact hempty
      | some value => exact values_insert_self headers "host" value

/-- The headers of a handshake: one of Connection and of Upgrade, none of the others
about the connection, the host of the client or else the target, and the rest as it was. -/
structure Handshake (target : ResolvedTarget) (original sent : HeaderMap) : Prop where
  connection : sent.values "connection" = [upgradeValue]
  upgrade : sent.values "upgrade" = [websocketValue]
  removed : ∀ name ∈ hopByHop, name ≠ "connection" → name ≠ "upgrade" → sent.values name = []
  host : ∃ value, value.bytes = (targetAuthority target).toByteArray.data.toList ∧
    sent.values "host" = if original.values "host" = [] then [value] else original.values "host"
  oneHost : (original.values "host").length ≤ 1 → (sent.values "host").length = 1
  kept : ∀ name, name ∉ hopByHop → name ≠ "host" → sent.values name = original.values name

/-- The authority of a target can be a value. -/
theorem fromStr_authority {target : ResolvedTarget} (h : Allowed target) :
    ∃ value, fromStr (targetAuthority target) = some value ∧
      value.bytes = (targetAuthority target).toByteArray.data.toList := by
  have hvalid : (targetAuthority target).toByteArray.data.toList.all (fun b => isValid b) = true := by
    rw [data_toByteArray, List.all_eq_true]
    intro b hb
    obtain ⟨c, hc, hbyte⟩ := List.mem_flatMap.mp hb
    have hplain : 32 ≤ c.val.toNat ∧ c.val.toNat < 127 := by
      rcases mem_targetAuthority h hc with hdigit | hmem
      · obtain ⟨hlow, hhigh⟩ := Char.isDigit_iff_toNat.mp hdigit
        exact ⟨Nat.le_trans (by decide) hlow, Nat.lt_of_le_of_lt hhigh (by decide)⟩
      · have hall : ∀ c ∈ "[]:.localhst".toList, 32 ≤ c.val.toNat ∧ c.val.toNat < 127 :=
          List.all_iff_forall_prop.mp (by decide)
        exact hall c hmem
    have hascii : c.val ≤ 127 := UInt32.le_iff_toNat_le.mpr (Nat.le_of_lt hplain.2)
    rw [encode_ascii hascii, List.mem_singleton] at hbyte
    have hnat : b.toNat = c.val.toNat := by
      rw [hbyte, UInt32.toNat_toUInt8]
      omega
    refine decide_eq_true (.inl ⟨?_, fun he => ?_⟩)
    · rw [UInt8.le_iff_toNat_le, hnat]
      exact hplain.1
    · rw [he] at hnat
      exact absurd hplain.2 (by rw [← hnat]; decide)
  exact ⟨_, dif_pos hvalid, rfl⟩

theorem upgradeHeaders_handshake {target : ResolvedTarget} (h : Allowed target) (headers : HeaderMap) :
    Handshake target headers (upgradeHeaders target headers) := by
  have hstripped := stripHopByHop_stripped headers
  have hhost : "host" ∉ hopByHop := by decide
  obtain ⟨value, hvalue, hbytes⟩ := fromStr_authority h
  have hshown : (upgradeHeaders target headers).values "host" =
      if headers.values "host" = [] then [value] else headers.values "host" := by
    rw [upgradeHeaders, withHost_host, values_insert_of_ne _ (by decide), values_insert_of_ne _ (by decide),
      hstripped.kept "host" hhost, hvalue]
    rfl
  constructor
  · rw [upgradeHeaders, withHost_of_ne _ _ (by decide), values_insert_of_ne _ (by decide), values_insert_self]
  · rw [upgradeHeaders, withHost_of_ne _ _ (by decide), values_insert_self]
  · intro name hname hconnection hupgrade
    have hne : name ≠ "host" := fun h => hhost (h ▸ hname)
    rw [upgradeHeaders, withHost_of_ne _ _ hne, values_insert_of_ne _ hupgrade, values_insert_of_ne _ hconnection]
    exact hstripped.removed name hname
  · exact ⟨value, hbytes, hshown⟩
  · intro hone
    rw [hshown]
    split
    · rfl
    · rename_i hgiven
      exact Nat.le_antisymm hone (List.length_pos_iff.mpr hgiven)
  · intro name hname hne
    have hconnection : name ≠ "connection" := fun h => hname (h ▸ by decide)
    have hupgrade : name ≠ "upgrade" := fun h => hname (h ▸ by decide)
    rw [upgradeHeaders, withHost_of_ne _ _ hne, values_insert_of_ne _ hupgrade, values_insert_of_ne _ hconnection]
    exact hstripped.kept name hname

inductive Upgraded (onUnix : Bool) (upgrades : Upgrades β γ δ)
    (openUpgrade : ResolvedTarget → Request (List Char) β → Option (Answer γ)) (request : Request Uri (β × δ))
    (target : ResolvedTarget) : Outcome β γ → Prop
  | unsupported : ¬ Supported onUnix target →
      Upgraded onUnix upgrades openUpgrade request target ⟨none, .badGateway, false⟩
  | unreachable : openUpgrade target (upgradeRequest target request) = none →
      Upgraded onUnix upgrades openUpgrade request target ⟨some (upgradeRequest target request), .badGateway, false⟩
  | switched (answer : Answer γ) : Supported onUnix target →
      openUpgrade target (upgradeRequest target request) = some answer → answer.status = switchingProtocols →
      Upgraded onUnix upgrades openUpgrade request target
        ⟨some (upgradeRequest target request), .switched answer.headers, upgrades.tryJoin request answer⟩
  | refused (answer : Answer γ) : openUpgrade target (upgradeRequest target request) = some answer →
      answer.status ≠ switchingProtocols →
      Upgraded onUnix upgrades openUpgrade request target
        ⟨some (upgradeRequest target request),
          .relayed { answer with headers := stripHopByHop answer.headers }, false⟩

theorem supported_tcp (onUnix : Bool) (host : String) (port : Config.Port) :
    Supported onUnix (.tcp host port) := .inr fun _ h => by cases h

theorem proxyWebsocket_upgraded (onUnix : Bool) (upgrades : Upgrades β γ δ)
    (openUpgrade : ResolvedTarget → Request (List Char) β → Option (Answer γ)) (request : Request Uri (β × δ))
    (target : ResolvedTarget) :
    Upgraded onUnix upgrades openUpgrade request target
      (proxyWebsocket onUnix upgrades openUpgrade request target) := by
  have hasked : Supported onUnix target → Upgraded onUnix upgrades openUpgrade request target
      (match openUpgrade target (upgradeRequest target request) with
      | none => ⟨some (upgradeRequest target request), .badGateway, false⟩
      | some answer =>
          if answer.status = switchingProtocols then
            ⟨some (upgradeRequest target request), .switched answer.headers, upgrades.tryJoin request answer⟩
          else
            ⟨some (upgradeRequest target request),
              .relayed { answer with headers := stripHopByHop answer.headers }, false⟩) := by
    intro hsupported
    cases hopen : openUpgrade target (upgradeRequest target request) with
    | none => exact .unreachable hopen
    | some answer =>
        dsimp only
        split
        · rename_i hstatus
          exact .switched answer hsupported hopen hstatus
        · rename_i hstatus
          exact .refused answer hopen hstatus
  cases target with
  | tcp host port => exact hasked (supported_tcp onUnix host port)
  | unix path =>
      cases onUnix with
      | true => exact hasked (.inl rfl)
      | false =>
          refine .unsupported ?_
          rintro (h | h)
          · cases h
          · exact h path rfl

variable {G : Glob}

/-- A request that is answered as an upgrade was dispatched to a route. -/
theorem handle_websocket {onUnix : Bool} {accepts : String → Bool} {upgrades : Upgrades β γ δ}
    {openUpgrade : ResolvedTarget → Request (List Char) β → Option (Answer γ)}
    {send : ResolvedTarget → Request String (β × δ) → Option (Upstream.Response γ)} {table : RouteTable G}
    {request : Request Uri (β × δ)} {outcome : Outcome β γ} :
    handle onUnix accepts upgrades openUpgrade send table request = .websocket outcome ↔
      ∃ route, Proxy.handle table (routed request) = .websocket route ∧
        outcome = proxyWebsocket onUnix upgrades openUpgrade request route.target := by
  unfold handle
  cases Proxy.handle table (routed request) with
  | portal html =>
      constructor
      · intro h
        cases h
      · rintro ⟨_, ⟨⟩, _⟩
  | notFound =>
      constructor
      · intro h
        cases h
      · rintro ⟨_, ⟨⟩, _⟩
  | http route =>
      constructor
      · intro h
        cases h
      · rintro ⟨_, ⟨⟩, _⟩
  | websocket route =>
      constructor
      · intro h
        exact ⟨route, rfl, (Response.websocket.inj h).symm⟩
      · rintro ⟨_, ⟨⟩, rfl⟩
        rfl

/-- Which requests are upgrades: those for a route, not for the portal, that ask for it. -/
theorem dispatched_websocket {table : RouteTable G} {request : Proxy.Request} {route : ResolvedRoute} :
    Proxy.handle table request = .websocket route ↔
      eqIgnoreAsciiCase (Proxy.requestHost request) "localhost" = false ∧
        table.find (Proxy.requestHost request) = some route ∧ Proxy.isWebsocketUpgrade request = true := by
  unfold Proxy.handle
  dsimp only
  cases hlocal : eqIgnoreAsciiCase (Proxy.requestHost request) "localhost" with
  | true => simp
  | false =>
      cases hfind : table.find (Proxy.requestHost request) with
      | none => simp
      | some found =>
          cases hupgrade : Proxy.isWebsocketUpgrade request <;> simp

/-- The request is an upgrade for a route, its target can be asked and agrees, and both connections
are handed over. -/
def Agreed (onUnix : Bool) (upgrades : Upgrades β γ δ)
    (openUpgrade : ResolvedTarget → Request (List Char) β → Option (Answer γ)) (table : RouteTable G)
    (request : Request Uri (β × δ)) : Prop :=
  ∃ route answer, eqIgnoreAsciiCase (Proxy.requestHost (routed request)) "localhost" = false ∧
    table.find (Proxy.requestHost (routed request)) = some route ∧
    Proxy.isWebsocketUpgrade (routed request) = true ∧ Supported onUnix route.target ∧
    openUpgrade route.target (upgradeRequest route.target request) = some answer ∧
    answer.status = switchingProtocols ∧ upgrades.client request = true ∧ upgrades.upstream answer = true

theorem tunnel_iff (onUnix : Bool) (accepts : String → Bool) (upgrades : Upgrades β γ δ)
    (openUpgrade : ResolvedTarget → Request (List Char) β → Option (Answer γ))
    (send : ResolvedTarget → Request String (β × δ) → Option (Upstream.Response γ)) (table : RouteTable G)
    (request : Request Uri (β × δ)) :
    (handle onUnix accepts upgrades openUpgrade send table request).tunnel = true ↔
      Agreed onUnix upgrades openUpgrade table request := by
  constructor
  · intro htunnel
    cases hhandled : handle onUnix accepts upgrades openUpgrade send table request with
    | websocket outcome =>
        obtain ⟨route, hdispatch, houtcome⟩ := handle_websocket.mp hhandled
        obtain ⟨hhost, hfind, hupgrade⟩ := dispatched_websocket.mp hdispatch
        have hended := proxyWebsocket_upgraded onUnix upgrades openUpgrade request route.target
        rw [hhandled] at htunnel
        rw [← houtcome] at hended
        cases hended with
        | switched answer hsupported hopen hstatus =>
            exact ⟨route, answer, hhost, hfind, hupgrade, hsupported, hopen, hstatus, Bool.and_eq_true_iff.mp htunnel⟩
        | unsupported _ => cases htunnel
        | unreachable _ => cases htunnel
        | refused _ _ _ => cases htunnel
    | page html =>
        rw [hhandled] at htunnel
        cases htunnel
    | notFound =>
        rw [hhandled] at htunnel
        cases htunnel
    | http sent reply =>
        rw [hhandled] at htunnel
        cases htunnel
  · rintro ⟨route, answer, hhost, hfind, hupgrade, hsupported, hopen, hstatus, hjoined⟩
    have hdispatch := dispatched_websocket.mpr ⟨hhost, hfind, hupgrade⟩
    rw [handle_websocket.mpr ⟨route, hdispatch, rfl⟩]
    have hended := proxyWebsocket_upgraded onUnix upgrades openUpgrade request route.target
    generalize proxyWebsocket onUnix upgrades openUpgrade request route.target = outcome at hended
    cases hended with
    | switched other _ hother _ =>
        rw [hother] at hopen
        cases hopen
        exact Bool.and_eq_true_iff.mpr hjoined
    | unsupported hno => exact absurd hsupported hno
    | unreachable hnone =>
        rw [hnone] at hopen
        cases hopen
    | refused other hother hne =>
        rw [hother] at hopen
        cases hopen
        exact absurd hstatus hne

/-- What is sent for an upgrade to a target, and what comes back of its answer. -/
structure Relays (onUnix : Bool) (upgrades : Upgrades β γ δ)
    (openUpgrade : ResolvedTarget → Request (List Char) β → Option (Answer γ)) (request : Request Uri (β × δ))
    (target : ResolvedTarget) (outcome : Outcome β γ) : Prop where
  asked : Supported onUnix target → ∃ sent, outcome.sent = some sent
  answered : Supported onUnix target → ∀ answer, openUpgrade target (upgradeRequest target request) = some answer →
    if answer.status = switchingProtocols then outcome.reply = .switched answer.headers
    else ∃ relayed, outcome.reply = .relayed relayed
  sent : ∀ sent ∈ outcome.sent, Handshake target request.headers sent.headers ∧
    sent.uri = request.uri.pathAndQuery.getD ['/'] ∧ sent.rest = request.rest.1
  switched : ∀ headers, outcome.reply = .switched headers → ∃ answer,
    openUpgrade target (upgradeRequest target request) = some answer ∧ headers = answer.headers ∧
      outcome.tunnel = (upgrades.client request && upgrades.upstream answer)
  relayed : ∀ relayed, outcome.reply = .relayed relayed → outcome.tunnel = false ∧ ∃ answer,
    openUpgrade target (upgradeRequest target request) = some answer ∧ answer.status ≠ switchingProtocols ∧
      relayed.status = answer.status ∧ relayed.body = answer.body ∧ Stripped answer.headers relayed.headers

theorem upgraded_relays {onUnix : Bool} {upgrades : Upgrades β γ δ}
    {openUpgrade : ResolvedTarget → Request (List Char) β → Option (Answer γ)} {request : Request Uri (β × δ)}
    {target : ResolvedTarget} {outcome : Outcome β γ} (hallowed : Allowed target)
    (h : Upgraded onUnix upgrades openUpgrade request target outcome) :
    Relays onUnix upgrades openUpgrade request target outcome := by
  have hsent : ∀ sent ∈ some (upgradeRequest target request),
      Handshake target request.headers sent.headers ∧
        sent.uri = request.uri.pathAndQuery.getD ['/'] ∧ sent.rest = request.rest.1 := by
    rintro _ ⟨⟩
    exact ⟨upgradeHeaders_handshake hallowed request.headers, rfl, rfl⟩
  cases h with
  | unsupported hno =>
      exact ⟨fun h => absurd h hno, fun h => absurd h hno, nofun, nofun, nofun⟩
  | unreachable hnone =>
      refine ⟨fun _ => ⟨_, rfl⟩, fun _ answer hanswer => ?_, hsent, nofun, nofun⟩
      rw [hnone] at hanswer
      cases hanswer
  | switched answer _ hopen hstatus =>
      refine ⟨fun _ => ⟨_, rfl⟩, fun _ other hother => ?_, hsent, ?_, nofun⟩
      · obtain rfl := Option.some.inj (hopen.symm.trans hother)
        rw [if_pos hstatus]
      · rintro _ ⟨⟩
        exact ⟨answer, hopen, rfl, rfl⟩
  | refused answer hopen hstatus =>
      refine ⟨fun _ => ⟨_, rfl⟩, fun _ other hother => ?_, hsent, nofun, ?_⟩
      · obtain rfl := Option.some.inj (hopen.symm.trans hother)
        rw [if_neg hstatus]
        exact ⟨_, rfl⟩
      · rintro _ ⟨⟩
        exact ⟨rfl, answer, hopen, hstatus, rfl, rfl, stripHopByHop_stripped answer.headers⟩

theorem find_mem {table : RouteTable G} {host : String} {route : ResolvedRoute} (h : table.find host = some route) :
    route ∈ table.routes := by
  obtain ⟨index, _, hroute⟩ := Option.bind_eq_some_iff.mp h
  exact List.mem_of_getElem? hroute

/-- A tunnel is opened exactly for an upgrade request to a route whose target can be
asked and answers with 101, where both connections are handed over. The target is sent a
handshake, its 101 comes back as it is, and any other answer comes back without the headers of
its connection. -/
theorem websocket_tunnel (onUnix : Bool) (accepts : String → Bool) (upgrades : Upgrades β γ δ)
    (openUpgrade : ResolvedTarget → Request (List Char) β → Option (Answer γ))
    (send : ResolvedTarget → Request String (β × δ) → Option (Upstream.Response γ)) (table : RouteTable G)
    (request : Request Uri (β × δ)) (hallowed : ∀ route ∈ table.routes, Allowed route.target) :
    ((handle onUnix accepts upgrades openUpgrade send table request).tunnel = true ↔
      Agreed onUnix upgrades openUpgrade table request) ∧
    ∀ outcome, handle onUnix accepts upgrades openUpgrade send table request = .websocket outcome →
      ∃ route, table.find (Proxy.requestHost (routed request)) = some route ∧
        Relays onUnix upgrades openUpgrade request route.target outcome := by
  refine ⟨tunnel_iff onUnix accepts upgrades openUpgrade send table request, fun outcome hhandled => ?_⟩
  obtain ⟨route, hdispatch, rfl⟩ := handle_websocket.mp hhandled
  have hfind := (dispatched_websocket.mp hdispatch).2.1
  exact ⟨route, hfind, upgraded_relays (hallowed route (find_mem hfind))
    (proxyWebsocket_upgraded onUnix upgrades openUpgrade request route.target)⟩

def appRoutes : RouteTable literalGlob :=
  .new literalGlob Config.headerPort [⟨"app", ["app.localhost"], appTarget⟩]

def upgrading : Request Uri (Unit × Unit) :=
  ⟨⟨some "http".toList, "app.localhost:2800".toList, "/live?room=1".toList⟩,
    [("upgrade", websocketValue), ("connection", upgradeValue), ("keep-alive", textValue "300" (by decide))], ((), ())⟩

def agreeing : ResolvedTarget → Request (List Char) Unit → Option (Answer Unit) :=
  fun _ _ => some ⟨switchingProtocols, [("upgrade", websocketValue)], ()⟩

def handedOver : Upgrades Unit Unit Unit := ⟨fun _ => true, fun _ => true⟩

theorem appRoutes_allowed : ∀ route ∈ appRoutes.routes, Allowed route.target := by
  intro route hroute host port htarget
  obtain rfl := List.mem_singleton.mp hroute
  cases htarget
  decide

def unasked : ResolvedTarget → Request String (Unit × Unit) → Option (Upstream.Response Unit) := fun _ _ => none

/-- The tunnel is opened, and the target is sent one Host, its own, and the path and query asked for. -/
theorem websocket_tunnel_served :
    ∃ outcome sent,
      handle true (fun _ => true) handedOver agreeing unasked appRoutes upgrading = .websocket outcome ∧
      outcome.tunnel = true ∧ outcome.sent = some sent ∧ sent.uri = "/live?room=1".toList ∧
      (sent.headers.values "host").length = 1 ∧ sent.headers.values "keep-alive" = [] := by
  obtain ⟨hopened, hshown⟩ :=
    websocket_tunnel true (fun _ => true) handedOver agreeing unasked appRoutes upgrading appRoutes_allowed
  have hagreed : Agreed true handedOver agreeing appRoutes upgrading :=
    ⟨_, _, by decide, rfl, by decide, .inl rfl, rfl, rfl, rfl, rfl⟩
  have htunnel := hopened.mpr hagreed
  cases hhandled : handle true (fun _ => true) handedOver agreeing unasked appRoutes upgrading with
  | websocket outcome =>
      rw [hhandled] at htunnel
      obtain ⟨route, _, hrelays⟩ := hshown outcome hhandled
      obtain ⟨sent, hsent⟩ := hrelays.asked (.inl rfl)
      obtain ⟨hhandshake, huri, _⟩ := hrelays.sent sent hsent
      exact ⟨outcome, sent, rfl, htunnel, hsent, huri, hhandshake.oneHost (by decide),
        hhandshake.removed "keep-alive" (by decide) (by decide) (by decide)⟩
  | page html =>
      rw [hhandled] at htunnel
      cases htunnel
  | notFound =>
      rw [hhandled] at htunnel
      cases htunnel
  | http sent reply =>
      rw [hhandled] at htunnel
      cases htunnel

end LocalDevProxy.WebSocket
