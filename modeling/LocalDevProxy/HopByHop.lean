import LocalDevProxy.Upstream

namespace LocalDevProxy.HopByHop

open Text Routes Upstream
open Proxy (HeaderValue)

theorem values_remove_self (headers : HeaderMap) (name : String) : (headers.remove name).values name = [] := by
  rw [HeaderMap.values, HeaderMap.remove, List.filter_filter, List.map_eq_nil_iff, List.filter_eq_nil_iff]
  intro entry _ hboth
  simp at hboth

theorem values_remove_of_ne (headers : HeaderMap) {name other : String} (h : other ≠ name) :
    (headers.remove name).values other = headers.values other := by
  rw [HeaderMap.values, HeaderMap.values, HeaderMap.remove, List.filter_filter]
  refine congrArg _ (List.filter_congr fun entry _ => ?_)
  by_cases he : entry.1 = other
  · simp [he, h]
  · simp [he]

/-- What is removed is gone, and the values of every other name are as before. -/
theorem values_removeAll (names : List String) (headers : HeaderMap) (name : String) :
    (names.foldl HeaderMap.remove headers).values name = if name ∈ names then [] else headers.values name := by
  induction names generalizing headers with
  | nil => rfl
  | cons removed names ih =>
      rw [List.foldl_cons, ih]
      by_cases hname : name ∈ names
      · rw [if_pos hname, if_pos (List.mem_cons_of_mem _ hname)]
      · rw [if_neg hname]
        by_cases he : name = removed
        · rw [he, values_remove_self, if_pos (List.mem_cons_self ..)]
        · rw [values_remove_of_ne headers he, if_neg (by simp [he, hname])]

/-- The forwarded headers are those that are not on the list, with all their values in order. -/
structure Stripped (original forwarded : HeaderMap) : Prop where
  removed : ∀ name ∈ hopByHop, forwarded.values name = []
  kept : ∀ name, name ∉ hopByHop → forwarded.values name = original.values name

theorem stripHopByHop_stripped (headers : HeaderMap) : Stripped headers (stripHopByHop headers) := by
  refine ⟨fun name hname => ?_, fun name hname => ?_⟩
  · rw [stripHopByHop, values_removeAll, if_pos hname]
  · rw [stripHopByHop, values_removeAll, if_neg hname]

def connectionOptions (headers : HeaderMap) : List String :=
  (headers.values "connection").flatMap fun value =>
    ((value.toStr.getD "").toList.splitOn ',').map fun option => toAsciiLowercase (trim (.ofList option))

/-- Whether a header is about the connection of its message only. -/
def ConnectionSpecific (headers : HeaderMap) (name : String) : Prop :=
  name ∈ hopByHop ∨ name ∈ connectionOptions headers

variable {β γ : Type}

def forwarded (target : ResolvedTarget) (request : Request Uri β) : Request String β :=
  ⟨upstreamText target request.uri, stripHopByHop request.headers, request.rest⟩

/-- The URI is not accepted or the target not supported and nothing is sent, or a request with
stripped headers is, and what the target answers is sent back with its headers stripped. -/
theorem proxyHttp_cases (onUnix : Bool) (accepts : String → Bool)
    (send : ResolvedTarget → Request String β → Option (Response γ)) (request : Request Uri β)
    (target : ResolvedTarget) :
    (accepts (upstreamText target request.uri) = false ∨ ¬ Supported onUnix target) ∧
        proxyHttp onUnix accepts send request target = (none, .badGateway) ∨
      send target (forwarded target request) = none ∧
          proxyHttp onUnix accepts send request target = (some (forwarded target request), .badGateway) ∨
      ∃ received, send target (forwarded target request) = some received ∧
        proxyHttp onUnix accepts send request target =
          (some (forwarded target request), .upstream { received with headers := stripHopByHop received.headers }) := by
  rw [proxyHttp, upstreamUri]
  cases haccepts : accepts (upstreamText target request.uri) with
  | false => exact .inl ⟨.inl rfl, rfl⟩
  | true =>
      simp only [if_pos]
      split
      · rename_i path
        refine .inl ⟨.inr ?_, rfl⟩
        rintro (h | h)
        · cases h
        · exact h path rfl
      · refine .inr ?_
        unfold forwarded
        cases send target ⟨upstreamText target request.uri, stripHopByHop request.headers, request.rest⟩ with
        | none => exact .inl ⟨rfl, rfl⟩
        | some received => exact .inr ⟨received, rfl, rfl⟩

/-- In both directions the headers on the list are left out, and every other one,
a header that Connection names included, is forwarded with all its values. A request is
sent where its URI is accepted and the target supported, and what the target answers to
it is returned. -/
theorem proxyHttp_headers (onUnix : Bool) (accepts : String → Bool)
    (send : ResolvedTarget → Request String β → Option (Response γ)) (request : Request Uri β)
    (target : ResolvedTarget) :
    (∀ sent ∈ (proxyHttp onUnix accepts send request target).1, Stripped request.headers sent.headers) ∧
      (∀ response, (proxyHttp onUnix accepts send request target).2 = .upstream response →
        ∃ sent received, (proxyHttp onUnix accepts send request target).1 = some sent ∧
          send target sent = some received ∧ Stripped received.headers response.headers) ∧
      (accepts (upstreamText target request.uri) = true → Supported onUnix target →
        ∃ sent, (proxyHttp onUnix accepts send request target).1 = some sent ∧
          ∀ received, send target sent = some received →
            ∃ response, (proxyHttp onUnix accepts send request target).2 = .upstream response ∧
              response.rest = received.rest) := by
  have hstripped : Stripped request.headers (forwarded target request).headers :=
    stripHopByHop_stripped request.headers
  rcases proxyHttp_cases onUnix accepts send request target with ⟨hnot, hout⟩ | ⟨hsend, hout⟩ | ⟨received, hsend, hout⟩
  · rw [hout]
    refine ⟨fun _ h => (by cases h), fun _ h => (by cases h), fun haccepts hsupported => ?_⟩
    rcases hnot with hnot | hnot
    · rw [haccepts] at hnot
      cases hnot
    · exact absurd hsupported hnot
  · rw [hout]
    refine ⟨fun sent h => ?_, fun _ h => (by cases h), fun _ _ => ⟨_, rfl, fun received h => ?_⟩⟩
    · obtain rfl := Option.some.inj h
      exact hstripped
    · rw [hsend] at h
      cases h
  · rw [hout]
    refine ⟨fun sent h => ?_, fun response h => ?_, fun _ _ => ⟨_, rfl, fun other h => ?_⟩⟩
    · obtain rfl := Option.some.inj h
      exact hstripped
    · obtain rfl := Reply.upstream.inj h
      exact ⟨_, received, rfl, hsend, stripHopByHop_stripped received.headers⟩
    · obtain rfl := Option.some.inj (hsend.symm.trans h)
      exact ⟨_, rfl, rfl⟩

def textValue (text : String)
    (h : text.toByteArray.data.toList.all (fun b => (32 ≤ b ∧ b ≠ 127) ∨ b = 9) = true) : HeaderValue :=
  ⟨text.toByteArray.data.toList, fun b hb => of_decide_eq_true (List.all_eq_true.mp h b hb)⟩

def nominating : Request Uri Unit :=
  ⟨⟨none, [], ['/']⟩, [("connection", textValue "close, X-Hop" (by decide)), ("x-hop", textValue "1" (by decide))], ()⟩

def answering : ResolvedTarget → Request String Unit → Option (Response Unit) :=
  fun _ _ => some ⟨[("connection", textValue "X-Age" (by decide)), ("x-age", textValue "2" (by decide)),
    ("keep-alive", textValue "timeout=5" (by decide))], ()⟩

theorem appPort_range : 1 ≤ 3000 ∧ 3000 ≤ 65535 := by decide

def appTarget : ResolvedTarget := .tcp "localhost" ⟨3000, appPort_range⟩

/-- A header that Connection names passes in both directions, and those on the list in neither. -/
theorem proxyHttp_headers_nominating :
    ∃ sent response, (proxyHttp true (fun _ => true) answering nominating appTarget).1 = some sent ∧
      (proxyHttp true (fun _ => true) answering nominating appTarget).2 = .upstream response ∧
      sent.headers.values "x-hop" = nominating.headers.values "x-hop" ∧ sent.headers.values "connection" = [] ∧
      (response.headers.values "x-age").length = 1 ∧ response.headers.values "keep-alive" = [] := by
  obtain ⟨hsent, hreturned, hasked⟩ :=
    proxyHttp_headers true (fun _ => true) answering nominating appTarget
  obtain ⟨sent, hout, hanswered⟩ := hasked rfl (.inl rfl)
  obtain ⟨response, hreply, _⟩ := hanswered _ rfl
  obtain ⟨_, received, _, hreceived, hstripped⟩ := hreturned response hreply
  have hcarried := hsent sent hout
  obtain rfl := Option.some.inj hreceived
  refine ⟨sent, response, hout, hreply, hcarried.kept "x-hop" (by decide), hcarried.removed "connection" (by decide),
    ?_, hstripped.removed "keep-alive" (by decide)⟩
  rw [hstripped.kept "x-age" (by decide)]
  decide

theorem nominated_header_forwarded :
    ¬ ∀ sent ∈ (proxyHttp (γ := Unit) true (fun _ => true) (fun _ _ => none) nominating
        (.tcp "localhost" ⟨3000, by decide⟩)).1,
      ∀ name, ConnectionSpecific nominating.headers name → sent.headers.values name = [] := by
  intro h
  have hnominated : ConnectionSpecific nominating.headers "x-hop" := .inr (by decide)
  have hgone := h _ rfl "x-hop" hnominated
  exact absurd hgone (by decide)

end LocalDevProxy.HopByHop
