import LocalDevProxy.Upstream
import Mathlib.Data.List.TakeWhile

namespace LocalDevProxy.UpstreamUri

open Text Config Routes Upstream

structure PathQuery where
  path : List Char
  query : Option (List Char)
  pathClean : '?' ∉ path ∧ '#' ∉ path
  queryClean : ∀ text ∈ query, '#' ∉ text

def PathQuery.text (parts : PathQuery) : List Char := parts.path ++ (parts.query.map ('?' :: ·)).getD []

/-- The request targets that an HTTP/1 server accepts. -/
inductive RequestTarget
  | origin (parts : PathQuery) (h : parts.path.head? = some '/')
  | absolute (scheme host : List Char) (parts : PathQuery) (h : ∀ c ∈ parts.path.head?, c = '/')
  | authority (host : List Char) (h : host ≠ [])
  | asterisk

def RequestTarget.uri : RequestTarget → Uri
  | .origin parts _ => ⟨none, [], parts.text⟩
  | .absolute scheme host parts _ => ⟨some scheme, host, parts.text⟩
  | .authority host _ => ⟨none, host, []⟩
  | .asterisk => ⟨none, [], ['*']⟩

def orRoot (path : List Char) : List Char := if path = [] then ['/'] else path

def RequestTarget.path : RequestTarget → List Char
  | .origin parts _ => parts.path
  | .absolute _ _ parts _ => orRoot parts.path
  | .authority _ _ => ['/']
  | .asterisk => ['*']

def RequestTarget.query : RequestTarget → Option (List Char)
  | .origin parts _ => parts.query
  | .absolute _ _ parts _ => parts.query
  | .authority _ _ => none
  | .asterisk => none

def endsAuthority (c : Char) : Bool := c = '/' || c = '?' || c = '#'

def endsPath (c : Char) : Bool := c = '?' || c = '#'

def afterScheme (text : String) : List Char := text.toList.drop "http://".toList.length

def readAuthority (text : String) : List Char := (afterScheme text).takeWhile (!endsAuthority ·)

def readPath (text : String) : List Char :=
  orRoot (((afterScheme text).dropWhile (!endsAuthority ·)).takeWhile (!endsPath ·))

def readQuery (text : String) : Option (List Char) :=
  match ((afterScheme text).dropWhile (!endsAuthority ·)).dropWhile (!endsPath ·) with
  | '?' :: query => some (query.takeWhile (· ≠ '#'))
  | _ => none

/-- A URI, read back, is that of a request at a target. -/
structure GoesTo (target : ResolvedTarget) (request : RequestTarget) (uri : String) : Prop where
  scheme : "http://".toList <+: uri.toList
  authority : readAuthority uri = (targetAuthority target).toList
  path : readPath uri = request.path
  query : readQuery uri = request.query

theorem orRoot_of_head {path : List Char} (h : path.head? = some '/') : orRoot path = path := by
  rw [orRoot, if_neg]
  rintro rfl
  cases h

def root : PathQuery := ⟨['/'], none, by decide, fun _ h => by cases h⟩

/-- Every form but the asterisk is sent with a path or a query, which is its own. -/
theorem pathAndQuery_text {request : RequestTarget} (h : request ≠ .asterisk) :
    ∃ parts : PathQuery, request.uri.pathAndQuery.getD ['/'] = parts.text ∧ parts.text ≠ [] ∧
      (∀ c ∈ parts.path.head?, c = '/') ∧ orRoot parts.path = request.path ∧ parts.query = request.query := by
  have hroot : ∀ c ∈ root.path.head?, c = '/' := fun c hc => (Option.some.inj hc).symm
  cases request with
  | origin parts hpath =>
      have htext : parts.text ≠ [] := by
        intro hnil
        rw [(List.append_eq_nil_iff.mp hnil).1] at hpath
        cases hpath
      refine ⟨parts, ?_, htext, fun c hc => ?_, orRoot_of_head hpath, rfl⟩
      · rw [RequestTarget.uri, Uri.pathAndQuery, if_pos (.inr rfl), if_neg htext, Option.getD_some]
      · rw [hpath] at hc
        exact (Option.some.inj hc).symm
  | absolute scheme host parts hpath =>
      by_cases htext : parts.text = []
      · obtain ⟨hnil, hquery⟩ := List.append_eq_nil_iff.mp htext
        have hnone : parts.query = none := by
          cases hq : parts.query with
          | none => rfl
          | some query =>
              rw [hq] at hquery
              cases hquery
        refine ⟨root, ?_, List.cons_ne_nil _ _, hroot, ?_, hnone.symm⟩
        · rw [RequestTarget.uri, Uri.pathAndQuery, if_pos (.inl rfl), if_pos htext, Option.getD_some]
          rfl
        · rw [RequestTarget.path, hnil]
          rfl
      · refine ⟨parts, ?_, htext, hpath, rfl, rfl⟩
        rw [RequestTarget.uri, Uri.pathAndQuery, if_pos (.inl rfl), if_neg htext, Option.getD_some]
  | authority host hhost =>
      refine ⟨root, ?_, List.cons_ne_nil _ _, hroot, rfl, rfl⟩
      rw [RequestTarget.uri, Uri.pathAndQuery, if_neg (by simpa using hhost), Option.getD_none]
      rfl
  | asterisk => exact absurd rfl h

theorem targetAuthority_clean {target : ResolvedTarget} (h : Allowed target) :
    ∀ c ∈ (targetAuthority target).toList, endsAuthority c = false := by
  intro c hc
  rcases mem_targetAuthority h hc with hdigit | hmem
  · rw [endsAuthority, Bool.or_eq_false_iff, Bool.or_eq_false_iff]
    refine ⟨⟨decide_eq_false ?_, decide_eq_false ?_⟩, decide_eq_false ?_⟩ <;> rintro rfl <;> cases hdigit
  · have hall : ∀ c ∈ "[]:.localhst".toList, endsAuthority c = false := List.all_iff_forall_prop.mp (by decide)
    exact hall c hmem

variable {target : ResolvedTarget} {request : RequestTarget} {uri : String} {rest : List Char}

theorem afterScheme_upstreamText (target : ResolvedTarget) (original : Uri) :
    afterScheme (upstreamText target original) =
      (targetAuthority target).toList ++ original.pathAndQuery.getD ['/'] := by
  have hrest := String.toList_ofList (l := original.pathAndQuery.getD ['/'])
  rw [afterScheme, upstreamText, String.toList_append, String.toList_append, hrest, List.append_assoc,
    List.drop_left]

/-- The authority that is read back, with what is left after it. -/
theorem readAuthority_split {host : List Char} (hhost : ∀ c ∈ host, endsAuthority c = false)
    (hrest : ∀ c ∈ rest.head?, endsAuthority c = true) :
    (host ++ rest).takeWhile (!endsAuthority ·) = host ∧ (host ++ rest).dropWhile (!endsAuthority ·) = rest := by
  have hpos : ∀ c ∈ host, (!endsAuthority c) = true := fun c hc => by rw [hhost c hc]; rfl
  rw [List.takeWhile_append_of_pos hpos, List.dropWhile_append_of_pos hpos]
  cases rest with
  | nil => exact ⟨List.append_nil host, rfl⟩
  | cons c rest =>
      have hc : ¬ (!endsAuthority c) = true := by rw [hrest c rfl]; exact Bool.false_ne_true
      rw [List.takeWhile_cons_of_neg (p := fun c => !endsAuthority c) hc,
        List.dropWhile_cons_of_neg (p := fun c => !endsAuthority c) hc, List.append_nil]
      exact ⟨rfl, rfl⟩

theorem readPath_split (parts : PathQuery) :
    parts.text.takeWhile (!endsPath ·) = parts.path ∧
      parts.text.dropWhile (!endsPath ·) = (parts.query.map ('?' :: ·)).getD [] := by
  have hpos : ∀ c ∈ parts.path, (!endsPath c) = true := by
    intro c hc
    have hquery : c ≠ '?' := fun he => parts.pathClean.1 (he ▸ hc)
    have hfragment : c ≠ '#' := fun he => parts.pathClean.2 (he ▸ hc)
    rw [endsPath, decide_eq_false hquery, decide_eq_false hfragment]
    rfl
  rw [PathQuery.text, List.takeWhile_append_of_pos hpos, List.dropWhile_append_of_pos hpos]
  cases parts.query with
  | none => exact ⟨List.append_nil _, rfl⟩
  | some query => exact ⟨List.append_nil _, rfl⟩

theorem text_head {parts : PathQuery} (hpath : ∀ c ∈ parts.path.head?, c = '/') :
    ∀ c ∈ parts.text.head?, endsAuthority c = true := by
  intro c hc
  rw [PathQuery.text] at hc
  cases hsplit : parts.path with
  | cons d path =>
      rw [hsplit] at hc
      obtain rfl := Option.some.inj hc
      rw [hpath d (by rw [hsplit]; rfl)]
      rfl
  | nil =>
      rw [hsplit, List.nil_append] at hc
      cases hquery : parts.query with
      | none =>
          rw [hquery] at hc
          cases hc
      | some query =>
          rw [hquery] at hc
          obtain rfl := Option.some.inj hc
          rfl

theorem goesTo_text (hclean : ∀ c ∈ (targetAuthority target).toList, endsAuthority c = false)
    (h : request ≠ .asterisk) : GoesTo target request (upstreamText target request.uri) := by
  obtain ⟨parts, htext, hne, hpath, hroot, hquery⟩ := pathAndQuery_text h
  have hafter := afterScheme_upstreamText target request.uri
  rw [htext] at hafter
  obtain ⟨hauthority, hrest⟩ := readAuthority_split hclean (text_head hpath)
  obtain ⟨htake, hdrop⟩ := readPath_split parts
  refine ⟨?_, ?_, ?_, ?_⟩
  · rw [upstreamText, String.toList_append, String.toList_append, List.append_assoc]
    exact List.prefix_append _ _
  · rw [readAuthority, hafter, hauthority]
  · rw [readPath, hafter, hrest, htake, hroot]
  · rw [readQuery, hafter, hrest, hdrop, ← hquery]
    cases hq : parts.query with
    | none => rfl
    | some query =>
        have hall : query.takeWhile (· ≠ '#') = query := by
          refine List.takeWhile_eq_self_iff.mpr fun c hc => decide_eq_true fun he => ?_
          exact parts.queryClean query hq (he ▸ hc)
        exact congrArg some hall

theorem asterisk_joins (hclean : ∀ c ∈ (targetAuthority target).toList, endsAuthority c = false) :
    readAuthority (upstreamText target RequestTarget.asterisk.uri) = (targetAuthority target).toList ++ ['*'] := by
  have hall : ∀ c ∈ (targetAuthority target).toList ++ ['*'], endsAuthority c = false := by
    intro c hc
    rcases List.mem_append.mp hc with hc | hc
    · exact hclean c hc
    · rw [List.mem_singleton.mp hc]
      rfl
  have hnone : ∀ c ∈ ([] : List Char).head?, endsAuthority c = true := fun _ hc => by cases hc
  have hsplit := (readAuthority_split hall hnone).1
  rw [List.append_nil] at hsplit
  rw [readAuthority, afterScheme_upstreamText]
  exact hsplit

/-- Where the library reads the text, the URI is built, and it goes to the target, with the path
and the query of the request, exactly where the request is not for an asterisk. -/
theorem goes_to_target (accepts : String → Bool) (target : ResolvedTarget) (request : RequestTarget)
    (hhost : ∀ host port, target = .tcp host port → host ∈ allowedTargetHosts)
    (haccepts : accepts (upstreamText target request.uri) = true) :
    ∃ uri, upstreamUri accepts target request.uri = some uri ∧ (GoesTo target request uri ↔ request ≠ .asterisk) := by
  have hclean := targetAuthority_clean hhost
  refine ⟨upstreamText target request.uri, by rw [upstreamUri, if_pos haccepts], ?_, goesTo_text hclean⟩
  rintro hgoes rfl
  have hauthority := hgoes.authority
  rw [asterisk_joins hclean] at hauthority
  have hlength := congrArg List.length hauthority
  rw [List.length_append, List.length_singleton] at hlength
  omega

def loopbackTarget : ResolvedTarget := .tcp "::1" ⟨9000, by decide⟩

def absoluteRequest : RequestTarget :=
  .absolute "http".toList "a.localhost".toList ⟨[], some "b=1".toList, by decide, by decide⟩ (fun _ hc => by cases hc)

theorem goes_to_target_absolute :
    ∃ uri, upstreamUri (fun _ => true) loopbackTarget absoluteRequest.uri = some uri ∧
      (GoesTo loopbackTarget absoluteRequest uri ↔ absoluteRequest ≠ .asterisk) ∧ uri = "http://[::1]:9000?b=1" := by
  obtain ⟨uri, hbuilt, hgoes⟩ := goes_to_target (fun _ => true) loopbackTarget absoluteRequest (fun host port he => by
    obtain ⟨rfl, _⟩ := ResolvedTarget.tcp.inj he
    decide) rfl
  exact ⟨uri, hbuilt, hgoes, Option.some.inj (hbuilt.symm.trans (by decide))⟩

theorem asterisk_changes_port :
    upstreamUri (fun _ => true) loopbackTarget RequestTarget.asterisk.uri = some "http://[::1]:9000*" ∧
      targetAuthority loopbackTarget = "[::1]:9000" ∧
      readAuthority "http://[::1]:9000*" = "[::1]:9000*".toList ∧
      ¬ GoesTo loopbackTarget .asterisk "http://[::1]:9000*" := by
  refine ⟨by decide, by decide, by decide, fun hgoes => ?_⟩
  exact absurd hgoes.authority (by decide)

end LocalDevProxy.UpstreamUri
