import LocalDevProxy.Lib.Markup
import LocalDevProxy.Routes

namespace LocalDevProxy.Portal

open Lib.Markup Config Routes

def openTag (name : String) : Token := .tag ⟨name.toList, []⟩

def closeTag (name : String) : Token := .tag ⟨'/' :: name.toList, []⟩

def link (url : String) : Token := .tag ⟨"a".toList, [("href".toList, url.toList)]⟩

def literal (text : String) : List Token := if text.toList = [] then [] else [.text text.toList]

abbrev Item : Type := String × Option String

def itemTokens : Item → List Token
  | (host, none) => openTag "li" :: (literal host ++ [closeTag "li"])
  | (host, some url) => openTag "li" :: link url :: (literal host ++ [closeTag "a", closeTag "li"])

def listTokens : List Item → List Token
  | [] => []
  | [item] => itemTokens item
  | item :: next :: rest => itemTokens item ++ .text ['\n'] :: listTokens (next :: rest)

def headTokens : List Token :=
  [.tag ⟨"!doctype".toList, [("html".toList, [])]⟩, openTag "html", openTag "head",
    .tag ⟨"meta".toList, [("charset".toList, "utf-8".toList)]⟩, openTag "title", .text "Local Dev Proxy".toList,
    closeTag "title", closeTag "head", openTag "body", openTag "h1", .text "Local Dev Proxy".toList, closeTag "h1",
    openTag "ul"]

def footTokens : List Token := [closeTag "ul", closeTag "body", closeTag "html"]

/-- The page as it is meant: nothing in it depends on the items but their texts and addresses. -/
def pageTokens (items : List Item) : List Token := headTokens ++ listTokens items ++ footTokens

/-- The items of a page: between the tags of an item, the text is its own and a link gives its address. -/
def itemsFrom : Option (List Char × Option String) → List Token → List Item
  | _, [] => []
  | none, token :: rest => itemsFrom (if token = openTag "li" then some ([], none) else none) rest
  | some (text, url), .text more :: rest => itemsFrom (some (text ++ more, url)) rest
  | some (text, url), .tag tag :: rest =>
      if .tag tag = closeTag "li" then (.ofList text, url) :: itemsFrom none rest
      else if tag.name = "a".toList then
        itemsFrom (some (text, (tag.attributes.lookup "href".toList).map String.ofList)) rest
      else itemsFrom (some (text, url)) rest

def items (page : List Token) : List Item := itemsFrom none page

def portalEntry (httpPort : Port) (host : String) : Item :=
  (host, if isWildcardHost host then none else some (hostUrl host httpPort))

def listed (manifest : Manifest) : List RouteEntry := (routeListing manifest).flatMap RouteGroup.entries

theorem unescape_escapeHtml (text : String) : unescape (escapeHtml text).toList = text.toList := by
  rw [escapeHtml, String.toList_ofList]
  induction text.toList with
  | nil => rfl
  | cons c text ih =>
      rw [List.flatMap_cons]
      split
      · rename_i hamp
        rw [hamp]
        exact congrArg ('&' :: ·) ih
      · rename_i hamp
        split
        · rename_i hlt
          rw [hlt]
          exact congrArg ('<' :: ·) ih
        · split
          · rename_i hgt
            rw [hgt]
            exact congrArg ('>' :: ·) ih
          · split
            · rename_i hquot
              rw [hquot]
              exact congrArg ('"' :: ·) ih
            · split
              · rename_i hapos
                rw [hapos]
                exact congrArg ('\'' :: ·) ih
              · rw [List.singleton_append, unescape_cons hamp, ih]

/-- What is escaped can stand between tags and in double quotes. -/
theorem escapeHtml_inert (text : String) :
    '<' ∉ (escapeHtml text).toList ∧ '"' ∉ (escapeHtml text).toList := by
  rw [escapeHtml, String.toList_ofList, List.mem_flatMap, List.mem_flatMap]
  constructor
  · rintro ⟨c, _, hc⟩
    split_ifs at hc with _ hlt
    all_goals first
      | exact absurd hc (by decide)
      | exact hlt (List.mem_singleton.mp hc).symm
  · rintro ⟨c, _, hc⟩
    split_ifs at hc with _ _ _ hquot
    all_goals first
      | exact absurd hc (by decide)
      | exact hquot (List.mem_singleton.mp hc).symm

theorem flush_escapeHtml (text : String) : flush (escapeHtml text).toList = literal text := by
  have hback := unescape_escapeHtml text
  unfold flush literal
  by_cases hempty : text.toList = []
  · have hnil : (escapeHtml text).toList = [] := by
      rw [escapeHtml, String.toList_ofList, hempty]
      rfl
    rw [if_pos hnil, if_pos hempty]
  · have hcons : (escapeHtml text).toList ≠ [] := by
      intro hnil
      rw [hnil] at hback
      exact hempty hback.symm
    rw [if_neg hcons, if_neg hempty, hback]

theorem readTag_link (value : List Char) (h : '"' ∉ value) :
    readTag ("a href=\"".toList ++ value ++ ['"']) = ⟨"a".toList, [("href".toList, unescape value)]⟩ := by
  have hread : readTag ("a href=\"".toList ++ (value ++ ['"'])) =
      ⟨"a".toList, attributesFrom (.value "href".toList '"' []) (value ++ ['"'])⟩ := rfl
  rw [List.append_assoc, hread, attributesFrom_value _ _ _ h]
  rfl

/-- The tokens of an item, whatever its host is. -/
theorem tokens_portalItem (httpPort : Port) (host : String) (seen rest : List Char) :
    tokensFrom .text seen ((portalItem httpPort host).toList ++ rest) =
      flush seen ++ (itemTokens (portalEntry httpPort host) ++ tokensFrom .text [] rest) := by
  obtain ⟨hlt, _⟩ := escapeHtml_inert host
  unfold portalItem portalEntry
  split
  · have hopen (more : List Char) : tokensFrom .text seen ("<li>".toList ++ more) =
        flush seen ++ openTag "li" :: tokensFrom .text [] more := rfl
    have hclose (text : List Char) : tokensFrom .text text ("</li>".toList ++ rest) =
        flush text ++ closeTag "li" :: tokensFrom .text [] rest := rfl
    rw [String.toList_append, String.toList_append, List.append_assoc, List.append_assoc, hopen,
      tokensFrom_text _ _ _ hlt, hclose, List.nil_append, flush_escapeHtml, itemTokens, List.cons_append,
      List.append_assoc]
    rfl
  · obtain ⟨_, hquot⟩ := escapeHtml_inert (hostUrl host httpPort)
    have hopen (more : List Char) : tokensFrom .text seen ("<li><a href=\"".toList ++ more) =
        flush seen ++ openTag "li" :: tokensFrom (.quoted '"') "a href=\"".toList more := rfl
    have hend (source more : List Char) : tokensFrom .tag source ('>' :: more) =
        .tag (readTag source) :: tokensFrom .text [] more := rfl
    have hclose (text : List Char) : tokensFrom .text text ("</a></li>".toList ++ rest) =
        flush text ++ closeTag "a" :: closeTag "li" :: tokensFrom .text [] rest := rfl
    have hquoted (more : List Char) : "\">".toList ++ more = '"' :: '>' :: more := rfl
    rw [String.toList_append, String.toList_append, String.toList_append, String.toList_append, List.append_assoc,
      List.append_assoc, List.append_assoc, List.append_assoc, hopen, hquoted, tokensFrom_quoted _ _ _ hquot, hend,
      readTag_link _ hquot, unescape_escapeHtml, tokensFrom_text _ _ _ hlt, hclose, List.nil_append,
      flush_escapeHtml, itemTokens, List.cons_append, List.cons_append, List.append_assoc]
    rfl

theorem tokens_items (httpPort : Port) (hosts : List String) (seen rest : List Char) :
    tokensFrom .text seen (("\n".intercalate (hosts.map (portalItem httpPort))).toList ++ '<' :: rest) =
      flush seen ++ (listTokens (hosts.map (portalEntry httpPort)) ++ tokensFrom .text [] ('<' :: rest)) := by
  induction hosts generalizing seen with
  | nil => rfl
  | cons host hosts ih =>
      cases hosts with
      | nil =>
          rw [List.map_singleton, String.intercalate_singleton, tokens_portalItem]
          rfl
      | cons next hosts =>
          have hnewline : "\n".toList = ['\n'] := rfl
          have hstep (more : List Char) : tokensFrom .text [] ('\n' :: more) = tokensFrom .text ['\n'] more := rfl
          rw [List.map_cons, List.map_cons, String.intercalate_cons_cons, String.toList_append,
            String.toList_append, List.append_assoc, List.append_assoc, tokens_portalItem, hnewline,
            List.singleton_append, hstep, ← List.map_cons, ih]
          simp only [List.map_cons, listTokens, List.append_assoc, List.cons_append]
          rfl

theorem tokens_page (httpPort : Port) (routes : List ResolvedRoute) :
    tokens (buildPortalHtml httpPort routes).toList =
      pageTokens ((routes.flatMap ResolvedRoute.hostPatterns).map (portalEntry httpPort)) := by
  have hdoctype (more : List Char) :
      tokensFrom .text [] ("<!doctype html><html><head><meta charset='utf-8'>".toList ++ more) =
        headTokens.take 4 ++ tokensFrom .text [] more := rfl
  have htitle (more : List Char) :
      tokensFrom .text [] ("<title>Local Dev Proxy</title></head><body>".toList ++ more) =
        (headTokens.drop 4).take 5 ++ tokensFrom .text [] more := rfl
  have hheading (more : List Char) : tokensFrom .text [] ("<h1>Local Dev Proxy</h1><ul>".toList ++ more) =
      headTokens.drop 9 ++ tokensFrom .text [] more := rfl
  have hfoot : tokensFrom .text [] "</ul></body></html>".toList = footTokens := rfl
  have htag : "</ul></body></html>".toList = '<' :: "/ul></body></html>".toList := rfl
  unfold buildPortalHtml pageTokens tokens
  rw [String.toList_append, String.toList_append, String.toList_append, String.toList_append, List.append_assoc,
    List.append_assoc, List.append_assoc, List.append_assoc, hdoctype, htitle, hheading, htag, tokens_items, ← htag,
    hfoot]
  rfl

theorem itemsFrom_literal (host : String) (url : Option String) (rest : List Token) :
    itemsFrom (some ([], url)) (literal host ++ rest) = itemsFrom (some (host.toList, url)) rest := by
  unfold literal
  split
  · rename_i hempty
    rw [hempty]
    rfl
  · rfl

theorem itemsFrom_item (item : Item) (rest : List Token) :
    itemsFrom none (itemTokens item ++ rest) = item :: itemsFrom none rest := by
  obtain ⟨host, url⟩ := item
  cases url with
  | none =>
      have hopen (more : List Token) : itemsFrom none (openTag "li" :: more) = itemsFrom (some ([], none)) more := rfl
      have hclose : itemsFrom (some (host.toList, none)) (closeTag "li" :: rest) =
          (.ofList host.toList, none) :: itemsFrom none rest := rfl
      rw [itemTokens, List.cons_append, hopen, List.append_assoc, itemsFrom_literal]
      exact hclose.trans (by rw [String.ofList_toList])
  | some url =>
      have hopen (more : List Token) : itemsFrom none (openTag "li" :: link url :: more) =
          itemsFrom (some ([], some (.ofList url.toList))) more := rfl
      have hclose (address : String) : itemsFrom (some (host.toList, some address))
          (closeTag "a" :: closeTag "li" :: rest) = (.ofList host.toList, some address) :: itemsFrom none rest := rfl
      rw [itemTokens, List.cons_append, List.cons_append, hopen, List.append_assoc, itemsFrom_literal]
      exact (hclose _).trans (by rw [String.ofList_toList, String.ofList_toList])

theorem items_page (entries : List Item) : items (pageTokens entries) = entries := by
  have hhead (more : List Token) : items (headTokens ++ more) = itemsFrom none more := rfl
  have hlist : itemsFrom none (listTokens entries ++ footTokens) = entries := by
    induction entries with
    | nil => rfl
    | cons item entries ih =>
        cases entries with
        | nil => exact itemsFrom_item item footTokens
        | cons next entries =>
            rw [listTokens, List.append_assoc, itemsFrom_item]
            exact congrArg (item :: ·) ih
  rw [pageTokens, List.append_assoc, hhead, hlist]

theorem kind_disabled (service : ServiceDef) : ServiceKind.of service = .disabled ↔ service.disabled = true := by
  unfold ServiceKind.of
  split_ifs <;> simp_all

theorem listed_eq (manifest : Manifest) :
    listed manifest = (enabledRoutes manifest).flatMap fun entry => routeEntries entry.1 entry.2 manifest.httpPort := by
  unfold listed routeListing enabledRoutes
  induction manifest.services with
  | nil => rfl
  | cons service services ih =>
      rw [List.map_cons, List.flatMap_cons, ih]
      by_cases hdisabled : service.disabled = true
      · rw [List.filter_cons_of_neg (by simp [hdisabled])]
        dsimp only
        rw [if_pos ((kind_disabled service).mpr hdisabled), List.nil_append]
      · rw [List.filter_cons_of_pos (by simp [hdisabled]), List.flatMap_cons, List.flatMap_append, List.flatMap_map]
        dsimp only
        rw [if_neg (mt (kind_disabled service).mp hdisabled)]

theorem listed_hosts {cwd : Option Paths.Path} {manifest : Manifest} {env : EnvLookup} {base : Option Paths.Path}
    {routes : List ResolvedRoute} (h : resolveRoutes cwd manifest env base = .ok routes) :
    (listed manifest).map (fun entry => (entry.routeId, entry.host)) =
      routes.flatMap fun route => route.hostPatterns.map fun host => (route.id, host) := by
  let pairs (shape : String × List String) : List (String × String) := shape.2.map fun host => (shape.1, host)
  have hshape := congrArg (List.flatMap pairs) (resolveRoutes_shape cwd h)
  rw [List.flatMap_map, List.flatMap_map] at hshape
  calc (listed manifest).map (fun entry => (entry.routeId, entry.host))
      = (enabledRoutes manifest).flatMap fun entry => pairs (entry.2.id, entry.2.hosts) := by
        rw [listed_eq, List.map_flatMap]
        refine congrArg (List.flatMap · _) (funext fun entry => ?_)
        rw [routeEntries, List.map_map]
        rfl
    _ = routes.flatMap fun route => pairs (route.id, route.hostPatterns) := hshape.symm

theorem listed_url {manifest : Manifest} {entry : RouteEntry} (h : entry ∈ listed manifest) :
    (entry.host, entry.url) = portalEntry manifest.httpPort entry.host := by
  rw [listed_eq] at h
  obtain ⟨route, _, hentry⟩ := List.mem_flatMap.mp h
  obtain ⟨host, _, rfl⟩ := List.mem_map.mp hentry
  rfl

/-- The page is the same for any hosts but for their texts and addresses; read back it has
the entries of the listing in order, a link just where there is an address, and these are
the hosts of the resolved routes. -/
theorem portal_agrees {cwd : Option Paths.Path} {manifest : Manifest} {env : EnvLookup} {base : Option Paths.Path}
    {routes : List ResolvedRoute} (h : resolveRoutes cwd manifest env base = .ok routes) :
    tokens (buildPortalHtml manifest.httpPort routes).toList =
        pageTokens ((listed manifest).map fun entry => (entry.host, entry.url)) ∧
      items (tokens (buildPortalHtml manifest.httpPort routes).toList) =
        (listed manifest).map (fun entry => (entry.host, entry.url)) ∧
      (listed manifest).map (fun entry => (entry.routeId, entry.host)) =
        routes.flatMap fun route => route.hostPatterns.map fun host => (route.id, host) := by
  have hpairs := listed_hosts h
  have hentries : (routes.flatMap ResolvedRoute.hostPatterns).map (portalEntry manifest.httpPort) =
      (listed manifest).map fun entry => (entry.host, entry.url) := by
    have hhosts : (listed manifest).map RouteEntry.host = routes.flatMap ResolvedRoute.hostPatterns := by
      have hsnd := congrArg (List.map Prod.snd) hpairs
      rw [List.map_map, List.map_flatMap] at hsnd
      refine hsnd.trans (congrArg (List.flatMap · _) (funext fun route => ?_))
      rw [List.map_map]
      exact List.map_id _
    rw [← hhosts, List.map_map]
    exact List.map_congr_left fun entry hentry => (listed_url hentry).symm
  rw [tokens_page, hentries, items_page]
  exact ⟨rfl, rfl, hpairs⟩

def portalManifest : Manifest :=
  headedManifest [⟨"web", none, [], [⟨"web/1", ["a\n<li>\"'&amp;", "*.web.localhost"], .port "127.0.0.1" headerPort⟩],
    false, true⟩]

theorem portal_agrees_escaped :
    items (tokens (buildPortalHtml headerPort
      [⟨"web/1", ["a\n<li>\"'&amp;", "*.web.localhost"], .tcp "127.0.0.1" headerPort⟩]).toList) =
      [("a\n<li>\"'&amp;", some "http://a\n<li>\"'&amp;:2800/"), ("*.web.localhost", none)] :=
  (@portal_agrees none portalManifest (fun _ => none) none _ rfl).2.1.trans (by decide)

end LocalDevProxy.Portal
