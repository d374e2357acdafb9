import LocalDevProxy.Routes

namespace LocalDevProxy.Proxy

open Text Routes

/-- The value of a header: bytes without controls other than the tab. -/
structure HeaderValue where
  bytes : List UInt8
  valid : ∀ b ∈ bytes, (32 ≤ b ∧ b ≠ 127) ∨ b = 9

def isVisibleAscii (b : UInt8) : Bool := (32 ≤ b && b < 127) || b = 9

def HeaderValue.toStr (v : HeaderValue) : Option String :=
  if v.bytes.all isVisibleAscii then
    some (.ofList (v.bytes.map (fun b => Char.ofNat b.toNat)))
  else none

structure Uri where
  authority : Option String
  path : String

/-- The parts of a request that decide where it goes. Header names are in
lower case, as the library that reads them gives them. -/
structure Request where
  headers : List (String × HeaderValue)
  uri : Uri

def Request.header (request : Request) (name : String) : Option HeaderValue :=
  (request.headers.find? (fun entry => entry.1 = name)).map Prod.snd

def rsplitOnce (sep : Char) (cs : List Char) : Option (List Char × List Char) :=
  match cs.reverse.dropWhile (· ≠ sep) with
  | [] => none
  | _ :: before => some (before.reverse, (cs.reverse.takeWhile (· ≠ sep)).reverse)

def stripPort (raw : String) : String :=
  if raw.toList.head? = some '[' then
    if ']' ∈ raw.toList then .ofList (raw.toList.takeWhile (· ≠ ']') ++ [']']) else raw
  else
    match rsplitOnce ':' raw.toList with
    | some (host, _) => .ofList host
    | none => raw

def requestHost (request : Request) : String :=
  let raw := (((request.header "host").bind HeaderValue.toStr).or request.uri.authority).getD ""
  stripPort raw

def isWebsocketUpgrade (request : Request) : Bool :=
  match (request.header "upgrade").bind HeaderValue.toStr with
  | some value => eqIgnoreAsciiCase value "websocket"
  | none => false

inductive Handled
  | portal (html : String)
  | notFound
  | websocket (route : ResolvedRoute)
  | http (route : ResolvedRoute)

def handle {G : Glob} (table : RouteTable G) (request : Request) : Handled :=
  let host := requestHost request
  if eqIgnoreAsciiCase host "localhost" then .portal table.portalHtml
  else
    match table.find host with
    | none => .notFound
    | some route => if isWebsocketUpgrade request then .websocket route else .http route

end LocalDevProxy.Proxy
