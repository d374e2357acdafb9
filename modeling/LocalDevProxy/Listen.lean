import LocalDevProxy.Os
import LocalDevProxy.Routes

namespace LocalDevProxy.Listen

open Lib.Interaction Text Config Routes Os

def digitValue (radix : Nat) (c : Char) : Option Nat :=
  let n := c.toNat
  let value :=
    if c.isDigit then n - 48
    else if 'a' ≤ c ∧ c ≤ 'z' then n - 87
    else if 'A' ≤ c ∧ c ≤ 'Z' then n - 55
    else radix
  if value < radix then some value else none

/-- A reader takes text from the front, or takes nothing. -/
abbrev Reader (α : Type) := List Char → Option (α × List Char)

def readGivenChar (c : Char) : Reader Unit
  | d :: rest => if d = c then some ((), rest) else none
  | [] => none

/-- A number below the bound, of at most so many digits. -/
def readNumber (radix maxDigits bound : Nat) (allowZeroPrefix : Bool) : Reader Nat := fun cs =>
  let digits := cs.takeWhile (fun c => (digitValue radix c).isSome)
  let value := (digits.filterMap (digitValue radix)).foldl (fun acc d => acc * radix + d) 0
  if digits = [] ∨ maxDigits < digits.length ∨ bound ≤ value then none
  else if !allowZeroPrefix ∧ digits.head? = some '0' ∧ 1 < digits.length then none
  else some (value, cs.dropWhile (fun c => (digitValue radix c).isSome))

/-- All but the first of several elements come after a separator. -/
def readSeparator {α : Type} (sep : Char) (index : Nat) (inner : Reader α) : Reader α := fun cs =>
  if index = 0 then inner cs
  else (readGivenChar sep cs).bind (fun r => inner r.2)

def readOctets : Nat → Nat → Reader Nat
  | _, 0, cs => some (0, cs)
  | index, left + 1, cs => do
      let (octet, cs) ← readSeparator '.' index (readNumber 10 3 256 false) cs
      let (rest, cs) ← readOctets (index + 1) left cs
      some (octet * 256 ^ left + rest, cs)

def readIpv4Addr : Reader Nat := readOctets 0 4

/-- The groups read, whether an embedded address ended them, and what is left. -/
def readGroups : Nat → Nat → List Char → List Nat × Bool × List Char
  | _, 0, cs => ([], false, cs)
  | index, left + 1, cs =>
      match if 0 < left then readSeparator ':' index readIpv4Addr cs else none with
      | some (addr, cs) => ([addr / 65536, addr % 65536], true, cs)
      | none =>
          match readSeparator ':' index (readNumber 16 4 65536 true) cs with
          | none => ([], false, cs)
          | some (group, cs) =>
              let (groups, embedded, cs) := readGroups (index + 1) left cs
              (group :: groups, embedded, cs)

def groupsValue (groups : List Nat) : Nat := groups.foldl (fun acc g => acc * 65536 + g) 0

def readIpv6Addr : Reader Nat := fun cs =>
  match readGroups 0 8 cs with
  | (head, embedded, cs) =>
      if head.length = 8 then some (groupsValue head, cs)
      else if embedded then none
      else do
        let (_, cs) ← readGivenChar ':' cs
        let (_, cs) ← readGivenChar ':' cs
        let (tail, _, cs) := readGroups 0 (7 - head.length) cs
        some (groupsValue (head ++ List.replicate (8 - head.length - tail.length) 0 ++ tail), cs)

def parseIpAddr (host : String) : Option IpAddr :=
  match readIpv4Addr host.toList with
  | some (addr, []) => some (.v4 (.ofNat 32 addr))
  | some _ => none
  | none =>
      match readIpv6Addr host.toList with
      | some (addr, []) => some (.v6 (.ofNat 128 addr))
      | _ => none

example : parseIpAddr "127.0.0.1" = some (.v4 0x7f000001) ∧ parseIpAddr "::1" = some (.v6 1) ∧
    parseIpAddr "localhost" = none := by decide

inductive ProxyError
  | resolve (host : String) (source : IoError)
  | noAddress (host : String)
  | listen (addr : SocketAddr) (source : IoError)
deriving DecidableEq

def ipv4Text (addr : BitVec 32) : String :=
  ".".intercalate ([24, 16, 8, 0].map fun shift => decimal (addr.toNat >>> shift % 256))

def segments (addr : BitVec 128) : List Nat :=
  [112, 96, 80, 64, 48, 32, 16, 0].map fun shift => addr.toNat >>> shift % 65536

structure Span where
  start : Nat
  len : Nat

/-- The longest zeros found so far, and those that a segment may go on with. -/
def countZeros (found : Span × Span) (entry : Nat × Nat) : Span × Span :=
  if entry.1 = 0 then
    let current := if found.2.len = 0 then ⟨entry.2, 1⟩ else ⟨found.2.start, found.2.len + 1⟩
    (if found.1.len < current.len then current else found.1, current)
  else (found.1, ⟨0, 0⟩)

def longestZeros (segments : List Nat) : Span := (segments.zipIdx.foldl countZeros (⟨0, 0⟩, ⟨0, 0⟩)).1

def segmentsText (segments : List Nat) : String :=
  ":".intercalate (segments.map fun segment => .ofList (hexDigits segment))

def ipv6Text (addr : BitVec 128) : String :=
  if addr.toNat >>> 32 = 0xffff then "::ffff:" ++ ipv4Text (addr.setWidth 32)
  else
    let all := segments addr
    let zeros := longestZeros all
    if 1 < zeros.len then
      segmentsText (all.take zeros.start) ++ "::" ++ segmentsText (all.drop (zeros.start + zeros.len))
    else segmentsText all

def addrText (addr : SocketAddr) : String :=
  match addr.ip with
  | .v4 bits => ipv4Text bits ++ ":" ++ decimal addr.port
  | .v6 bits => "[" ++ ipv6Text bits ++ "]:" ++ decimal addr.port

example : addrText ⟨.v4 0x7f000001, 80⟩ = "127.0.0.1:80" ∧ addrText ⟨.v6 1, 80⟩ = "[::1]:80" := by
  decide +kernel

def ProxyError.display : ProxyError → String
  | .resolve host source => "Could not resolve bind address " ++ host ++ ": " ++ source.message
  | .noAddress host => "Bind address " ++ host ++ " resolved to no addresses"
  | .listen addr source => "Could not listen on " ++ addrText addr ++ ": " ++ source.message

structure ProxyServer (G : Glob) where
  routes : RouteTable G
  localAddrs : List SocketAddr

/-- Drop each address that repeats the one before it. -/
def dedup (addrs : List SocketAddr) : List SocketAddr := addrs.destutter (· ≠ ·)

def resolveBindHost (host : String) (port : Port) : Io (Except ProxyError (List SocketAddr)) :=
  match parseIpAddr host with
  | some ip => return .ok [⟨ip, port.number⟩]
  | none => do
      match ← perform (.lookupHost host port.number) with
      | .error source => return .error (.resolve host source)
      | .ok addrs => if addrs = [] then return .error (.noAddress host) else return .ok (dedup addrs)

def listenAll : List SocketAddr → Io (Except ProxyError Unit)
  | [] => return .ok ()
  | addr :: rest => do
      match ← perform (.listen addr) with
      | .error source => return .error (.listen addr source)
      | .ok _ => listenAll rest

/-- The addresses that listen. Those opened before a failure are closed again. -/
def listenHosts (port : Port) : List String → Io (Except ProxyError (List SocketAddr))
  | [] => return .ok []
  | host :: hosts =>
      (resolveBindHost host port).tryThen fun addrs =>
        (listenAll addrs).tryThen fun _ =>
          (listenHosts port hosts).tryThen fun rest => return .ok (addrs ++ rest)

def acceptAll (port : Port) : List SocketAddr → Io (Except ProxyError (List SocketAddr))
  | [] => return .ok []
  | addr :: rest => do
      match ← perform (.localAddr addr) with
      | .error source => return .error (.listen ⟨.v4 0, port.number⟩ source)
      | .ok bound => (acceptAll port rest).tryThen fun others => return .ok (bound :: others)

namespace ProxyServer

variable {G : Glob}

def bind (routes : RouteTable G) (httpPort : Port) (hosts : List String) :
    Io (Except ProxyError (ProxyServer G)) :=
  (listenHosts httpPort hosts).tryThen fun addrs =>
    (acceptAll httpPort addrs).tryThen fun bound => return .ok ⟨routes, bound⟩

def shutdown (server : ProxyServer G) : Io Unit := perform (.closeListeners server.localAddrs)

end ProxyServer

end LocalDevProxy.Listen
