import Mathlib.Data.Bool.AllAny
import LocalDevProxy.Proxy

namespace LocalDevProxy.Upstream

open Text Config Routes
open Proxy (HeaderValue)

/-- The parts of a URI. The authority, and the text of path and query, are
empty where the URI has none. -/
structure Uri where
  scheme : Option (List Char)
  authority : List Char
  pathAndQueryText : List Char

/-- The path and query, which a URI of an authority alone does not have. -/
def Uri.pathAndQuery (uri : Uri) : Option (List Char) :=
  if uri.scheme.isSome ∨ uri.authority = [] then
    some (if uri.pathAndQueryText = [] then ['/'] else uri.pathAndQueryText)
  else none

def targetAuthority : ResolvedTarget → String
  | .tcp host port =>
      if ':' ∈ host.toList then "[" ++ host ++ "]:" ++ decimal port.number
      else host ++ ":" ++ decimal port.number
  | .unix _ => "localhost"

def upstreamText (target : ResolvedTarget) (original : Uri) : String :=
  "http://" ++ targetAuthority target ++ .ofList (original.pathAndQuery.getD ['/'])

def upstreamUri (accepts : String → Bool) (target : ResolvedTarget) (original : Uri) : Option String :=
  if accepts (upstreamText target original) then some (upstreamText target original) else none

/-- Names in lower case with their values. A name may have several, in order. -/
abbrev HeaderMap := List (String × HeaderValue)

def HeaderMap.values (headers : HeaderMap) (name : String) : List HeaderValue :=
  (headers.filter (fun entry => entry.1 = name)).map Prod.snd

def HeaderMap.remove (headers : HeaderMap) (name : String) : HeaderMap :=
  headers.filter (fun entry => entry.1 ≠ name)

def hopByHop : List String :=
  ["connection", "keep-alive", "proxy-authenticate", "proxy-authorization", "te", "trailers", "transfer-encoding",
    "upgrade"]

def stripHopByHop (headers : HeaderMap) : HeaderMap := hopByHop.foldl HeaderMap.remove headers

/-- A request with the rest of its parts and its body, which are passed on. -/
structure Request (υ β : Type) where
  uri : υ
  headers : HeaderMap
  rest : β

structure Response (γ : Type) where
  headers : HeaderMap
  rest : γ

inductive Reply (γ : Type)
  | upstream (response : Response γ)
  | badGateway

variable {β γ : Type}

/-- What is sent to the target, if anything is, and what is sent back. A socket
is a target on Unix only. -/
def proxyHttp (onUnix : Bool) (accepts : String → Bool)
    (send : ResolvedTarget → Request String β → Option (Response γ)) (request : Request Uri β)
    (target : ResolvedTarget) : Option (Request String β) × Reply γ :=
  match upstreamUri accepts target request.uri with
  | none => (none, .badGateway)
  | some uri =>
      let upstreamRequest : Request String β := ⟨uri, stripHopByHop request.headers, request.rest⟩
      match target, onUnix with
      | .unix _, false => (none, .badGateway)
      | _, _ =>
          match send target upstreamRequest with
          | some response =>
              (some upstreamRequest, .upstream { response with headers := stripHopByHop response.headers })
          | none => (some upstreamRequest, .badGateway)

def Supported (onUnix : Bool) (target : ResolvedTarget) : Prop := onUnix = true ∨ ∀ path, target ≠ .unix path

def Allowed (target : ResolvedTarget) : Prop := ∀ host port, target = .tcp host port → host ∈ allowedTargetHosts

/-- The characters that an authority is made of. -/
theorem mem_targetAuthority {target : ResolvedTarget} (h : Allowed target) {c : Char}
    (hc : c ∈ (targetAuthority target).toList) : c.isDigit = true ∨ c ∈ "[]:.localhst".toList := by
  cases target with
  | unix path =>
      right
      have hall : ∀ c ∈ "localhost".toList, c ∈ "[]:.localhst".toList := List.all_iff_forall_prop.mp (by decide)
      exact hall c hc
  | tcp host port =>
      have hname : ∀ c ∈ host.toList, c.isDigit = true ∨ c ∈ "[]:.localhst".toList := by
        have hallowed := h host port rfl
        simp only [allowedTargetHosts, List.mem_cons, List.not_mem_nil, or_false] at hallowed
        rcases hallowed with rfl | rfl | rfl <;> exact List.all_iff_forall_prop.mp (by decide)
      have hpart : ∀ c ∈ "[]:".toList, c ∈ "[]:.localhst".toList := List.all_iff_forall_prop.mp (by decide)
      rw [targetAuthority] at hc
      split at hc
      · simp only [String.toList_append, List.mem_append] at hc
        rcases hc with ((hc | hc) | hc) | hc
        · exact .inr (hpart c (List.mem_of_mem_head? (List.mem_singleton.mp hc ▸ rfl)))
        · exact hname c hc
        · exact .inr (hpart c (List.mem_cons_of_mem _ hc))
        · exact .inl (isDigit_of_mem_decimal hc)
      · simp only [String.toList_append, List.mem_append] at hc
        rcases hc with (hc | hc) | hc
        · exact hname c hc
        · exact .inr (hpart c (List.mem_cons_of_mem _ (List.mem_cons_of_mem _ hc)))
        · exact .inl (isDigit_of_mem_decimal hc)

end LocalDevProxy.Upstream
