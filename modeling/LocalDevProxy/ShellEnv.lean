import LocalDevProxy.Environment
import LocalDevProxy.Lib.LossyUtf8
import LocalDevProxy.Lib.Separated
import LocalDevProxy.Lib.Utf8

namespace LocalDevProxy.ShellEnv

open Lib.LossyUtf8 Lib.Separated Lib.Utf8 Environment

def bytesOf (s : OsString) : List UInt8 := s.bytes.data.toList

/-- The value of a variable, which the system keeps up to the first NUL. -/
structure Value where
  string : OsString
  noNul : 0 ∉ bytesOf string

abbrev Vars := OsString → Option Value

inductive Fault
  | nulInValue
deriving DecidableEq, Repr

/-- The assignment of a variable, which does not return when the value has a NUL. -/
def setVar (vars : Vars) (key value : String) : Except Fault Vars :=
  if h : 0 ∈ bytesOf (.ofString value) then .error .nulInValue
  else .ok (Function.update vars (.ofString key) (some ⟨.ofString value, h⟩))

def marker : List Char := "__LOCAL_DEV_PROXY_PATH__".toList

def script : String :=
  .ofList ("printf %s \"".toList ++ marker ++ "$\x7bPATH\x7d".toList ++ marker ++ "\"".toList)

def find {α : Type} [DecidableEq α] (pattern : List α) : List α → Option Nat
  | [] => if pattern = [] then some 0 else none
  | c :: text => if pattern <+: c :: text then some 0 else (find pattern text).map (· + 1)

def extractMarkedPath (output : List Char) : Option String := do
  let start := (← find marker output) + marker.length
  let length ← find marker (output.drop start)
  let path := (output.drop start).take length
  if path ≠ [] then some (.ofList path) else none

/-- The PATH of the login shell. What a shell prints, run with some arguments,
comes back if it ends in time. -/
def queryLoginShellPath (ask : OsString → List String → Option (List UInt8)) (vars : Vars) : Option String := do
  let shell ← (vars (.ofString "SHELL")).filter (fun shell => bytesOf shell.string ≠ [])
  let output ← ask shell.string ["-ilc", script]
  extractMarkedPath (decode output)

/-- The filter of the merge, with the entries it has seen. -/
def keepUnseen : List (List Char) → List (List Char) → List (List Char)
  | _, [] => []
  | seen, entry :: entries =>
      if entry ≠ [] ∧ entry ∉ seen then entry :: keepUnseen (entry :: seen) entries
      else keepUnseen seen entries

def separator (windows : Bool) : Char := if windows then ';' else ':'

def mergePath (windows : Bool) (current resolved : String) : String :=
  .ofList ([separator windows].intercalate
    (keepUnseen [] (resolved.toList.splitOn (separator windows) ++ current.toList.splitOn (separator windows))))

/-- The PATH of the process, where it is Unicode. -/
def currentPath (vars : Vars) : String := ((vars (.ofString "PATH")).bind fun value => value.string.toStr).getD ""

def restoreLoginShellPath (windows : Bool) (ask : OsString → List String → Option (List UInt8)) (vars : Vars) :
    Except Fault (Bool × Vars) :=
  if windows then .ok (false, vars)
  else
    match queryLoginShellPath ask vars with
    | none => .ok (false, vars)
    | some resolved =>
        let current := currentPath vars
        let merged := mergePath windows current resolved
        if merged = current then .ok (false, vars)
        else do
          let vars ← setVar vars "PATH" merged
          .ok (true, vars)

theorem keepUnseen_eq (seen parts : List (List Char)) :
    keepUnseen seen parts = ((parts.filter (· ≠ [])).removeAll seen).eraseDups := by
  induction parts generalizing seen with
  | nil => rfl
  | cons part parts ih =>
      rw [keepUnseen]
      by_cases hempty : part = []
      · have hkeep : (part :: parts).filter (· ≠ []) = parts.filter (· ≠ []) :=
          List.filter_cons_of_neg (by rw [hempty]; exact Bool.false_ne_true)
        rw [if_neg (fun h => h.1 hempty), ih, hkeep]
      have hkeep : (part :: parts).filter (· ≠ []) = part :: parts.filter (· ≠ []) :=
        List.filter_cons_of_pos (decide_eq_true hempty)
      by_cases hseen : part ∈ seen
      · rw [if_neg (fun h => h.2 hseen), ih, hkeep, List.cons_removeAll,
          if_neg (by simpa using hseen)]
      · have hfilter (rest : List (List Char)) : (rest.removeAll seen).filter (fun other => !other == part) =
            rest.removeAll (part :: seen) := by
          rw [List.removeAll_cons, List.removeAll, List.removeAll, List.filter_filter, List.filter_filter]
          exact List.filter_congr fun other _ => Bool.and_comm _ _
        rw [if_pos ⟨hempty, hseen⟩, ih, hkeep, List.cons_removeAll, if_pos (by simpa using hseen),
          List.eraseDups_cons, hfilter]

/-- The merge is the union of the entries, in the order in which they are first seen. -/
theorem mergePath_eq (windows : Bool) (current resolved : String) : mergePath windows current resolved =
    .ofList ([separator windows].intercalate (entries (separator windows) resolved.toList ++
      entries (separator windows) current.toList).eraseDups) := by
  rw [mergePath, keepUnseen_eq, List.removeAll_nil, List.filter_append]
  rfl

theorem entries_mergePath (windows : Bool) (current resolved : String) :
    entries (separator windows) (mergePath windows current resolved).toList =
      (entries (separator windows) resolved.toList ++ entries (separator windows) current.toList).eraseDups := by
  rw [mergePath_eq, String.toList_ofList]
  refine entries_intercalate fun part hpart => ?_
  rw [List.mem_eraseDups, List.mem_append] at hpart
  rcases hpart with hpart | hpart
  · exact entries_proper hpart
  · exact entries_proper hpart

end LocalDevProxy.ShellEnv
