import LocalDevProxy.Lib.OrderedUnion
import LocalDevProxy.ShellEnv
import Mathlib.Logic.Function.Iterate

namespace LocalDevProxy.PathMerge

open Lib.OrderedUnion Lib.Separated Environment ShellEnv

def chained (windows : Bool) (current resolved : String) : List (List Char) :=
  entries (separator windows) resolved.toList ++ entries (separator windows) current.toList

/-- A value of PATH with the entries of two others, each where it is first seen. -/
structure Merges (windows : Bool) (current resolved merged : String) : Prop where
  union : entries (separator windows) merged.toList = (chained windows current resolved).eraseDups
  order : FirstSeen (chained windows current resolved) (entries (separator windows) merged.toList)
  proper : merged ≠ "" → [] ∉ merged.toList.splitOn (separator windows)
  empty : merged = "" ↔ entries (separator windows) resolved.toList = [] ∧
    entries (separator windows) current.toList = []

variable (windows : Bool) (current resolved : String)

/-- The result is the entries that it is read back as, joined. -/
theorem mergePath_join : mergePath windows current resolved = .ofList ([separator windows].intercalate
    (entries (separator windows) (mergePath windows current resolved).toList)) := by
  rw [entries_mergePath]
  exact mergePath_eq windows current resolved

theorem mergePath_order : FirstSeen (chained windows current resolved)
    (entries (separator windows) (mergePath windows current resolved).toList) := by
  rw [entries_mergePath]
  exact firstSeen_eraseDups _

theorem mergePath_empty : mergePath windows current resolved = "" ↔
    entries (separator windows) (mergePath windows current resolved).toList = [] := by
  constructor
  · intro hempty
    rw [hempty]
    rfl
  · intro hnone
    rw [mergePath_join, hnone]
    rfl

theorem mergePath_merges : Merges windows current resolved (mergePath windows current resolved) := by
  have horder := mergePath_order windows current resolved
  refine ⟨entries_mergePath windows current resolved, horder, fun hne => ?_, ?_⟩
  · have hparts : entries (separator windows) (mergePath windows current resolved).toList ≠ [] := fun hnone =>
      hne ((mergePath_empty windows current resolved).mpr hnone)
    rw [mergePath_join, String.toList_ofList,
      List.splitOn_intercalate (separator windows) (fun part hpart => (entries_proper hpart).2) hparts]
    exact fun hmem => (entries_proper hmem).1 rfl
  · rw [mergePath_empty, horder.eq_nil_iff, chained, List.append_eq_nil_iff]

/-- The entries that a value of PATH has determine what is merged from it. -/
theorem mergePath_of_order {kept : List (List Char)} (h : FirstSeen (chained windows current resolved) kept) :
    mergePath windows current resolved = .ofList ([separator windows].intercalate kept) := by
  rw [mergePath_join, (mergePath_order windows current resolved).unique h]

theorem mergePath_again :
    mergePath windows (mergePath windows current resolved) resolved = mergePath windows current resolved := by
  have hagain := (mergePath_order windows current resolved).again
  rw [mergePath_of_order windows _ resolved hagain]
  exact (mergePath_join windows current resolved).symm

theorem mergePath_iterate (n : Nat) :
    (fun path => mergePath windows path resolved)^[n + 1] current = mergePath windows current resolved := by
  induction n with
  | zero => rfl
  | succ n ih =>
      rw [Function.iterate_succ_apply', ih]
      exact mergePath_again windows current resolved

/-- The merge is an ordered union, and merging the same entries any number of times
over changes nothing after the first. -/
theorem mergePath_union : Merges windows current resolved (mergePath windows current resolved) ∧
    mergePath windows (mergePath windows current resolved) resolved = mergePath windows current resolved ∧
    ∀ n, (fun path => mergePath windows path resolved)^[n + 1] current = mergePath windows current resolved :=
  ⟨mergePath_merges windows current resolved, mergePath_again windows current resolved,
    mergePath_iterate windows current resolved⟩

/-- Two values of PATH without entries are merged to one whose only entry is empty. -/
theorem mergePath_nothing : mergePath false "" "" = "" ∧
    [] ∈ (mergePath false "" "").toList.splitOn (separator false) := by
  refine ⟨rfl, ?_⟩
  rw [show mergePath false "" "" = "" from rfl]
  decide

variable {windows current resolved} {ask : OsString → List String → Option (List UInt8)} {vars after : Vars}

theorem setVar_ok {key value : String} (h : setVar vars key value = .ok after) : ∃ new : Value,
    new.string = .ofString value ∧ after = Function.update vars (.ofString key) (some new) := by
  rw [setVar] at h
  split at h
  · cases h
  · exact ⟨⟨.ofString value, _⟩, rfl, (Except.ok.inj h).symm⟩

theorem queryLoginShellPath_update (new : Option Value) :
    queryLoginShellPath ask (Function.update vars (.ofString "PATH") new) = queryLoginShellPath ask vars := by
  have hother : OsString.ofString "SHELL" ≠ .ofString "PATH" := fun he =>
    absurd (OsString.ofString_inj he) (by decide)
  rw [queryLoginShellPath, Function.update_of_ne hother]
  rfl

theorem currentPath_update {new : Value} {value : String} (hnew : new.string = .ofString value) :
    currentPath (Function.update vars (.ofString "PATH") (some new)) = value := by
  rw [currentPath, Function.update_self, Option.bind_some, hnew, OsString.toStr_ofString, Option.getD_some]

/-- A launch with the variables that an earlier one left changes nothing. -/
theorem restoreLoginShellPath_again {changed : Bool}
    (h : restoreLoginShellPath windows ask vars = .ok (changed, after)) :
    restoreLoginShellPath windows ask after = .ok (false, after) := by
  rw [restoreLoginShellPath] at h ⊢
  by_cases hwindows : windows = true
  · rw [if_pos hwindows]
  rw [if_neg hwindows] at h ⊢
  cases hquery : queryLoginShellPath ask vars with
  | none =>
      rw [hquery] at h
      cases h
      rw [hquery]
  | some resolved =>
      rw [hquery] at h
      by_cases hsame : mergePath windows (currentPath vars) resolved = currentPath vars
      · simp only [hsame, reduceIte] at h
        cases h
        simp only [hquery, hsame, reduceIte]
      · simp only [hsame, reduceIte, bind, Except.bind] at h
        split at h
        · cases h
        · rename_i hset
          cases h
          obtain ⟨new, hnew, rfl⟩ := setVar_ok hset
          rw [queryLoginShellPath_update, hquery]
          simp only [currentPath_update hnew, mergePath_again, reduceIte]

end LocalDevProxy.PathMerge
