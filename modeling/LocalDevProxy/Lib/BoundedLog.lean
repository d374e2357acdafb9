import Mathlib.Data.List.Basic

namespace LocalDevProxy.Lib.BoundedLog

variable {α : Type}

/-- A log as its closed files, newest first, and the file that it grows in. -/
structure Log (α : Type) where
  backups : List (List α)
  active : List α

namespace Log

def close (l : Log α) : Log α := ⟨l.active :: l.backups, []⟩

def makeRoom (cap : Nat) (l : Log α) : Log α := if cap ≤ l.active.length then l.close else l

def append (l : Log α) (xs : List α) : Log α := { l with active := l.active ++ xs }

/-- A full file is closed before one more element is written. -/
def push (cap : Nat) (l : Log α) (a : α) : Log α := (l.makeRoom cap).append [a]

def write (cap : Nat) (l : Log α) (data : List α) : Log α := data.foldl (push cap) l

def reading (l : Log α) : List α := l.backups.reverse.flatten ++ l.active

def keep (n : Nat) (l : Log α) : Log α := { l with backups := l.backups.take n }

def gone (n : Nat) (l : Log α) : List (List α) := (l.backups.drop n).reverse

theorem reading_close (l : Log α) : l.close.reading = l.reading := by
  simp [close, reading]

theorem reading_makeRoom (cap : Nat) (l : Log α) : (l.makeRoom cap).reading = l.reading := by
  unfold makeRoom
  split
  · exact reading_close l
  · rfl

theorem reading_append (l : Log α) (xs : List α) : (l.append xs).reading = l.reading ++ xs := by
  simp [append, reading]

theorem reading_write (cap : Nat) (l : Log α) (data : List α) :
    (l.write cap data).reading = l.reading ++ data := by
  induction data generalizing l with
  | nil => simp [write]
  | cons a data ih =>
      have hpush : (l.push cap a).reading = l.reading ++ [a] := by
        rw [push, reading_append, reading_makeRoom]
      have htail := ih (l.push cap a)
      rw [hpush, List.append_assoc] at htail
      exact htail

theorem reading_keep (n : Nat) (l : Log α) : (l.gone n).flatten ++ (l.keep n).reading = l.reading := by
  have h : l.backups.reverse = (l.backups.drop n).reverse ++ (l.backups.take n).reverse := by
    rw [← List.reverse_append, List.take_append_drop]
  simp [gone, keep, reading, h]

theorem write_append (cap : Nat) (l : Log α) (xs ys : List α) :
    l.write cap (xs ++ ys) = (l.write cap xs).write cap ys :=
  List.foldl_append

/-- What fits goes to the end of the file. -/
theorem write_fits (cap : Nat) (l : Log α) (xs : List α) (h : l.active.length + xs.length ≤ cap) :
    l.write cap xs = l.append xs := by
  induction xs generalizing l with
  | nil => simp [write, append]
  | cons a xs ih =>
      have hroom : ¬ cap ≤ l.active.length := by
        simp only [List.length_cons] at h
        omega
      have hpush : l.push cap a = l.append [a] := by simp [push, makeRoom, hroom]
      have hfits : (l.append [a]).active.length + xs.length ≤ cap := by
        simp only [append, List.length_append, List.length_cons, List.length_nil] at h ⊢
        omega
      have htail := ih (l.append [a]) hfits
      rw [show l.write cap (a :: xs) = (l.push cap a).write cap xs from rfl, hpush, htail]
      simp [append]

/-- A full file can be closed at once, when there is something to write. -/
theorem write_makeRoom (cap : Nat) (l : Log α) (hcap : 0 < cap) (a : α) (xs : List α) :
    (l.makeRoom cap).write cap (a :: xs) = l.write cap (a :: xs) := by
  have hroom : (l.makeRoom cap).makeRoom cap = l.makeRoom cap := by
    by_cases hfull : cap ≤ l.active.length
    · have hopen : ¬ cap ≤ 0 := by omega
      simp [makeRoom, hfull, close, hopen]
    · simp [makeRoom, hfull]
  have hpush : (l.makeRoom cap).push cap a = l.push cap a := by rw [push, hroom, push]
  exact congrArg (fun l' : Log α => l'.write cap xs) hpush

theorem flatMap_kept (files : List (List α)) (n : Nat) :
    (List.range n).reverse.flatMap (fun i => (files[i]?).getD []) = (files.take n).reverse.flatten := by
  induction n with
  | zero => simp
  | succ n ih =>
      rw [List.range_succ, List.reverse_append, List.flatMap_append, ih, List.take_add_one,
        List.reverse_append, List.flatten_append]
      cases hn : files[n]? with
      | none => simp [hn]
      | some file => simp [hn]

end Log

end LocalDevProxy.Lib.BoundedLog
