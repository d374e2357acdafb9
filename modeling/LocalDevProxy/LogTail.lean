import LocalDevProxy.Lib.LossyUtf8

namespace LocalDevProxy.LogTail

open Lib.LossyUtf8

def stripReturn (line : List Char) : List Char :=
  if line.getLast? = some '\r' then line.dropLast else line

/-- The lines of a text, of which the first has begun. A line feed ends a line
with the carriage return before it, and the last line may go without. -/
def linesFrom (begun : List Char) : List Char → List (List Char)
  | [] => if begun = [] then [] else [begun]
  | c :: cs => if c = '\n' then stripReturn begun :: linesFrom [] cs else linesFrom (begun ++ [c]) cs

def lines (text : List Char) : List (List Char) := linesFrom [] text

/-- A file that was opened: the end found by seeking, and what a seek to a
position and a read of a size give. -/
structure OpenFile where
  seekEnd : Option Nat
  readAt : Nat → Nat → Option (List UInt8)

def OpenFile.holding (content : List UInt8) : OpenFile where
  seekEnd := some content.length
  readAt := fun position size =>
    if position + size ≤ content.length then some ((content.drop position).take size) else none

structure ChunkSize where
  bytes : Nat
  positive : 0 < bytes

/-- Chunks are read from the end on until there are more line feeds than lines to show. -/
def readBack (file : OpenFile) (chunk : ChunkSize) (lines position : Nat) (buffer : List UInt8) :
    Option (List UInt8) :=
  if 0 < position ∧ buffer.count 10 ≤ lines then
    let size := min chunk.bytes position
    match file.readAt (position - size) size with
    | none => none
    | some bytes => readBack file chunk lines (position - size) (bytes ++ buffer)
  else some buffer
termination_by position
decreasing_by
  have hchunk := chunk.positive
  omega

def lastLines (text : List Char) (count : Nat) : List Char :=
  let all := lines text
  let tail := all.drop (all.length - count)
  if tail = [] then [] else ['\n'].intercalate tail ++ ['\n']

/-- The tail read in chunks of a size; without a file, or when a call on it fails, it is empty. -/
def tailBy (chunk : ChunkSize) (file : Option OpenFile) (lines : Nat) : String :=
  if lines = 0 then ""
  else
    match file with
    | none => ""
    | some file =>
        match file.seekEnd with
        | none => ""
        | some position =>
            match readBack file chunk lines position [] with
            | none => ""
            | some buffer => .ofList (lastLines (decode buffer) lines)

def chunk : ChunkSize := ⟨8192, Nat.zero_lt_succ 8191⟩

def tailFile (file : Option OpenFile) (lines : Nat) : String := tailBy chunk file lines

theorem linesFrom_feed (begun xs ys : List Char) :
    linesFrom begun (xs ++ '\n' :: ys) = linesFrom begun (xs ++ ['\n']) ++ lines ys := by
  induction xs generalizing begun with
  | nil => simp [linesFrom, lines]
  | cons x xs ih =>
      by_cases hx : x = '\n'
      · simp [linesFrom, hx, ih]
      · simp [linesFrom, hx, ih]

theorem lines_feed (xs ys : List Char) : lines (xs ++ '\n' :: ys) = lines (xs ++ ['\n']) ++ lines ys :=
  linesFrom_feed [] xs ys

theorem count_le_linesFrom (begun text : List Char) :
    text.count '\n' ≤ (linesFrom begun text).length := by
  induction text generalizing begun with
  | nil => exact Nat.zero_le _
  | cons c cs ih =>
      rw [linesFrom]
      by_cases hc : c = '\n'
      · rw [if_pos hc, hc, List.count_cons_self, List.length_cons]
        exact Nat.succ_le_succ (ih [])
      · rw [if_neg hc, List.count_cons_of_ne hc]
        exact ih _

/-- Every line feed among the bytes is one among the characters. -/
theorem count_le_decode (bytes : List UInt8) : bytes.count 10 ≤ (decode bytes).count '\n' := by
  have hfrom : ∀ pending, bytes.count 10 ≤ (decodeFrom pending bytes).count '\n' := by
    intro pending
    induction bytes generalizing pending with
    | nil => exact Nat.zero_le _
    | cons b rest ih =>
        rw [decodeFrom, List.count_append]
        have hrest := ih (step pending b).2
        by_cases hb : b = 10
        · subst hb
          have hstep : 1 ≤ (step pending 10).1.count '\n' := by
            rw [step_ascii (by decide)]
            simp
          rw [List.count_cons_self]
          omega
        · rw [List.count_cons_of_ne hb]
          omega
  exact hfrom none

theorem drop_last_append {α : Type} (before after : List α) {n : Nat} (h : n ≤ after.length) :
    (before ++ after).drop ((before ++ after).length - n) = after.drop (after.length - n) := by
  have hlength : (before ++ after).length - n = before.length + (after.length - n) := by
    rw [List.length_append]
    omega
  rw [hlength, List.drop_length_add_append]

/-- The last lines of a text are those of what follows a line feed, if it has as many. -/
theorem lastLines_feed (xs ys : List Char) {n : Nat} (h : n ≤ (lines ys).length) :
    lastLines (xs ++ '\n' :: ys) n = lastLines ys n := by
  simp only [lastLines, lines_feed xs ys, drop_last_append _ _ h]

/-- Bytes with more line feeds than lines to show decide them, whatever comes before. -/
theorem lastLines_decode (before : List UInt8) {buffer : List UInt8} {n : Nat} (h : n < buffer.count 10) :
    lastLines (decode (before ++ buffer)) n = lastLines (decode buffer) n := by
  have hpos : 0 < buffer.count 10 := by omega
  obtain ⟨head, rest, rfl, hfirst⟩ := List.eq_append_cons_of_mem (List.count_pos_iff.mp hpos)
  have hcount : n ≤ rest.count 10 := by
    rw [List.count_append, List.count_cons_self, List.count_eq_zero_of_not_mem hfirst] at h
    omega
  have hlines : n ≤ (lines (decode rest)).length :=
    Nat.le_trans hcount (Nat.le_trans (count_le_decode rest) (count_le_linesFrom [] _))
  have hfeed : ∀ bytes, lastLines (decode (bytes ++ 10 :: rest)) n = lastLines (decode rest) n := by
    intro bytes
    rw [decode_ascii (by decide)]
    exact lastLines_feed _ _ hlines
  rw [← List.append_assoc, hfeed, hfeed]

theorem readAt_last (before buffer : List UInt8) {size : Nat} (h : size ≤ before.length) :
    (OpenFile.holding (before ++ buffer)).readAt (before.length - size) size =
      some (before.drop (before.length - size)) := by
  have hfits : before.length - size + size ≤ (before ++ buffer).length := by
    rw [List.length_append]
    omega
  have hlength : (before.drop (before.length - size)).length = size := by
    rw [List.length_drop]
    omega
  simp only [OpenFile.holding, if_pos hfits]
  rw [List.drop_append_of_le_length (by omega), List.take_left' hlength]

/-- What reading back gives is the content from some position on: the beginning,
or one with more line feeds after it than lines to show. -/
theorem readBack_suffix (content : List UInt8) (chunk : ChunkSize) (lines position : Nat)
    (before buffer : List UInt8) (hcontent : content = before ++ buffer)
    (hposition : before.length = position) :
    ∃ passed out, readBack (.holding content) chunk lines position buffer = some out ∧
      content = passed ++ out ∧ (passed = [] ∨ lines < out.count 10) := by
  induction position using Nat.strongRecOn generalizing before buffer with
  | ind position ih =>
      rw [readBack]
      by_cases hmore : 0 < position ∧ buffer.count 10 ≤ lines
      · have hchunk := chunk.positive
        have hread : (OpenFile.holding content).readAt (position - min chunk.bytes position)
            (min chunk.bytes position) = some (before.drop (position - min chunk.bytes position)) := by
          rw [hcontent, ← hposition]
          exact readAt_last before buffer (Nat.min_le_right _ _)
        simp only [if_pos hmore, hread]
        refine ih _ (by omega) (before.take (position - min chunk.bytes position)) _ ?_ ?_
        · rw [hcontent, ← List.append_assoc, List.take_append_drop]
        · rw [List.length_take]
          omega
      · rw [if_neg hmore]
        refine ⟨before, buffer, rfl, hcontent, ?_⟩
        by_cases hzero : position = 0
        · exact .inl (List.eq_nil_of_length_eq_zero (hposition.trans hzero))
        · exact .inr (by omega)

theorem tailBy_eq (content : List UInt8) (count : Nat) (chunk : ChunkSize) :
    tailBy chunk (some (.holding content)) count = .ofList (lastLines (decode content) count) := by
  by_cases hzero : count = 0
  · subst hzero
    simp [tailBy, lastLines]
  · obtain ⟨passed, out, hread, hcontent, hout⟩ :=
      readBack_suffix content chunk count content.length content [] (List.append_nil _).symm rfl
    have hlast : lastLines (decode content) count = lastLines (decode out) count := by
      rw [hcontent]
      rcases hout with rfl | hmany
      · rfl
      · exact lastLines_decode passed hmany
    simp only [tailBy, if_neg hzero, OpenFile.holding] at hread ⊢
    simp only [hread, hlast]

/-- The tail of a file is that of its whole text, and so it would be in chunks of any size. -/
theorem tailFile_eq (content : List UInt8) (count : Nat) :
    tailFile (some (.holding content)) count = .ofList (lastLines (decode content) count) ∧
      ∀ size : ChunkSize, tailBy size (some (.holding content)) count =
        tailFile (some (.holding content)) count := by
  refine ⟨tailBy_eq content count chunk, ?_⟩
  intro size
  rw [tailFile, tailBy_eq, tailBy_eq]

example : lastLines (decode [97, 13, 10, 255, 10, 98, 13]) 2 = [replacement, '\n', 'b', '\r', '\n'] := by
  decide

end LocalDevProxy.LogTail
