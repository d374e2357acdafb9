import LocalDevProxy.ShellEnv

namespace LocalDevProxy.PathRepair

open Lib.LossyUtf8 Lib.Separated Lib.Utf8 Environment ShellEnv

def path (vars : Vars) : Option Value := vars (.ofString "PATH")

def colon : UInt8 := 0x3A

/-- The entries of PATH, which are any bytes but a colon. -/
def pathEntries (vars : Vars) : List (List UInt8) :=
  ((path vars).map fun value => entries colon (bytesOf value.string)).getD []

def between (output : List UInt8) : Option (List UInt8) := do
  let start := (← find (encode marker) output) + (encode marker).length
  let length ← find (encode marker) (output.drop start)
  let path := (output.drop start).take length
  if path ≠ [] then some path else none

/-- The PATH that the login shell prints, as the bytes it prints. -/
def printedPath (ask : OsString → List String → Option (List UInt8)) (vars : Vars) : Option (List UInt8) := do
  let shell ← (vars (.ofString "SHELL")).filter (fun shell => bytesOf shell.string ≠ [])
  between (← ask shell.string ["-ilc", script])

/-- The repair kept every entry that PATH had, and put those that the login shell printed first. -/
def Repaired (vars : Vars) (printed : Option (List UInt8)) (outcome : Except Fault (Bool × Vars)) : Prop :=
  ∃ changed after, outcome = .ok (changed, after) ∧ (∀ entry ∈ pathEntries vars, entry ∈ pathEntries after) ∧
    ∀ bytes ∈ printed, (entries colon bytes).eraseDups <+: pathEntries after

/-- PATH is Unicode where the login shell printed entries for it, and these are a text without a
NUL. -/
def Repairable (prior : Option Value) (printed : Option (List UInt8)) : Prop :=
  ∀ bytes ∈ printed, entries colon bytes = [] ∨
    (∀ value ∈ prior, value.string.toStr.isSome) ∧ 0 ∉ bytes ∧ ∃ text, bytes = encode text

section

variable {α : Type} [DecidableEq α] {a : α} {pattern text : List α}

/-- What does not begin like the pattern is passed over. -/
theorem find_skip {xs : List α} (h : a ∉ xs) (ys : List α) :
    find (a :: pattern) (xs ++ ys) = (find (a :: pattern) ys).map (· + xs.length) := by
  induction xs with
  | nil => exact Option.map_id'.symm
  | cons x xs ih =>
      rw [List.mem_cons, not_or] at h
      rw [List.cons_append, find, if_neg fun hp => h.1 (List.cons_prefix_cons.mp hp).1, ih h.2, Option.map_map]
      rfl

theorem find_none (h : a ∉ text) : find (a :: pattern) text = none := by
  rw [← List.append_nil text, find_skip h]
  rfl

theorem find_some {n : Nat} (h : find pattern text = some n) :
    ∃ before after, text = before ++ (pattern ++ after) ∧ before.length = n := by
  induction text generalizing n with
  | nil =>
      rw [find] at h
      split at h
      · rename_i hpattern
        obtain rfl := Option.some.inj h
        exact ⟨[], [], by rw [hpattern]; rfl, rfl⟩
      · cases h
  | cons c text ih =>
      rw [find] at h
      split at h
      · rename_i hp
        obtain rfl := Option.some.inj h
        obtain ⟨after, hafter⟩ := hp
        exact ⟨[], after, hafter.symm, rfl⟩
      · obtain ⟨m, hm, rfl⟩ := Option.map_eq_some_iff.mp h
        obtain ⟨before, after, hwhole, hlength⟩ := ih hm
        exact ⟨c :: before, after, by rw [hwhole]; rfl, by rw [List.length_cons, hlength]⟩

end

/-- Decoding keeps the places of ASCII text. -/
theorem find_decode (b : UInt8) (pattern : List UInt8) (hascii : ∀ x ∈ b :: pattern, x < 128) (output : List UInt8) :
    find ((b :: pattern).map fun x => Char.ofNat x.toNat) (decode output) =
      (find (b :: pattern) output).map fun n => (decode (output.take n)).length := by
  have hwide {xs : List UInt8} (hxs : ∀ x ∈ xs, 128 ≤ x) : b ∉ xs ∧ Char.ofNat b.toNat ∉ decode xs := by
    have hb := hascii b List.mem_cons_self
    refine ⟨fun hmem => absurd hb (UInt8.not_lt.mpr (hxs b hmem)), fun hmem => ?_⟩
    have hchar := decode_wide hxs _ hmem
    rw [ascii_toNat hb] at hchar
    exact absurd hb (UInt8.not_lt.mpr (UInt8.le_iff_toNat_le.mpr hchar))
  induction output using ascii_induction with
  | wide xs hxs =>
    rw [List.map_cons, find_none (hwide hxs).1, find_none (hwide hxs).2]
    rfl
  | ascii xs c ys hxs hc ih =>
    have hmap : (b :: pattern).map (fun x => Char.ofNat x.toNat) =
        Char.ofNat b.toNat :: pattern.map fun x => Char.ofNat x.toNat := rfl
    have hsplit : decode (c :: ys) = Char.ofNat c.toNat :: decode ys := decode_ascii hc [] ys
    have hprefix := prefix_decode hascii (c :: ys)
    rw [decode_ascii hc, hmap, find_skip (hwide hxs).2, find_skip (hwide hxs).1, ← hsplit, ← hmap]
    by_cases hp : b :: pattern <+: c :: ys
    · rw [find, if_pos hp, hsplit, find, if_pos (hsplit ▸ hprefix.mpr hp)]
      simp
    · rw [find, if_neg hp, hsplit, find, if_neg (hsplit ▸ mt hprefix.mp hp), ih, Option.map_map, Option.map_map,
        Option.map_map, Option.map_map]
      refine congrArg (Option.map · _) (funext fun n => ?_)
      have htake : (xs ++ c :: ys).take (n + 1 + xs.length) = xs ++ c :: ys.take n := by
        rw [Nat.add_comm, List.take_length_add_append, List.take_succ_cons]
      simp only [Function.comp_apply, htake, decode_ascii hc, List.length_append, List.length_cons]
      omega

theorem marker_ascii : ∀ b ∈ encode marker, b < 128 := by decide +kernel

theorem marker_text : (encode marker).map (fun b => Char.ofNat b.toNat) = marker := by decide +kernel

theorem marker_cons : encode marker = 0x5F :: (encode marker).tail := by decide +kernel

theorem find_marker (output : List UInt8) :
    find marker (decode output) = (find (encode marker) output).map fun n => (decode (output.take n)).length := by
  have hfind := find_decode 0x5F (encode marker).tail (marker_cons ▸ marker_ascii) output
  rwa [← marker_cons, marker_text] at hfind

/-- Text around a marker is decoded on its own. -/
theorem decode_marker (xs ys : List UInt8) :
    decode (xs ++ (encode marker ++ ys)) = decode xs ++ (marker ++ decode ys) := by
  have htail : ∀ b ∈ (encode marker).tail, b < 128 := fun b hb => marker_ascii b (List.mem_of_mem_tail hb)
  have hdecoded := decode_append_ascii htail ys
  have hfirst : decode (0x5F :: ((encode marker).tail ++ ys)) = decode (encode marker ++ ys) := by
    rw [← List.cons_append, ← marker_cons]
  have hsplit := decode_ascii (show (0x5F : UInt8) < 128 by decide) xs ((encode marker).tail ++ ys)
  rw [← List.cons_append, ← marker_cons] at hsplit
  rw [hsplit, hdecoded, ← marker_text, marker_cons]
  rfl

/-- What is extracted from the text is the decoded part of the bytes. -/
theorem extractMarkedPath_decode (output : List UInt8) :
    extractMarkedPath (decode output) = (between output).map fun bytes => .ofList (decode bytes) := by
  rw [extractMarkedPath, between, find_marker]
  cases hfirst : find (encode marker) output with
  | none => rfl
  | some n =>
      obtain ⟨before, after, rfl, rfl⟩ := find_some hfirst
      have hdecoded : (decode before ++ (marker ++ decode after)).drop ((decode before).length + marker.length) =
          decode after := by
        rw [List.drop_length_add_append, List.drop_append_length]
      have hbytes : (before ++ (encode marker ++ after)).drop (before.length + (encode marker).length) = after := by
        rw [List.drop_length_add_append, List.drop_append_length]
      simp only [Option.map_some, Option.bind_eq_bind, Option.bind_some, List.take_append_length, decode_marker,
        hdecoded, hbytes, find_marker]
      cases hsecond : find (encode marker) after with
      | none => rfl
      | some k =>
          obtain ⟨path, rest, rfl, rfl⟩ := find_some hsecond
          simp only [Option.map_some, Option.bind_some, List.take_append_length, decode_marker]
          by_cases hempty : path = []
          · rw [if_neg (not_not_intro hempty), if_neg (not_not_intro (decode_eq_nil.mpr hempty))]
            rfl
          · rw [if_pos hempty, if_pos (mt decode_eq_nil.mp hempty)]
            rfl

theorem queryLoginShellPath_eq (ask : OsString → List String → Option (List UInt8)) (vars : Vars) :
    queryLoginShellPath ask vars = (printedPath ask vars).map fun bytes => .ofList (decode bytes) := by
  rw [queryLoginShellPath, printedPath]
  cases (vars (.ofString "SHELL")).filter (fun shell => bytesOf shell.string ≠ []) with
  | none => rfl
  | some shell =>
      change (ask shell.string ["-ilc", script]).bind (fun output => extractMarkedPath (decode output)) =
        ((ask shell.string ["-ilc", script]).bind between).map _
      cases ask shell.string ["-ilc", script] with
      | none => rfl
      | some output => exact extractMarkedPath_decode output

theorem bytesOf_ofString (text : String) : bytesOf (.ofString text) = encode text.toList :=
  data_toByteArray text

theorem bytesOf_inj {a b : OsString} (h : bytesOf a = bytesOf b) : a = b := by
  obtain ⟨⟨a⟩⟩ := a
  obtain ⟨⟨b⟩⟩ := b
  have hdata : a = b := Array.toList_inj.mp h
  rw [hdata]

theorem entries_encode (text : List Char) : entries colon (encode text) = (entries ':' text).map encode := by
  refine entries_flatMap (encode_ascii (c := ':') (by decide)) (fun c hc => ⟨fun hmem => hc ?_, ?_⟩) text
  · exact mem_encodeChar (c := ':') (by decide) hmem
  · exact String.utf8EncodeChar_ne_nil

theorem noNul_iff (text : String) : 0 ∈ bytesOf (.ofString text) ↔ '\x00' ∈ text.toList := by
  rw [bytesOf_ofString]
  exact mem_encode (c := '\x00') (by decide) text.toList

theorem pathEntries_text {vars : Vars} (hunicode : ∀ value ∈ path vars, value.string.toStr.isSome) :
    pathEntries vars = (entries ':' (currentPath vars).toList).map encode := by
  rw [pathEntries, currentPath]
  change ((path vars).map _).getD [] = (entries ':' (((path vars).bind _).getD "").toList).map encode
  cases hpath : path vars with
  | none => rfl
  | some value =>
      obtain ⟨text, htext⟩ := Option.isSome_iff_exists.mp (hunicode value hpath)
      rw [Option.map_some, Option.getD_some, Option.bind_some, htext, Option.getD_some,
        ← OsString.ofString_of_toStr htext, bytesOf_ofString, entries_encode]

theorem currentPath_noNul (vars : Vars) : '\x00' ∉ (currentPath vars).toList := by
  rw [currentPath]
  cases vars (.ofString "PATH") with
  | none => exact List.not_mem_nil
  | some value =>
      rw [Option.bind_some]
      cases htext : value.string.toStr with
      | none => exact List.not_mem_nil
      | some text =>
          rw [Option.getD_some, ← noNul_iff, OsString.ofString_of_toStr htext]
          exact value.noNul

theorem currentPath_broken {vars : Vars} {value : Value} (hpath : path vars = some value)
    (hbroken : value.string.toStr = none) : currentPath vars = "" := by
  rw [currentPath]
  change (((path vars).bind _).getD "") = ""
  rw [hpath, Option.bind_some, hbroken, Option.getD_none]

variable {vars : Vars} {resolved : String}

theorem entries_merged (current resolved : String) :
    entries ':' (mergePath false current resolved).toList =
      (entries ':' resolved.toList ++ entries ':' current.toList).eraseDups :=
  entries_mergePath false current resolved

theorem mem_merged {c : Char} (hc : c ≠ ':') (current resolved : String) :
    c ∈ (mergePath false current resolved).toList ↔ c ∈ resolved.toList ∨ c ∈ current.toList := by
  rw [mem_iff_entries hc, entries_merged, mem_iff_entries hc resolved.toList, mem_iff_entries hc current.toList]
  simp only [List.mem_eraseDups, List.mem_append, or_and_right, exists_or]

theorem pathEntries_update (vars : Vars) (text : String) (h : 0 ∉ bytesOf (.ofString text)) :
    pathEntries (Function.update vars (.ofString "PATH") (some ⟨.ofString text, h⟩)) =
      (entries ':' text.toList).map encode := by
  rw [pathEntries, path, Function.update_self, Option.map_some, Option.getD_some, bytesOf_ofString, entries_encode]

/-- Bytes whose entries are all encoded texts are an encoded text. -/
theorem text_of_entries {bytes : List UInt8} (h : ∀ entry ∈ entries colon bytes, ∃ text, entry = encode text) :
    ∃ text, bytes = encode text := by
  have hparts : ∀ part ∈ bytes.splitOn colon, ∃ text, part = encode text := by
    intro part hpart
    by_cases hempty : part = []
    · exact ⟨[], hempty⟩
    · exact h part (List.mem_filter.mpr ⟨hpart, decide_eq_true hempty⟩)
  have hjoined : ∀ parts : List (List UInt8), (∀ part ∈ parts, ∃ text, part = encode text) →
      ∃ texts : List (List Char), parts = texts.map encode := by
    intro parts
    induction parts with
    | nil => exact fun _ => ⟨[], rfl⟩
    | cons part parts ih =>
        intro hall
        rw [List.forall_mem_cons] at hall
        obtain ⟨text, rfl⟩ := hall.1
        obtain ⟨texts, rfl⟩ := ih hall.2
        exact ⟨text :: texts, rfl⟩
  obtain ⟨texts, htexts⟩ := hjoined _ hparts
  refine ⟨[':'].intercalate texts, ?_⟩
  have hwhole : [colon].intercalate (bytes.splitOn colon) = bytes := List.intercalate_splitOn colon
  rw [← hwhole, htexts]
  exact (flatMap_intercalate (encode_ascii (c := ':') (by decide)) texts).symm

theorem unicode_of_text {value : Value} {text : List Char} (h : bytesOf value.string = encode text) :
    value.string.toStr.isSome := by
  have hstring : value.string = .ofString (.ofList text) := by
    refine bytesOf_inj ?_
    rw [h, bytesOf_ofString, String.toList_ofList]
  rw [hstring, OsString.toStr_ofString]
  rfl

theorem merged_ne_iff {value : Value} (hpath : path vars = some value) (hbroken : value.string.toStr = none) :
    mergePath false (currentPath vars) resolved = currentPath vars ↔ entries ':' resolved.toList = [] := by
  rw [currentPath_broken hpath hbroken]
  constructor
  · intro hsame
    have hentries := entries_merged "" resolved
    rw [hsame] at hentries
    refine List.eq_nil_iff_forall_not_mem.mpr fun entry hentry => ?_
    have hmem : entry ∈ (entries ':' resolved.toList ++ entries ':' "".toList).eraseDups :=
      List.mem_eraseDups.mpr (List.mem_append_left _ hentry)
    rw [← hentries] at hmem
    cases hmem
  · intro hnone
    rw [mergePath_eq, show separator false = ':' from rfl, hnone]
    rfl

theorem exists_broken (h : ¬ ∀ value ∈ path vars, value.string.toStr.isSome) :
    ∃ value, path vars = some value ∧ value.string.toStr = none := by
  simpa using h

variable {ask : OsString → List String → Option (List UInt8)}

theorem restore_eq (hquery : queryLoginShellPath ask vars = some resolved) :
    restoreLoginShellPath false ask vars =
      if mergePath false (currentPath vars) resolved = currentPath vars then .ok (false, vars)
      else (setVar vars "PATH" (mergePath false (currentPath vars) resolved)).map fun after => (true, after) := by
  rw [restoreLoginShellPath, if_neg Bool.false_ne_true, hquery]
  rfl

theorem nul_of_set {current : String} {after : Vars}
    (h : setVar vars "PATH" (mergePath false current resolved) = .ok after) :
    '\x00' ∉ resolved.toList ∧
      pathEntries after = (entries ':' (mergePath false current resolved).toList).map encode := by
  by_cases hnul : 0 ∈ bytesOf (.ofString (mergePath false current resolved))
  · rw [setVar, dif_pos hnul] at h
    cases h
  · rw [setVar, dif_neg hnul] at h
    obtain rfl := Except.ok.inj h
    refine ⟨fun hmem => hnul ?_, pathEntries_update vars _ hnul⟩
    rw [noNul_iff, mem_merged (by decide)]
    exact .inl hmem

/-- With a Unicode PATH and no NUL, PATH is the merge afterwards. -/
theorem restore_merges (hquery : queryLoginShellPath ask vars = some resolved)
    (hunicode : ∀ value ∈ path vars, value.string.toStr.isSome) (hnul : '\x00' ∉ resolved.toList) :
    ∃ changed after, restoreLoginShellPath false ask vars = .ok (changed, after) ∧
      pathEntries after =
        (entries ':' resolved.toList ++ entries ':' (currentPath vars).toList).eraseDups.map encode := by
  rw [restore_eq hquery, ← entries_merged]
  split
  · rename_i hsame
    exact ⟨false, vars, rfl, by rw [hsame, pathEntries_text hunicode]⟩
  · have hno : 0 ∉ bytesOf (.ofString (mergePath false (currentPath vars) resolved)) := by
      rw [noNul_iff, mem_merged (by decide)]
      exact fun hmem => hmem.elim hnul (currentPath_noNul vars)
    rw [setVar, dif_neg hno]
    exact ⟨true, _, rfl, pathEntries_update vars _ hno⟩

/-- Where the login shell has no entries, none of PATH is lost. -/
theorem restore_nothing (hquery : queryLoginShellPath ask vars = some resolved)
    (hnone : entries ':' resolved.toList = []) :
    ∃ changed after, restoreLoginShellPath false ask vars = .ok (changed, after) ∧
      ∀ entry ∈ pathEntries vars, entry ∈ pathEntries after := by
  by_cases hunicode : ∀ value ∈ path vars, value.string.toStr.isSome
  · have hnul : '\x00' ∉ resolved.toList := fun hmem =>
      absurd (entries_eq_nil.mp hnone '\x00' hmem) (by decide)
    obtain ⟨changed, after, hok, hafter⟩ := restore_merges hquery hunicode hnul
    refine ⟨changed, after, hok, fun entry hentry => ?_⟩
    rw [pathEntries_text hunicode] at hentry
    rw [hafter, hnone, List.nil_append]
    obtain ⟨text, htext, rfl⟩ := List.mem_map.mp hentry
    exact List.mem_map_of_mem (List.mem_eraseDups.mpr htext)
  · obtain ⟨value, hpath, hbroken⟩ := exists_broken hunicode
    rw [restore_eq hquery, if_pos ((merged_ne_iff hpath hbroken).mpr hnone)]
    exact ⟨false, vars, rfl, fun entry hentry => hentry⟩

/-- Where it has some, PATH is a text afterwards, and what was extracted has no NUL. -/
theorem restore_text {changed : Bool} {after : Vars} (hquery : queryLoginShellPath ask vars = some resolved)
    (hsome : entries ':' resolved.toList ≠ []) (hok : restoreLoginShellPath false ask vars = .ok (changed, after)) :
    '\x00' ∉ resolved.toList ∧ ∀ entry ∈ pathEntries after, ∃ text, entry = encode text := by
  rw [restore_eq hquery] at hok
  split at hok
  · rename_i hsame
    obtain ⟨rfl, rfl⟩ := Prod.mk.inj (Except.ok.inj hok)
    have hnul : '\x00' ∉ resolved.toList := fun hmem => by
      have hmerged := (mem_merged (by decide) (currentPath vars) resolved).mpr (.inl hmem)
      rw [hsame] at hmerged
      exact currentPath_noNul vars hmerged
    have hunicode : ∀ value ∈ path vars, value.string.toStr.isSome := by
      by_contra hnot
      obtain ⟨value, hpath, hbroken⟩ := exists_broken hnot
      exact hsome ((merged_ne_iff hpath hbroken).mp hsame)
    refine ⟨hnul, fun entry hentry => ?_⟩
    rw [pathEntries_text hunicode] at hentry
    obtain ⟨text, _, rfl⟩ := List.mem_map.mp hentry
    exact ⟨text, rfl⟩
  · cases hset : setVar vars "PATH" (mergePath false (currentPath vars) resolved) with
    | error fault =>
        rw [hset] at hok
        cases hok
    | ok set =>
        rw [hset] at hok
        obtain ⟨rfl, rfl⟩ := Prod.mk.inj (Except.ok.inj hok)
        obtain ⟨hnul, hafter⟩ := nul_of_set hset
        refine ⟨hnul, fun entry hentry => ?_⟩
        rw [hafter] at hentry
        obtain ⟨text, _, rfl⟩ := List.mem_map.mp hentry
        exact ⟨text, rfl⟩

theorem entries_decode {bytes : List UInt8} : entries ':' (decode bytes) = [] ↔ entries colon bytes = [] := by
  have hwide {xs : List UInt8} (hxs : ∀ x ∈ xs, 128 ≤ x) : (∀ c ∈ decode xs, c = ':') ↔ ∀ b ∈ xs, b = colon := by
    by_cases hempty : xs = []
    · rw [hempty]
      exact iff_of_true nofun nofun
    · obtain ⟨b, hb⟩ := List.exists_mem_of_ne_nil _ hempty
      obtain ⟨c, hc⟩ := List.exists_mem_of_ne_nil _ (mt decode_eq_nil.mp hempty)
      refine iff_of_false (fun hall => ?_) fun hall => ?_
      · exact absurd (hall c hc ▸ decode_wide hxs c hc) (by decide)
      · exact absurd (hall b hb ▸ hxs b hb) (by decide)
  rw [entries_eq_nil, entries_eq_nil]
  induction bytes using ascii_induction with
  | wide xs hxs => exact hwide hxs
  | ascii xs b ys hxs hb ih =>
      rw [decode_ascii hb, List.forall_mem_append, List.forall_mem_cons, List.forall_mem_append, List.forall_mem_cons]
      have hcolon : Char.ofNat b.toNat = ':' ↔ b = colon :=
        ⟨ofNat_inj (b := colon) hb (by decide), fun he => by rw [he]; rfl⟩
      exact and_congr (hwide hxs) (and_congr hcolon ih)

theorem encode_injective : Function.Injective encode := fun a b h => by
  rw [← decode_encode a, h, decode_encode]

/-- The repair keeps every entry and puts those that the login shell printed first exactly where
it printed none, or PATH is Unicode and what it printed is a text without a NUL. -/
theorem path_repaired (ask : OsString → List String → Option (List UInt8)) (vars : Vars) :
    Repaired vars (printedPath ask vars) (restoreLoginShellPath false ask vars) ↔
      Repairable (path vars) (printedPath ask vars) := by
  have hquery := queryLoginShellPath_eq ask vars
  cases hprinted : printedPath ask vars with
  | none =>
      rw [hprinted] at hquery
      rw [restoreLoginShellPath, if_neg Bool.false_ne_true, hquery]
      exact iff_of_true ⟨false, vars, rfl, fun _ hentry => hentry, nofun⟩ nofun
  | some bytes =>
      rw [hprinted] at hquery
      constructor
      · rintro ⟨changed, after, hok, hkept, hfirst⟩ _ ⟨⟩
        by_cases hnone : entries colon bytes = []
        · exact .inl hnone
        have hsome : entries ':' (String.ofList (decode bytes)).toList ≠ [] := by
          rw [String.toList_ofList]
          exact mt entries_decode.mp hnone
        obtain ⟨hnul, hafter⟩ := restore_text hquery hsome hok
        obtain ⟨text, rfl⟩ := text_of_entries fun entry hentry =>
          hafter entry ((hfirst bytes rfl).subset (List.mem_eraseDups.mpr hentry))
        rw [String.toList_ofList, decode_encode] at hnul
        refine .inr ⟨fun value hvalue => ?_, fun hzero => hnul ((mem_encode (c := '\x00') (by decide) text).mp hzero),
          text, rfl⟩
        have hprior : pathEntries vars = entries colon (bytesOf value.string) := by
          rw [pathEntries, Option.mem_def.mp hvalue]
          rfl
        obtain ⟨prior, hbytes⟩ := text_of_entries fun entry hentry => hafter entry (hkept entry (hprior ▸ hentry))
        exact unicode_of_text hbytes
      · intro hrepairable
        rcases hrepairable bytes rfl with hnone | ⟨hunicode, hzero, text, rfl⟩
        · have hnothing : entries ':' (String.ofList (decode bytes)).toList = [] := by
            rw [String.toList_ofList]
            exact entries_decode.mpr hnone
          obtain ⟨changed, after, hok, hkept⟩ := restore_nothing hquery hnothing
          refine ⟨changed, after, hok, hkept, ?_⟩
          rintro _ ⟨⟩
          rw [hnone]
          exact List.nil_prefix
        · have hnul : '\x00' ∉ (String.ofList (decode (encode text))).toList := by
            rw [String.toList_ofList, decode_encode]
            exact fun hmem => hzero ((mem_encode (c := '\x00') (by decide) text).mpr hmem)
          obtain ⟨changed, after, hok, hafter⟩ := restore_merges hquery hunicode hnul
          rw [String.toList_ofList, decode_encode] at hafter
          refine ⟨changed, after, hok, fun entry hentry => ?_, ?_⟩
          · rw [pathEntries_text hunicode] at hentry
            obtain ⟨kept, hmem, rfl⟩ := List.mem_map.mp hentry
            rw [hafter]
            exact List.mem_map_of_mem (List.mem_eraseDups.mpr (List.mem_append_right _ hmem))
          · rintro _ ⟨⟩
            rw [hafter, entries_encode, eraseDups_map encode_injective, List.eraseDups_append]
            exact (List.prefix_append _ _).map encode

def latinPath : Value := ⟨⟨⟨#[0x2F, 0xE9, 0x3A, 0x2F, 0x62]⟩⟩, by decide⟩

def latinVars : Vars := fun name =>
  if name = .ofString "PATH" then some latinPath
  else if name = .ofString "SHELL" then some ⟨.ofString "/bin/sh", by decide⟩
  else none

def answerBin : OsString → List String → Option (List UInt8) :=
  fun _ _ => some (encode (marker ++ "/bin".toList ++ marker))

theorem latin_directory_lost :
    ¬ Repaired latinVars (printedPath answerBin latinVars)
      (restoreLoginShellPath false answerBin latinVars) := by
  have hprior : pathEntries latinVars = [[0x2F, 0xE9], [0x2F, 0x62]] := by decide
  have hafter : (restoreLoginShellPath false answerBin latinVars).map (fun outcome => pathEntries outcome.2) =
      .ok [[0x2F, 0x62, 0x69, 0x6E]] := by decide
  rintro ⟨changed, after, hout, hkept, _⟩
  rw [hout] at hafter
  have hsame : pathEntries after = [[0x2F, 0x62, 0x69, 0x6E]] := Except.ok.inj hafter
  have hentry := hkept [0x2F, 0xE9] (by rw [hprior]; decide)
  rw [hsame] at hentry
  exact absurd hentry (by decide)

end LocalDevProxy.PathRepair
