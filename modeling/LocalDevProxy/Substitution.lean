import LocalDevProxy.Placeholders

namespace LocalDevProxy.Substitution

open Lib.Fallible Text Config Placeholders

def NameStart (c : Char) : Prop := ('A' ≤ c ∧ c ≤ 'Z') ∨ c = '_'

def NameChar (c : Char) : Prop := NameStart c ∨ ('0' ≤ c ∧ c ≤ '9')

/-- An upper-case identifier, [A-Z_][A-Z0-9_]*. -/
def IsName (cs : List Char) : Prop :=
  ∃ c rest, cs = c :: rest ∧ NameStart c ∧ ∀ d ∈ rest, NameChar d

def braced (name : List Char) : List Char := '\x7b' :: (name ++ ['\x7d'])

def OccursAt (cs : List Char) (p : Nat) (name : List Char) : Prop :=
  IsName name ∧ braced name <+: cs.drop p

variable {lookup : String → Option String}

/-- What a text becomes when every occurrence is replaced at once: each of its
positions contributes a piece, in order. An occurrence contributes its value
where it begins and nothing further on; any other character contributes itself. -/
def Replaced (lookup : String → Option String) (cs out : List Char) : Prop :=
  ∃ piece : Nat → List Char, out = (List.range cs.length).flatMap piece ∧
    (∀ p name, OccursAt cs p name → ∃ value, lookup (.ofList name) = some value ∧
      piece p = value.toList) ∧
    (∀ p q name, OccursAt cs q name → q < p → p < q + name.length + 2 → piece p = []) ∧
    ∀ p c, cs[p]? = some c →
      (∀ q name, OccursAt cs q name → q ≤ p → q + name.length + 2 ≤ p) → piece p = [c]

/-- The first occurrence whose name has no value. -/
def FirstMissing (lookup : String → Option String) (cs name : List Char) : Prop :=
  ∃ p, OccursAt cs p name ∧ lookup (.ofList name) = none ∧
    ∀ q name', q < p → OccursAt cs q name' → (lookup (.ofList name')).isSome

theorem not_mem_name {name : List Char} (h : IsName name) {c : Char} (hc : ¬ NameChar c) : c ∉ name := by
  obtain ⟨d, rest, rfl, hstart, hrest⟩ := h
  intro hm
  rcases List.mem_cons.mp hm with rfl | hm
  · exact hc (.inl hstart)
  · exact hc (hrest c hm)

theorem open_not_nameChar : ¬ NameChar '\x7b' := by simp [NameChar, NameStart]

theorem close_not_nameChar : ¬ NameChar '\x7d' := by simp [NameChar, NameStart]

theorem isPlaceholderName_iff (name : List Char) : isPlaceholderName name = true ↔ IsName name := by
  cases name with
  | nil => simp [isPlaceholderName, IsName]
  | cons c rest =>
      simp only [isPlaceholderName, IsName, List.cons.injEq, NameChar, NameStart, isUppercase, Char.isDigit]
      constructor
      · intro h
        refine ⟨c, rest, ⟨rfl, rfl⟩, ?_, ?_⟩
        · simpa using (Bool.and_eq_true_iff.mp h).1
        · intro d hd
          have hall := List.all_eq_true.mp (Bool.and_eq_true_iff.mp h).2 d hd
          simp only [Bool.or_eq_true, Bool.and_eq_true, decide_eq_true_eq] at hall
          rcases hall with (hu | hdigit) | hunder
          · exact .inl (.inl hu)
          · exact .inr hdigit
          · exact .inl (.inr hunder)
      · rintro ⟨_, _, ⟨rfl, rfl⟩, hstart, hrest⟩
        refine Bool.and_eq_true_iff.mpr ⟨by simpa using hstart, List.all_eq_true.mpr ?_⟩
        intro d hd
        simp only [Bool.or_eq_true, Bool.and_eq_true, decide_eq_true_eq]
        rcases hrest d hd with (hu | hunder) | hdigit
        · exact .inl (.inl hu)
        · exact .inr hunder
        · exact .inl (.inr hdigit)

theorem takeWhile_close {name : List Char} (h : '\x7d' ∉ name) (tail : List Char) :
    (name ++ '\x7d' :: tail).takeWhile (· ≠ '\x7d') = name := by
  rw [List.takeWhile_append_of_pos]
  · simp
  · intro c hc
    simpa using fun he : c = '\x7d' => h (he ▸ hc)

/-- The scan finds a name after an opening brace exactly where one occurs. -/
theorem placeholderName_iff (after name : List Char) :
    placeholderName after = some name ↔ ∃ tail, after = name ++ '\x7d' :: tail ∧ IsName name := by
  constructor
  · intro h
    unfold placeholderName at h
    split at h
    · rename_i hmem
      obtain ⟨before, tail, rfl, hnot⟩ := List.eq_append_cons_of_mem hmem
      rw [takeWhile_close hnot] at h
      dsimp only at h
      split at h
      · rename_i hname
        cases h
        exact ⟨tail, rfl, (isPlaceholderName_iff _).mp hname⟩
      · cases h
    · cases h
  · rintro ⟨tail, rfl, hname⟩
    have hnot := not_mem_name hname close_not_nameChar
    rw [placeholderName, if_pos (by simp), takeWhile_close hnot,
      if_pos ((isPlaceholderName_iff _).mpr hname)]

theorem open_of_occursAt {cs name : List Char} {p : Nat} (h : OccursAt cs p name) :
    cs[p]? = some '\x7b' := by
  obtain ⟨tail, ht⟩ := h.2
  rw [← List.head?_drop, ← ht]
  rfl

theorem occursAt_succ {c : Char} {cs name : List Char} {p : Nat} :
    OccursAt (c :: cs) (p + 1) name ↔ OccursAt cs p name := Iff.rfl

theorem occursAt_braced {name tail : List Char} (h : IsName name) : OccursAt (braced name ++ tail) 0 name :=
  ⟨h, List.prefix_append _ _⟩

theorem occursAt_zero {after name : List Char} :
    OccursAt ('\x7b' :: after) 0 name ↔ placeholderName after = some name := by
  rw [placeholderName_iff]
  constructor
  · rintro ⟨hname, tail, ht⟩
    refine ⟨tail, ?_, hname⟩
    simpa [braced] using ht.symm
  · rintro ⟨tail, rfl, hname⟩
    exact ⟨hname, tail, by simp [braced]⟩

theorem occursAt_unique {cs name name' : List Char} {p : Nat} (h : OccursAt cs p name)
    (h' : OccursAt cs p name') : name = name' := by
  obtain ⟨tail, ht⟩ := h.2
  obtain ⟨tail', ht'⟩ := h'.2
  have hn := (placeholderName_iff (name ++ '\x7d' :: tail) name).mpr ⟨tail, rfl, h.1⟩
  have hn' := (placeholderName_iff (name' ++ '\x7d' :: tail') name').mpr ⟨tail', rfl, h'.1⟩
  have he : name ++ '\x7d' :: tail = name' ++ '\x7d' :: tail' := by
    simpa [braced] using ht.trans ht'.symm
  rw [he, hn'] at hn
  exact (Option.some.inj hn).symm

theorem length_braced (name : List Char) : (braced name).length = name.length + 2 := by simp [braced]

/-- After a name in braces, occurrences are those of the rest of the text. -/
theorem occursAt_braced_add {name tail name' : List Char} {p : Nat} :
    OccursAt (braced name ++ tail) (name.length + 2 + p) name' ↔ OccursAt tail p name' := by
  have hd : (braced name ++ tail).drop (name.length + 2 + p) = tail.drop p := by
    rw [← length_braced, List.drop_length_add_append]
  rw [OccursAt, OccursAt, hd]

/-- No name is found inside another: what follows a brace up to the closing
one has no opening brace. -/
theorem not_occursAt_inside {name tail name' : List Char} {p : Nat} (hname : IsName name) (hp : 0 < p)
    (hlt : p < name.length + 2) : ¬ OccursAt (braced name ++ tail) p name' := by
  intro h
  have hopen := open_of_occursAt h
  rw [List.getElem?_append_left (by rw [length_braced]; exact hlt)] at hopen
  obtain ⟨k, rfl⟩ := Nat.exists_eq_add_of_lt hp
  have hmem : '\x7b' ∈ name ++ ['\x7d'] := by
    refine List.mem_of_getElem? (i := k) ?_
    simpa [braced] using hopen
  rcases List.mem_append.mp hmem with hm | hm
  · exact not_mem_name hname open_not_nameChar hm
  · simp at hm

/-- A text is read from the left: where a name in braces begins it is taken
whole, and any other character by itself. -/
theorem scan_induction {P : List Char → Prop} (nil : P [])
    (char : ∀ c cs, (∀ name, ¬ OccursAt (c :: cs) 0 name) → P cs → P (c :: cs))
    (name : ∀ name tail, IsName name → P tail → P (braced name ++ tail)) (cs : List Char) : P cs := by
  induction hn : cs.length using Nat.strongRecOn generalizing cs with
  | ind n ih =>
      cases cs with
      | nil => exact nil
      | cons c cs =>
          by_cases h : ∃ key, OccursAt (c :: cs) 0 key
          · obtain ⟨key, hkey, tail, ht⟩ := h
            have ht : c :: cs = braced key ++ tail := ht.symm
            rw [ht]
            refine name key tail hkey (ih tail.length ?_ tail rfl)
            rw [← hn, ht, List.length_append, length_braced]
            omega
          · exact char c cs (fun key hk => h ⟨key, hk⟩) (ih cs.length (by simp [← hn]) cs rfl)

theorem substituteFrom_skip (skip : Nat) (cs : List Char) :
    substituteFrom lookup skip cs = substituteFrom lookup 0 (cs.drop skip) := by
  induction cs generalizing skip with
  | nil => cases skip <;> simp [substituteFrom]
  | cons c cs ih =>
      cases skip with
      | zero => rfl
      | succ skip => simpa [substituteFrom] using ih skip

theorem substituteFrom_char {c : Char} {cs : List Char} (h : ∀ name, ¬ OccursAt (c :: cs) 0 name) :
    substituteFrom lookup 0 (c :: cs) = (do
      let rest ← substituteFrom lookup 0 cs
      .ok (c :: rest)) := by
  rw [substituteFrom]
  split
  · rename_i hc
    subst hc
    cases hn : placeholderName cs with
    | none => rfl
    | some name => exact absurd (occursAt_zero.mpr hn) (h name)
  · rfl

theorem substituteFrom_braced (lookup : String → Option String) {name : List Char} (hname : IsName name)
    (tail : List Char) :
    (lookup (.ofList name) = none →
      substituteFrom lookup 0 (braced name ++ tail) = .error (missing (.ofList name))) ∧
    ∀ value, lookup (.ofList name) = some value → substituteFrom lookup 0 (braced name ++ tail) = (do
      let rest ← substituteFrom lookup 0 tail
      .ok (value.toList ++ rest)) := by
  have hn : placeholderName (name ++ '\x7d' :: tail) = some name :=
    (placeholderName_iff _ _).mpr ⟨tail, rfl, hname⟩
  have hdrop : (name ++ '\x7d' :: tail).drop (name.length + 1) = tail := by
    rw [← List.drop_drop, List.drop_left]
    rfl
  have hcs : braced name ++ tail = '\x7b' :: (name ++ '\x7d' :: tail) := by simp [braced]
  rw [hcs, substituteFrom, if_pos rfl, hn]
  simp only [substituteFrom_skip (name.length + 1), hdrop]
  refine ⟨?_, ?_⟩
  · intro h
    rw [h]
  · intro value h
    rw [h]

theorem Replaced.nil : Replaced lookup [] [] := by
  refine ⟨fun _ => [], rfl, ?_, fun _ _ _ _ _ _ => rfl, fun p c h => by simp at h⟩
  intro p name h
  have := open_of_occursAt h
  simp at this

theorem Replaced.char {c : Char} {cs out : List Char} (hno : ∀ name, ¬ OccursAt (c :: cs) 0 name)
    (h : Replaced lookup cs out) : Replaced lookup (c :: cs) (c :: out) := by
  obtain ⟨piece, rfl, hvalue, hinside, hother⟩ := h
  refine ⟨fun p => p.casesOn [c] piece, ?_, ?_, ?_, ?_⟩
  · rw [List.length_cons, List.range_succ_eq_map, List.flatMap_cons, List.flatMap_map]
    rfl
  · intro p name h
    cases p with
    | zero => exact absurd h (hno name)
    | succ p => exact hvalue p name (occursAt_succ.mp h)
  · intro p q name h hlt hle
    cases q with
    | zero => exact absurd h (hno name)
    | succ q =>
        obtain ⟨p, rfl⟩ := Nat.exists_eq_succ_of_ne_zero (by omega : p ≠ 0)
        exact hinside p q name (occursAt_succ.mp h) (by omega) (by omega)
  · intro p d hd hout
    cases p with
    | zero =>
        have hcd : c = d := by simpa using hd
        exact congrArg (fun e => [e]) hcd
    | succ p =>
        refine hother p d hd (fun q name h hle => ?_)
        have := hout (q + 1) name (occursAt_succ.mpr h) (by omega)
        omega

theorem Replaced.name {name tail out : List Char} {value : String} (hname : IsName name)
    (hv : lookup (.ofList name) = some value) (h : Replaced lookup tail out) :
    Replaced lookup (braced name ++ tail) (value.toList ++ out) := by
  obtain ⟨piece, rfl, hvalue, hinside, hother⟩ := h
  let piece' := fun p => if p = 0 then value.toList
    else if p < name.length + 2 then [] else piece (p - (name.length + 2))
  have hlater : ∀ p, piece' (name.length + 2 + p) = piece p := by
    intro p
    have hp : ¬ name.length + 2 + p < name.length + 2 := by omega
    simp [piece', hp]
  have hsplit : ∀ p, p = 0 ∨ (0 < p ∧ p < name.length + 2) ∨ ∃ k, p = name.length + 2 + k := by
    intro p
    by_cases hp : p < name.length + 2
    · omega
    · exact .inr (.inr ⟨p - (name.length + 2), by omega⟩)
  refine ⟨piece', ?_, ?_, ?_, ?_⟩
  · have hfirst : (List.range (name.length + 2)).flatMap piece' = value.toList := by
      have hrest : ∀ k ∈ List.range (name.length + 1), piece' (k + 1) = [] := by
        intro k hk
        have hlt : k + 1 < name.length + 2 := by simpa using hk
        simp [piece', hlt]
      rw [List.range_succ_eq_map, List.flatMap_cons, List.flatMap_map,
        List.flatMap_eq_nil_iff.mpr hrest, List.append_nil]
      rfl
    rw [List.length_append, length_braced, List.range_add, List.flatMap_append, hfirst,
      List.flatMap_map]
    exact congrArg _ (List.flatMap_congr (fun p _ => (hlater p).symm))
  · intro p key h
    rcases hsplit p with rfl | ⟨hpos, hlt⟩ | ⟨k, rfl⟩
    · obtain rfl := occursAt_unique h (occursAt_braced hname)
      exact ⟨value, hv, rfl⟩
    · exact absurd h (not_occursAt_inside hname hpos hlt)
    · rw [hlater]
      exact hvalue k key (occursAt_braced_add.mp h)
  · intro p q key h hlt hle
    rcases hsplit q with rfl | ⟨hpos, hlt'⟩ | ⟨k, rfl⟩
    · obtain rfl := occursAt_unique h (occursAt_braced hname)
      have hp : p ≠ 0 := by omega
      have hp' : p < key.length + 2 := by omega
      simp [piece', hp, hp']
    · exact absurd h (not_occursAt_inside hname hpos hlt')
    · obtain ⟨j, rfl⟩ := Nat.exists_eq_add_of_lt hlt
      have hj : name.length + 2 + k + j + 1 = name.length + 2 + (k + j + 1) := by omega
      rw [hj, hlater]
      exact hinside _ k key (occursAt_braced_add.mp h) (by omega) (by omega)
  · intro p c hc hout
    have hpast := hout 0 name (occursAt_braced hname) (Nat.zero_le _)
    obtain ⟨k, rfl⟩ : ∃ k, p = name.length + 2 + k := ⟨p - (name.length + 2), by omega⟩
    rw [hlater]
    refine hother k c ?_ (fun q key h hle => ?_)
    · rw [List.getElem?_append_right (by rw [length_braced]; omega), length_braced] at hc
      simpa using hc
    · have := hout _ key (occursAt_braced_add.mpr h) (by omega)
      omega

/-- The pieces leave no choice. -/
theorem Replaced.unique {cs out out' : List Char} (h : Replaced lookup cs out)
    (h' : Replaced lookup cs out') : out = out' := by
  obtain ⟨piece, rfl, hvalue, hinside, hother⟩ := h
  obtain ⟨piece', rfl, hvalue', hinside', hother'⟩ := h'
  refine List.flatMap_congr (fun p hp => ?_)
  have hlt : p < cs.length := List.mem_range.mp hp
  by_cases hin : ∃ q name, OccursAt cs q name ∧ q ≤ p ∧ p < q + name.length + 2
  · obtain ⟨q, name, hoc, hle, hend⟩ := hin
    rcases Nat.eq_or_lt_of_le hle with rfl | hqp
    · obtain ⟨v, hv, hpiece⟩ := hvalue q name hoc
      obtain ⟨v', hv', hpiece'⟩ := hvalue' q name hoc
      rw [hpiece, hpiece', Option.some.inj (hv.symm.trans hv')]
    · rw [hinside p q name hoc hqp hend, hinside' p q name hoc hqp hend]
  · have hout : ∀ q name, OccursAt cs q name → q ≤ p → q + name.length + 2 ≤ p := by
      intro q name hoc hle
      by_contra hcon
      exact hin ⟨q, name, hoc, hle, by omega⟩
    rw [hother p _ (List.getElem?_eq_getElem hlt) hout, hother' p _ (List.getElem?_eq_getElem hlt) hout]

theorem Replaced.defined {cs out name : List Char} {p : Nat} (h : Replaced lookup cs out)
    (ho : OccursAt cs p name) : (lookup (.ofList name)).isSome := by
  obtain ⟨_, _, hvalue, _, _⟩ := h
  obtain ⟨v, hv, _⟩ := hvalue p name ho
  rw [hv]
  rfl

theorem FirstMissing.char {c : Char} {cs key : List Char} (hno : ∀ name, ¬ OccursAt (c :: cs) 0 name)
    (h : FirstMissing lookup cs key) : FirstMissing lookup (c :: cs) key := by
  obtain ⟨p, ho, hnone, hbefore⟩ := h
  refine ⟨p + 1, occursAt_succ.mpr ho, hnone, ?_⟩
  intro q name hlt h
  cases q with
  | zero => exact absurd h (hno name)
  | succ q => exact hbefore q name (by omega) (occursAt_succ.mp h)

theorem FirstMissing.name {name tail key : List Char} (hname : IsName name)
    (hv : (lookup (.ofList name)).isSome) (h : FirstMissing lookup tail key) :
    FirstMissing lookup (braced name ++ tail) key := by
  obtain ⟨p, ho, hnone, hbefore⟩ := h
  refine ⟨name.length + 2 + p, occursAt_braced_add.mpr ho, hnone, ?_⟩
  intro q other hlt h
  by_cases hz : q = 0
  · subst hz
    obtain rfl := occursAt_unique h (occursAt_braced hname)
    exact hv
  · by_cases hin : q < name.length + 2
    · exact absurd h (not_occursAt_inside hname (by omega) hin)
    · obtain ⟨k, rfl⟩ : ∃ k, q = name.length + 2 + k := ⟨q - (name.length + 2), by omega⟩
      exact hbefore k other (by omega) (occursAt_braced_add.mp h)

/-- Either every occurrence is replaced, or the first one without a value is reported. -/
theorem substituteFrom_spec (lookup : String → Option String) (cs : List Char) :
    (∃ out, substituteFrom lookup 0 cs = .ok out ∧ Replaced lookup cs out) ∨
      ∃ name, substituteFrom lookup 0 cs = .error (missing (.ofList name)) ∧
        FirstMissing lookup cs name := by
  induction cs using scan_induction with
  | nil => exact .inl ⟨[], by rw [substituteFrom], .nil⟩
  | char c cs hno ih =>
      rw [substituteFrom_char hno]
      rcases ih with ⟨out, hs, hr⟩ | ⟨name, hs, hm⟩
      · exact .inl ⟨c :: out, by rw [hs]; rfl, hr.char hno⟩
      · exact .inr ⟨name, by rw [hs]; rfl, hm.char hno⟩
  | name key tail hkey ih =>
      have hscan := substituteFrom_braced lookup hkey tail
      cases hv : lookup (.ofList key) with
      | none =>
          refine .inr ⟨key, hscan.1 hv, 0, occursAt_braced hkey, hv, ?_⟩
          intro q _ hlt
          omega
      | some value =>
          rw [hscan.2 value hv]
          rcases ih with ⟨out, hs, hr⟩ | ⟨name, hs, hm⟩
          · exact .inl ⟨value.toList ++ out, by rw [hs]; rfl, hr.name hkey hv⟩
          · exact .inr ⟨name, by rw [hs]; rfl, hm.name hkey (by rw [hv]; rfl)⟩

theorem substitutePlaceholders_spec (lookup : String → Option String) (arg : String) :
    (∃ res, substitutePlaceholders lookup arg = .ok res ∧ Replaced lookup arg.toList res.toList) ∨
      ∃ name, substitutePlaceholders lookup arg = .error (missing (.ofList name)) ∧
        FirstMissing lookup arg.toList name := by
  unfold substitutePlaceholders
  rcases substituteFrom_spec lookup arg.toList with ⟨out, hs, hr⟩ | ⟨name, hs, hm⟩
  · refine .inl ⟨.ofList out, by rw [hs]; rfl, ?_⟩
    rwa [String.toList_ofList]
  · exact .inr ⟨name, by rw [hs]; rfl, hm⟩

/-- What a command becomes when every occurrence in every argument is replaced. -/
def ReplacedAll (lookup : String → Option String) : List String → List String → Prop :=
  List.Forall₂ fun arg res => Replaced lookup arg.toList res.toList

/-- The first argument with an occurrence without a value, and its first such occurrence. -/
def FirstMissingIn (lookup : String → Option String) (command : List String) (name : List Char) : Prop :=
  ∃ before arg after, command = before ++ arg :: after ∧ FirstMissing lookup arg.toList name ∧
    ∀ earlier ∈ before, ∀ p name', OccursAt earlier.toList p name' → (lookup (.ofList name')).isSome

theorem resolveCommand_spec (lookup : String → Option String) (command : List String) :
    (∃ out, resolveCommand command lookup = .ok out ∧
        ReplacedAll lookup command out) ∨
      ∃ name, resolveCommand command lookup = .error (missing (.ofList name)) ∧
        FirstMissingIn lookup command name := by
  induction command with
  | nil => exact .inl ⟨[], rfl, .nil⟩
  | cons arg command ih =>
      unfold resolveCommand at ih ⊢
      rw [collect]
      rcases substitutePlaceholders_spec lookup arg with ⟨res, hs, hr⟩ | ⟨name, hs, hm⟩
      · rw [hs]
        rcases ih with ⟨out, hc, hout⟩ | ⟨name, hc, before, arg', after, rfl, hm, hbefore⟩
        · exact .inl ⟨res :: out, by rw [hc]; rfl, .cons hr hout⟩
        · refine .inr ⟨name, by rw [hc]; rfl, arg :: before, arg', after, rfl, hm, ?_⟩
          intro earlier hmem p name' ho
          rcases List.mem_cons.mp hmem with rfl | hmem
          · exact hr.defined ho
          · exact hbefore earlier hmem p name' ho
      · exact .inr ⟨name, by rw [hs]; rfl, [], arg, command, rfl, hm, by simp⟩

theorem FirstMissing.unique {cs name name' : List Char} (h : FirstMissing lookup cs name)
    (h' : FirstMissing lookup cs name') : name = name' := by
  obtain ⟨p, ho, hnone, hbefore⟩ := h
  obtain ⟨p', ho', hnone', hbefore'⟩ := h'
  rcases Nat.lt_trichotomy p p' with hlt | rfl | hlt
  · have hsome := hbefore' p name hlt ho
    rw [hnone] at hsome
    cases hsome
  · exact occursAt_unique ho ho'
  · have hsome := hbefore p' name' hlt ho'
    rw [hnone'] at hsome
    cases hsome

/-- Two places of a list that are the first of their kind are the same place. -/
theorem first_unique {P : String → Prop} {before after before' after' : List String} {arg arg' : String}
    (h : before ++ arg :: after = before' ++ arg' :: after') (hbefore : ∀ a ∈ before, ¬ P a) (harg : P arg)
    (hbefore' : ∀ a ∈ before', ¬ P a) (harg' : P arg') : arg = arg' := by
  rcases List.append_eq_append_iff.mp h with ⟨mid, rfl, hm⟩ | ⟨mid, rfl, hm⟩
  · cases mid with
    | nil => exact (List.cons.inj hm).1
    | cons a mid =>
        obtain ⟨rfl, _⟩ := List.cons.inj hm
        exact absurd harg (hbefore' _ (by simp))
  · cases mid with
    | nil => exact (List.cons.inj hm).1.symm
    | cons a mid =>
        obtain ⟨rfl, _⟩ := List.cons.inj hm
        exact absurd harg' (hbefore _ (by simp))

theorem FirstMissing.lacks {cs name : List Char} (h : FirstMissing lookup cs name) :
    ¬ ∀ p name', OccursAt cs p name' → (lookup (.ofList name')).isSome := by
  obtain ⟨p, ho, hnone, _⟩ := h
  intro hall
  have hsome := hall p name ho
  rw [hnone] at hsome
  cases hsome

theorem FirstMissingIn.unique {command : List String} {name name' : List Char}
    (h : FirstMissingIn lookup command name) (h' : FirstMissingIn lookup command name') : name = name' := by
  obtain ⟨before, arg, after, rfl, hm, hbefore⟩ := h
  obtain ⟨before', arg', after', hc, hm', hbefore'⟩ := h'
  have harg : arg = arg' := by
    refine first_unique
      (P := fun a => ¬ ∀ p name, OccursAt a.toList p name → (lookup (.ofList name)).isSome) hc ?_ hm.lacks ?_ hm'.lacks
    · exact fun a ha => not_not.mpr (hbefore a ha)
    · exact fun a ha => not_not.mpr (hbefore' a ha)
  subst harg
  exact hm.unique hm'

theorem ReplacedAll.unique {command out out' : List String} (h : ReplacedAll lookup command out)
    (h' : ReplacedAll lookup command out') : out = out' := by
  refine Relator.RightUnique.forall₂ ?_ h h'
  intro arg res res' hr hr'
  exact String.ext (hr.unique hr')

theorem ReplacedAll.defined {command out : List String} (h : ReplacedAll lookup command out) {arg : String}
    (harg : arg ∈ command) {p : Nat} {name : List Char} (ho : OccursAt arg.toList p name) :
    (lookup (.ofList name)).isSome := by
  obtain ⟨res, _, hr⟩ := exists_of_forall₂ h.flip arg harg
  exact Replaced.defined hr ho

theorem FirstMissingIn.occurs {command : List String} {name : List Char}
    (h : FirstMissingIn lookup command name) :
    ∃ arg ∈ command, ∃ p name, OccursAt arg.toList p name ∧ lookup (.ofList name) = none := by
  obtain ⟨before, arg, after, rfl, ⟨p, ho, hnone, _⟩, _⟩ := h
  exact ⟨arg, by simp, p, name, ho, hnone⟩

/-- The arguments of a command that resolves, and the name by which one that does
not is refused, are settled by the occurrences alone. -/
theorem resolveCommand_replaces (command : List String) (lookup : String → Option String) :
    (∀ out, resolveCommand command lookup = .ok out ↔ ReplacedAll lookup command out) ∧
    (∀ err, resolveCommand command lookup = .error err ↔
      ∃ name, FirstMissingIn lookup command name ∧ err = missing (.ofList name)) ∧
    ((∃ err, resolveCommand command lookup = .error err) ↔
      ∃ arg ∈ command, ∃ p name, OccursAt arg.toList p name ∧ lookup (.ofList name) = none) := by
  have hexclusive : ∀ out, ReplacedAll lookup command out →
      ¬ ∃ arg ∈ command, ∃ p name, OccursAt arg.toList p name ∧ lookup (.ofList name) = none := by
    rintro out hout ⟨arg, harg, p, name, ho, hnone⟩
    have hsome := hout.defined harg ho
    rw [hnone] at hsome
    cases hsome
  rcases resolveCommand_spec lookup command with ⟨out, hc, hout⟩ | ⟨name, hc, hm⟩
  · rw [hc]
    refine ⟨?_, ?_, ?_⟩
    · intro out'
      constructor
      · rintro ⟨⟩
        exact hout
      · intro hout'
        rw [ReplacedAll.unique hout hout']
    · intro err
      constructor
      · rintro ⟨⟩
      · rintro ⟨name, hm, _⟩
        exact absurd hm.occurs (hexclusive out hout)
    · constructor
      · rintro ⟨_, ⟨⟩⟩
      · intro hmissing
        exact absurd hmissing (hexclusive out hout)
  · rw [hc]
    refine ⟨?_, ?_, ?_⟩
    · intro out
      constructor
      · rintro ⟨⟩
      · intro hout
        exact absurd hm.occurs (hexclusive out hout)
    · intro err
      constructor
      · rintro ⟨⟩
        exact ⟨name, hm, rfl⟩
      · rintro ⟨name', hm', rfl⟩
        rw [hm.unique hm']
    · exact ⟨fun _ => hm.occurs, fun _ => ⟨_, rfl⟩⟩

end LocalDevProxy.Substitution
