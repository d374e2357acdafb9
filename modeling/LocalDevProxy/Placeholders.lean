import LocalDevProxy.Config

namespace LocalDevProxy.Placeholders

open Lib.Fallible Text Config

def isUppercase (c : Char) : Bool := 'A' ≤ c && c ≤ 'Z'

def isPlaceholderName : List Char → Bool
  | [] => false
  | c :: cs => (isUppercase c || c = '_') && cs.all (fun c => isUppercase c || c.isDigit || c = '_')

/-- The name between an opening brace, already read, and the first closing one. -/
def placeholderName (after : List Char) : Option (List Char) :=
  if '\x7d' ∈ after then
    let name := after.takeWhile (· ≠ '\x7d')
    if isPlaceholderName name then some name else none
  else none

def missing (key : String) : ConfigError := ⟨"Missing env variable for command placeholder: " ++ key⟩

/-- Substitution from a position of the argument on. The first argument counts
the characters of a placeholder just replaced that are still to be passed over. -/
def substituteFrom (lookup : String → Option String) :
    Nat → List Char → Except ConfigError (List Char)
  | _, [] => .ok []
  | skip + 1, _ :: rest => substituteFrom lookup skip rest
  | 0, c :: after =>
      if c = '\x7b' then
        match placeholderName after with
        | some name =>
            match lookup (.ofList name) with
            | some value => do
                let rest ← substituteFrom lookup (name.length + 1) after
                .ok (value.toList ++ rest)
            | none => .error (missing (.ofList name))
        | none => do
            let rest ← substituteFrom lookup 0 after
            .ok (c :: rest)
      else do
        let rest ← substituteFrom lookup 0 after
        .ok (c :: rest)

def substitutePlaceholders (lookup : String → Option String) (arg : String) :
    Except ConfigError String :=
  (substituteFrom lookup 0 arg.toList).map String.ofList

def resolveCommand (command : List String) (lookup : String → Option String) :
    Except ConfigError (List String) :=
  collect (substitutePlaceholders lookup) command

def requirePort (value : Option String) (key : String) : Except ConfigError Port :=
  match value with
  | none => .error ⟨"Missing required port variable: " ++ key⟩
  | some raw =>
      match parseI64 (trim raw) with
      | none => .error ⟨key ++ " must be an integer, got: " ++ debugStr raw⟩
      | some parsed =>
          match Port.ofInt parsed with
          | some port => .ok port
          | none => .error ⟨key ++ " must be in range 1-65535, got: " ++ toString parsed⟩

def requireSocketPath (value : Option String) (key : String) : Except ConfigError String :=
  match value with
  | none => .error ⟨"Missing required socket variable: " ++ key⟩
  | some path =>
      if path = "" then .error ⟨key ++ " must be a non-empty socket path"⟩ else .ok path

def placeholdersFrom : Nat → List Char → List String
  | _, [] => []
  | skip + 1, _ :: rest => placeholdersFrom skip rest
  | 0, c :: after =>
      if c = '\x7b' then
        match placeholderName after with
        | some name => .ofList name :: placeholdersFrom (name.length + 1) after
        | none => placeholdersFrom 0 after
      else placeholdersFrom 0 after

def placeholders (command : List String) : List String :=
  command.flatMap (fun arg => placeholdersFrom 0 arg.toList)

variable {lookup : String → Option String}

theorem substituteFrom_ok_iff (skip : Nat) (cs : List Char) :
    (∃ out, substituteFrom lookup skip cs = .ok out) ↔
      ∀ key ∈ placeholdersFrom skip cs, (lookup key).isSome := by
  induction cs generalizing skip with
  | nil => simp [substituteFrom, placeholdersFrom]
  | cons c after ih =>
      cases skip with
      | succ skip => simpa only [substituteFrom, placeholdersFrom] using ih skip
      | zero =>
          simp only [substituteFrom, placeholdersFrom]
          split
          · cases hn : placeholderName after with
            | none => simpa [bind_eq_ok] using ih 0
            | some name =>
                cases hv : lookup (.ofList name) with
                | none => simp [hv]
                | some value => simpa [hv, bind_eq_ok] using ih (name.length + 1)
          · simpa [bind_eq_ok] using ih 0

theorem substitutePlaceholders_ok_iff (arg : String) :
    (∃ out, substitutePlaceholders lookup arg = .ok out) ↔
      ∀ key ∈ placeholdersFrom 0 arg.toList, (lookup key).isSome := by
  rw [← substituteFrom_ok_iff]
  cases h : substituteFrom lookup 0 arg.toList <;> simp [substitutePlaceholders, h, Except.map]

/-- A command resolves exactly when every name it asks for has a value. -/
theorem resolveCommand_ok_iff (command : List String) :
    (∃ out, resolveCommand command lookup = .ok out) ↔
      ∀ key ∈ placeholders command, (lookup key).isSome := by
  simp only [resolveCommand, exists_collect_eq_ok, substitutePlaceholders_ok_iff, placeholders,
    List.mem_flatMap]
  constructor
  · rintro h key ⟨arg, harg, hkey⟩
    exact h arg harg key hkey
  · intro h arg harg key hkey
    exact h key ⟨arg, harg, hkey⟩

theorem substituteFrom_error {skip : Nat} {cs : List Char} {err : ConfigError}
    (h : substituteFrom lookup skip cs = .error err) : ∃ key, err = missing key := by
  induction cs generalizing skip with
  | nil =>
      simp only [substituteFrom] at h
      cases h
  | cons c after ih =>
      have hrest : ∀ {skip} {f : List Char → Except ConfigError (List Char)},
          (∀ out, ∃ out', f out = .ok out') → (substituteFrom lookup skip after >>= f) = .error err →
          ∃ key, err = missing key := by
        intro skip f hf he
        rcases bind_eq_error.mp he with he | ⟨out, _, he⟩
        · exact ih he
        · obtain ⟨out', ho⟩ := hf out
          rw [ho] at he
          cases he
      cases skip with
      | succ skip => exact ih (by simpa only [substituteFrom] using h)
      | zero =>
          simp only [substituteFrom] at h
          split at h
          · split at h
            · rename_i name _
              split at h
              · exact hrest (fun _ => ⟨_, rfl⟩) h
              · cases h
                exact ⟨_, rfl⟩
            · exact hrest (fun _ => ⟨_, rfl⟩) h
          · exact hrest (fun _ => ⟨_, rfl⟩) h

/-- A command that does not resolve is reported by a name that it asks for. -/
theorem resolveCommand_error {command : List String} {err : ConfigError}
    (h : resolveCommand command lookup = .error err) : ∃ key, err = missing key := by
  obtain ⟨arg, _, h⟩ := collect_eq_error h
  unfold substitutePlaceholders at h
  cases hs : substituteFrom lookup 0 arg.toList with
  | ok out =>
      rw [hs] at h
      cases h
  | error e =>
      rw [hs] at h
      cases h
      exact substituteFrom_error hs

example : (resolveCommand ["a\x7bX\x7d", "\x7blower\x7d", "\x7b"] (fun _ => some "1")).toOption =
    some ["a1", "\x7blower\x7d", "\x7b"] := by decide

end LocalDevProxy.Placeholders
