import LocalDevProxy.Text

namespace LocalDevProxy.Environment

/-- An operating-system string: any bytes at all. -/
structure OsString where
  bytes : ByteArray

instance : DecidableEq OsString
  | ⟨⟨a⟩⟩, ⟨⟨b⟩⟩ => decidable_of_decidable_of_iff (p := a = b) (by simp)

namespace OsString

def ofString (s : String) : OsString := ⟨s.toByteArray⟩

def toStr (s : OsString) : Option String := String.fromUTF8? s.bytes

theorem toStr_ofString (s : String) : (ofString s).toStr = some s := by
  rw [toStr, ofString, String.fromUTF8?, dif_pos s.isValidUTF8]
  rfl

theorem ofString_of_toStr {b : OsString} {s : String} (h : b.toStr = some s) : ofString s = b := by
  unfold toStr String.fromUTF8? at h
  split at h
  · cases h
    rfl
  · cases h

theorem ofString_inj {s t : String} (h : ofString s = ofString t) : s = t := by
  have hs := congrArg toStr h
  rw [toStr_ofString, toStr_ofString] at hs
  exact Option.some.inj hs

end OsString

abbrev OsEnv := OsString → Option OsString

/-- The read of one variable, which gives nothing unless the value is Unicode. -/
def var (env : OsEnv) (key : String) : Option String := (env (.ofString key)).bind OsString.toStr

def lookup (table : List (String × String)) (key : String) : Option String :=
  (table.find? (fun entry => entry.1 = key)).map Prod.snd

def collect (table : List (String × String)) : OsEnv :=
  fun key => (table.find? (fun entry => OsString.ofString entry.1 = key)).map
    (fun entry => .ofString entry.2)

/-- Overlaying a map with every variable of the process. -/
def extend (env vars : OsEnv) : OsEnv := fun key => (vars key).or (env key)

theorem collect_ofString (table : List (String × String)) (key : String) :
    collect table (.ofString key) = (lookup table key).map OsString.ofString := by
  have hkey : ∀ entry : String × String,
      (OsString.ofString entry.1 = .ofString key) = (entry.1 = key) := by
    intro entry
    exact propext ⟨OsString.ofString_inj, fun h => h ▸ rfl⟩
  simp only [collect, lookup, hkey, Option.map_map]
  rfl

end LocalDevProxy.Environment
