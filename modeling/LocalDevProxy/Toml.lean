import LocalDevProxy.Text

namespace LocalDevProxy.Toml

/-- Parsed TOML. Tables keep the order of their entries. The text of a float
or a date is never read. -/
inductive Value
  | string (s : String)
  | integer (n : Int)
  | float (text : String)
  | boolean (b : Bool)
  | datetime (text : String)
  | array (items : List Value)
  | table (entries : List (String × Value))

abbrev Table := List (String × Value)

def Value.typeStr : Value → String
  | .string _ => "string"
  | .integer _ => "integer"
  | .float _ => "float"
  | .boolean _ => "boolean"
  | .datetime _ => "datetime"
  | .array _ => "array"
  | .table _ => "table"

def getKey (t : Table) (key : String) : Option Value :=
  (t.find? (fun entry => entry.1 = key)).map Prod.snd

def keys (t : Table) : List String := t.map Prod.fst

def containsKey (t : Table) (key : String) : Bool := (keys t).contains key

def Value.distinctKeys : Value → Prop
  | .array items => distinctItems items
  | .table entries => (entries.map Prod.fst).Nodup ∧ distinctEntries entries
  | _ => True
where
  distinctItems : List Value → Prop
    | [] => True
    | item :: items => item.distinctKeys ∧ distinctItems items
  distinctEntries : List (String × Value) → Prop
    | [] => True
    | (_, value) :: entries => value.distinctKeys ∧ distinctEntries entries

attribute [simp] Value.distinctKeys Value.distinctKeys.distinctItems Value.distinctKeys.distinctEntries

/-- The reader of TOML text, which the program takes from a library. It
reports an error or gives a table in which no key occurs twice. -/
structure Reader where
  parse : String → Except String Table
  distinct : ∀ {text table}, parse text = .ok table → (Value.table table).distinctKeys

def Reader.knowing (known : String) (t : Table) (h : (Value.table t).distinctKeys) : Reader where
  parse := fun text => if text = known then .ok t else .error "unknown text"
  distinct := by
    intro text table hparse
    split at hparse
    · cases hparse
      exact h
    · cases hparse

end LocalDevProxy.Toml
