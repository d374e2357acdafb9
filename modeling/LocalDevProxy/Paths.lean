import LocalDevProxy.Text

namespace LocalDevProxy.Paths

open Text

/-- One component of a path: never empty, never a lone dot, without a separator. -/
structure Name where
  text : String
  nonempty : text ≠ ""
  notDot : text ≠ "."
  noSlash : '/' ∉ text.toList
deriving DecidableEq

def Name.ofText (s : String) : Option Name :=
  if h : s ≠ "" ∧ s ≠ "." ∧ '/' ∉ s.toList then some ⟨s, h.1, h.2.1, h.2.2⟩ else none

/-- How a path begins: at the root, at the working directory, or at the
working directory spelled as a dot. -/
inductive Anchor
  | root
  | here
  | dot
deriving DecidableEq

/-- A Unix path as its components, which is what equality and hashing read. -/
structure Path where
  anchor : Anchor
  names : List Name
deriving DecidableEq

def parse (raw : String) : Path :=
  let parts := raw.toList.splitOn '/'
  let anchor := match parts with
    | [] :: _ :: _ => .root
    | ['.'] :: _ => .dot
    | _ => .here
  ⟨anchor, parts.filterMap (fun cs => Name.ofText (.ofList cs))⟩

namespace Path

def isRelative (p : Path) : Bool := p.anchor ≠ .root

def push (p q : Path) : Path :=
  match q.anchor with
  | .root => q
  | .here | .dot => if p = ⟨.here, []⟩ then q else ⟨p.anchor, p.names ++ q.names⟩

def join (p : Path) (raw : String) : Path := p.push (parse raw)

def fileName (p : Path) : Option Name := p.names.getLast?.filter (fun n => n.text ≠ "..")

def parent (p : Path) : Option Path :=
  if p.names = [] then none else some ⟨p.anchor, p.names.dropLast⟩

def withFileName (p : Path) (raw : String) : Path :=
  if p.fileName.isSome then join ⟨p.anchor, p.names.dropLast⟩ raw else join p raw

def display (p : Path) : String :=
  let body := "/".intercalate (p.names.map Name.text)
  match p.anchor with
  | .root => "/" ++ body
  | .here => body
  | .dot => if p.names = [] then "." else "./" ++ body

/-- A relative path is made absolute at the working directory, which may be unreadable. -/
def absolute (cwd : Option Path) (p : Path) : Option Path :=
  if p.isRelative then cwd.map (fun dir => dir.push p) else some p

def child (p : Path) (n : Name) : Path := ⟨p.anchor, p.names ++ [n]⟩

theorem child_inj {p : Path} {m n : Name} (h : p.child m = p.child n) : m = n := by
  simpa [child] using h

theorem parent_child (p : Path) (n : Name) : (p.child n).parent = some p := by
  simp [parent, child]

end Path

theorem splitOn_noSlash {cs : List Char} (h : '/' ∉ cs) : cs.splitOn '/' = [cs] := by
  rw [List.splitOn_eq_splitOnP]
  refine List.splitOnP_eq_singleton ?_
  intro c hc
  simpa using fun he : c = '/' => h (he ▸ hc)

theorem Name.ofText_text (n : Name) : Name.ofText n.text = some n := by
  simp [Name.ofText, n.nonempty, n.notDot, n.noSlash]

theorem parse_name (n : Name) : parse n.text = ⟨.here, [n]⟩ := by
  have hdot : n.text.toList ≠ ['.'] := by
    intro h
    exact n.notDot (String.toList_inj.mp h)
  simp only [parse, splitOn_noSlash n.noSlash, List.filterMap_cons, List.filterMap_nil,
    String.ofList_toList, Name.ofText_text]
  split
  · rename_i he
    simp at he
  · rename_i he
    exact absurd (List.cons.inj he).1 hdot
  · rfl

theorem Path.join_name (p : Path) (n : Name) : p.join n.text = p.child n := by
  by_cases hp : p = ⟨.here, []⟩ <;> simp [Path.join, parse_name, Path.push, hp, Path.child]

theorem filterMap_ofText (names : List Name) :
    (names.map fun n => n.text.toList).filterMap (fun cs => Name.ofText (.ofList cs)) = names := by
  induction names with
  | nil => rfl
  | cons n names ih =>
      rw [List.map_cons, List.filterMap_cons, String.ofList_toList, Name.ofText_text, ih]

/-- A path that begins at the root is what its text says. -/
theorem parse_display {p : Path} (hroot : p.isRelative = false) : parse p.display = p := by
  obtain ⟨anchor, names⟩ := p
  obtain rfl : anchor = .root := by simpa [Path.isRelative] using hroot
  cases names with
  | nil => decide
  | cons n names =>
      have hslash : "/".toList = ['/'] := rfl
      -- The text in front of the first separator is empty.
      have htext : (Path.display ⟨.root, n :: names⟩).toList =
          ['/'].intercalate ([] :: (n :: names).map fun n => n.text.toList) := by
        rw [Path.display, String.toList_append, String.toList_intercalate, List.map_map, hslash]
        rfl
      have hparts : (Path.display ⟨.root, n :: names⟩).toList.splitOn '/' =
          [] :: (n :: names).map fun n => n.text.toList := by
        rw [htext]
        refine List.splitOn_intercalate _ (fun part hpart => ?_) (List.cons_ne_nil _ _)
        rcases List.mem_cons.mp hpart with rfl | hpart
        · exact List.not_mem_nil
        · obtain ⟨m, _, rfl⟩ := List.mem_map.mp hpart
          exact m.noSlash
      have hempty : Name.ofText (.ofList []) = none := by decide
      rw [parse, hparts, List.filterMap_cons, hempty]
      exact congrArg (Path.mk .root) (filterMap_ofText (n :: names))

/-- Every path of one profile is derived from its canonical root. -/
structure ProjectPaths where
  root : Path
  isAbsolute : root.isRelative = false

namespace ProjectPaths

def servicesFile (p : ProjectPaths) : Path := p.root.join "services.toml"

def logsDir (p : ProjectPaths) : Path := p.root.join "logs"

def managerLog (p : ProjectPaths) : Path := p.logsDir.join "manager.log"

end ProjectPaths

def profile : ProjectPaths := ⟨parse "/p", rfl⟩

end LocalDevProxy.Paths
