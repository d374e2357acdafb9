import LocalDevProxy.Os

namespace LocalDevProxy.LogRotation

open Lib.Interaction Text Paths Os

structure LogLimits where
  maxBytes : Nat
  backupCount : Nat
deriving DecidableEq

def logMaxBytes : Nat := 10 * 1024 * 1024

def logBackupCount : Nat := 5

def LogLimits.default : LogLimits := ⟨logMaxBytes, logBackupCount⟩

structure RotatingLogWriter where
  path : Path
  limits : LogLimits
  file : Nat
  size : Nat
deriving DecidableEq

/-- Backup number index of a log; number 1 is the newest. -/
def backupPath (path : Path) (index : Nat) : Path :=
  path.withFileName ((path.fileName.elim "" Name.text) ++ "." ++ decimal index)

def openAppend (path : Path) : Io (Except IoError (Nat × Nat)) :=
  (perform (.openAppend path)).tryThen fun file =>
    (perform (.fileLen file)).tryThen fun size => return .ok (file, size)

namespace RotatingLogWriter

def openWriter (path : Path) (limits : LogLimits) : Io (Except IoError RotatingLogWriter) :=
  if limits.maxBytes < 1 ∨ limits.backupCount < 1 then
    return .error ⟨.invalidInput, "log limits must be positive"⟩
  else
    let opened := (openAppend path).tryThen fun (file, size) =>
      return .ok ⟨path, limits, file, size⟩
    match path.parent with
    | some parent => (perform (.createDirAll parent)).tryThen fun _ => opened
    | none => opened

/-- Move every backup up by one, from the given number down to the first. -/
def shiftBackups (path : Path) : Nat → Io (Except IoError Unit)
  | 0 => return .ok ()
  | index + 1 => do
      let source := backupPath path (index + 1)
      if ← pathExists source then
        (perform (.rename source (backupPath path (index + 2)))).tryThen fun _ =>
          shiftBackups path index
      else shiftBackups path index

def reopen (w : RotatingLogWriter) : Io (Except IoError RotatingLogWriter) :=
  (openAppend w.path).tryThen fun (file, size) => return .ok { w with file, size }

def shiftAll (w : RotatingLogWriter) : Io (Except IoError RotatingLogWriter) :=
  (shiftBackups w.path (w.limits.backupCount - 1)).tryThen fun _ => do
    if ← pathExists w.path then
      (perform (.rename w.path (backupPath w.path 1))).tryThen fun _ => w.reopen
    else w.reopen

/-- The writer is left as it was when any step fails. -/
def rotate (w : RotatingLogWriter) : Io (Except IoError RotatingLogWriter) := do
  match ← perform (.removeFile (backupPath w.path w.limits.backupCount)) with
  | .error err => if err.kind ≠ .notFound then return .error err else w.shiftAll
  | .ok _ => w.shiftAll

/-- Besides an I/O error, the two ways the loop of a write could go wrong: a
size over the limit, and one more pass that writes nothing than there are. -/
inductive WriteError
  | io (err : IoError)
  | underflow
  | stuck
deriving DecidableEq

def rotateIfFull (w : RotatingLogWriter) : Io (Except IoError RotatingLogWriter) :=
  if w.limits.maxBytes ≤ w.size then w.rotate else return .ok w

def writeLoop : Nat → RotatingLogWriter → List UInt8 →
    Io (RotatingLogWriter × Except WriteError Unit)
  | _, w, [] => do
      match ← perform (.flush w.file) with
      | .error err => return (w, .error (.io err))
      | .ok _ => return (w, .ok ())
  | 0, w, _ :: _ => return (w, .error .stuck)
  | fuel + 1, w, b :: rest => do
      match ← w.rotateIfFull with
      | .error err => return (w, .error (.io err))
      | .ok w =>
          if w.limits.maxBytes < w.size then return (w, .error .underflow)
          else
            let data := b :: rest
            let room := min (w.limits.maxBytes - w.size) data.length
            match ← perform (.writeAll w.file (data.take room)) with
            | .error err => return (w, .error (.io err))
            | .ok _ => writeLoop fuel { w with size := w.size + room } (data.drop room)

/-- A pass that writes anything takes a byte off the data. The passes that write
nothing, after a rotation that left a full file where it was, are as many as
there happen to be. -/
def writeBytes (w : RotatingLogWriter) (data : List UInt8) :
    Io (RotatingLogWriter × Except WriteError Unit) := do
  let idle ← perform .idlePasses
  writeLoop (idle + data.length) w data

end RotatingLogWriter

end LocalDevProxy.LogRotation
