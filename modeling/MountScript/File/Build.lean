import MountScript.Build.Replay
import MountScript.Space.Path

/-!
# Building from files

All that reading scripts needs of a file system is the canonical path of a file, and the reads that
its contents give once it is open. Files are told apart by their canonical paths. A file that is
open, or that is the top-level file, cannot be entered again, and only so many files are open at a
time.

`newSpace` clears a name space and applies a script file to it; `addToSpace` applies the file to
the name space as it stands. The file is parsed before anything else is done, so a file that is no
script leaves the name space untouched.
-/

namespace MountScript

structure FileSystem where
  /-- The absolute path without links, `.` and `..` that the name leads to. -/
  canonical : String → Except ReadFailure String
  /-- Opens a file; what then goes wrong is among the reads. -/
  reads : String → Except ReadFailure (List ReadEvent)

namespace FileSystem

def parseFile (files : FileSystem) (path : String) : Except ParseError Script :=
  match files.reads path with
  | .error cause => .error (.read 0 cause)
  | .ok events => Script.parseStream events

theorem parseFile_eq_ok_iff {files : FileSystem} {path : String} {script : Script} :
    files.parseFile path = .ok script ↔
      ∃ events, files.reads path = .ok events ∧ Script.parseStream events = .ok script := by
  rw [parseFile]
  cases files.reads path <;> simp

def readText (files : FileSystem) (path : String) : Except ReadFailure String :=
  match files.reads path with
  | .error cause => .error cause
  | .ok events => gather [] events
where
  gather (bytes : List UInt8) : List ReadEvent → Except ReadFailure String
    | [] =>
      match decodeUtf8? bytes with
      | none => .error .invalidUtf8
      | some text => .ok text
    | .interrupted :: events => gather bytes events
    | .failed cause :: _ => .error cause
    | .bytes chunk :: events => gather (bytes ++ chunk) events

end FileSystem

structure Settings where
  namespaceFile : String
  /-- How deep includes may nest below the top-level script. -/
  maxIncludeDepth : Nat
  /-- Where relative names of included files start; `none` is the current directory. -/
  baseDir : Option String
deriving DecidableEq

def Settings.standard : Settings := ⟨"/lib/namespace", 8, none⟩

structure FileLoader where
  files : FileSystem
  baseDir : Option String
  maxDepth : Nat
  root : Option String
  /-- The canonical paths of the open files, innermost first. -/
  stack : List String

namespace FileLoader

def ofSettings (files : FileSystem) (s : Settings) : FileLoader :=
  ⟨files, s.baseDir, s.maxIncludeDepth, none, []⟩

/-- A top-level file without a canonical path is as good as none. -/
def withRoot (l : FileLoader) (path : String) : FileLoader :=
  { l with root := (l.files.canonical path).toOption }

def depth (l : FileLoader) : Nat := l.stack.length

def resolve (l : FileLoader) (path : String) : String :=
  match l.baseDir with
  | none => path
  | some base => Path.join base path

/-- Finds and parses a file. A cycle is noticed before the limit, and both before the file is read. -/
def look (l : FileLoader) (path : String) : Except IncludeError (String × Script) :=
  match l.files.canonical (l.resolve path) with
  | .error cause => .error (.read (l.resolve path) cause)
  | .ok file =>
    if l.root = some file ∨ file ∈ l.stack then .error (.cycle file)
    else if l.maxDepth ≤ l.depth then .error (.depthExceeded l.maxDepth)
    else
      match l.files.reads file with
      | .error cause => .error (.read file cause)
      | .ok events =>
        match Script.parseStream events with
        | .error cause => .error (.parse file cause)
        | .ok script => .ok (file, script)

def enter (path : String) (l : FileLoader) : Except IncludeError Script × FileLoader :=
  match l.look path with
  | .error e => (.error e, l)
  | .ok (file, script) => (.ok script, { l with stack := file :: l.stack })

def leave (l : FileLoader) : FileLoader := { l with stack := l.stack.tail }

theorem depth_lt_of_look {l : FileLoader} {path file : String} {script : Script}
    (h : l.look path = .ok (file, script)) : l.depth < l.maxDepth := by
  unfold look at h
  split at h
  · simp at h
  · split at h
    · simp at h
    · split at h
      · simp at h
      · omega

instance : BoundedLoader FileLoader where
  enter := enter
  leave _ l := l.leave
  room l := l.maxDepth - l.depth
  room_enter_ok {path l script} h := by
    unfold enter at h ⊢
    cases hf : l.look path with
    | error e => simp [hf] at h
    | ok found =>
      have := depth_lt_of_look hf
      simp only [depth, List.length_cons] at this ⊢
      omega
  room_enter_error {path l e} h := by
    unfold enter at h ⊢
    cases hf : l.look path with
    | error e => exact Nat.le_refl _
    | ok found => simp [hf] at h
  room_leave path l := by
    simp only [leave, depth, List.length_tail]
    omega

end FileLoader

variable {σ : Type} [NameSpace σ]

def buildFile (run : Script → σ → FileLoader → Outcome Summary σ FileLoader) (files : FileSystem)
    (s : Settings) (file : Option String) (space : σ) : Except BuildError Summary × σ :=
  let path := file.getD s.namespaceFile
  match files.parseFile path with
  | .error e => (.error (.parse e), space)
  | .ok script =>
    let o := run script space ((FileLoader.ofSettings files s).withRoot path)
    (o.result, o.space)

def newSpace : FileSystem → Settings → Option String → σ → Except BuildError Summary × σ :=
  buildFile buildFromScratch

def addToSpace : FileSystem → Settings → Option String → σ → Except BuildError Summary × σ :=
  buildFile build

end MountScript
