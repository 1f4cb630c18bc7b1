import MountScript.File.Build

/-!
# Disks

A file tree held in memory: directories, files and symbolic links, and a current directory. A path
is walked component by component. What is not there, what is not a directory where one is needed, a
name that is too long and a walk over too many links each end it.
-/

namespace MountScript

abbrev Location := List String

def Location.path (location : Location) : String := "/" ++ "/".intercalate location

inductive Node
  | directory
  | file (contents : List UInt8)
  | link (target : String)
deriving DecidableEq

structure Disk where
  nodes : List (Location × Node)
  cwd : Location

namespace Disk

def maxLinks : Nat := 40

def maxName : Nat := 255

/-- Bytes in a path handed to the system, its terminator among them, at most. -/
def maxPath : Nat := 4096

def node? (d : Disk) : Location → Option Node
  | [] => some .directory
  | location => d.nodes.lookup location

def put (d : Disk) (location : Location) (n : Node) : Disk :=
  { d with nodes := (location, n) :: d.nodes.filter fun e => e.1 ≠ location }

def makeDirectories (d : Disk) (location : Location) : List String → Disk
  | [] => d
  | name :: names =>
    let next := location ++ [name]
    let d := if (d.node? next).isNone then d.put next .directory else d
    d.makeDirectories next names

def parts (path : String) : List String :=
  (path.toList.splitOn '/').map String.ofList

def locate (d : Disk) (path : String) : Location :=
  let names := (parts path).filter fun name => name ≠ "" ∧ name ≠ "."
  if path.toList.head? = some '/' then names else d.cwd ++ names

def addDirectory (d : Disk) (path : String) : Disk := d.makeDirectories [] (d.locate path)

def add (d : Disk) (path : String) (n : Node) : Disk :=
  let location := d.locate path
  (d.makeDirectories [] location.dropLast).put location n

def isDirectory (d : Disk) (location : Location) : Bool :=
  d.node? location = some .directory

/-- Walks the names in `todo` from a location. A part that is empty or `.` stays where it is and `..`
goes up, but both need a directory to start from. -/
def walk (d : Disk) (links : Nat) (location : Location) (todo : List String) :
    Except ReadFailure Location :=
  match todo with
  | [] => .ok location
  | name :: rest =>
    if !d.isDirectory location then .error .notDirectory
    else if name = "" ∨ name = "." then d.walk links location rest
    else if name = ".." then d.walk links location.dropLast rest
    else if maxName < name.utf8ByteSize then .error .nameTooLong
    else
      let next := location ++ [name]
      match d.node? next with
      | none => .error .notFound
      | some (.link target) =>
        match links with
        | 0 => .error .tooManyLinks
        | links + 1 =>
          let start := if target.toList.head? = some '/' then [] else location
          d.walk links start (parts target ++ rest)
      | some _ => d.walk links next rest
termination_by (links, todo.length)

def find (d : Disk) (path : String) : Except ReadFailure Location :=
  if path.toList.contains '\x00' then .error .nulInName
  else if path = "" then .error .notFound
  else
    let start := if path.toList.head? = some '/' then [] else d.cwd
    d.walk maxLinks start (parts path)

def canonical (d : Disk) (path : String) : Except ReadFailure String :=
  (d.find path).map Location.path

/-- A directory can be opened; reading from it fails. -/
def reads (d : Disk) (path : String) : Except ReadFailure (List ReadEvent) :=
  if !path.toList.contains '\x00' ∧ maxPath ≤ path.utf8ByteSize then .error .nameTooLong
  else
    match d.find path with
    | .error cause => .error cause
    | .ok location =>
      match d.node? location with
      | some (.file contents) => .ok [.bytes contents]
      | _ => .ok [.failed .isDirectory]

def files (d : Disk) : FileSystem := ⟨d.canonical, d.reads⟩

end Disk
end MountScript
