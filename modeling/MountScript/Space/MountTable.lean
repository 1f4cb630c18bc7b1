import MountScript.Space.Call
import MountScript.Space.Path
import MountScript.Space.PathMap

/-!
# The mount table

A name space held in memory: every mount point has a union, the list of its members in the order in
which they are searched, and there is a current directory. A member says where its files come from
and how it is attached. The members of one union are not looked up through another. A refused call
leaves the table as it was.
-/

namespace MountScript

inductive Source
  | path (name : String)
  | service (server : String) (spec : Option String)
  | remote (host tree : String)
deriving DecidableEq

def Source.root : Source → String
  | path name => name
  | service server none => server
  | service server (some spec) => server ++ ":" ++ spec
  | remote host tree => host ++ ":" ++ tree

structure Member where
  source : Source
  create : Bool
  cache : Bool
deriving DecidableEq

namespace Member

def root (m : Member) : String := m.source.root

def placed (source : Source) (p : Placement) : Member := ⟨source, p.create, p.cache⟩

/-- The member that stands for the files a directory had before anything was attached to it. -/
def underlying (path : String) : Member := ⟨.path path, false, false⟩

/-- A member answers to its path or server as normalized, or to its host as given. -/
def answersTo (m : Member) (given normalized : String) : Bool :=
  match m.source with
  | .path name => name = normalized
  | .service server _ => server = normalized
  | .remote host _ => host = given

end Member

structure MountTable where
  unions : PathMap (List Member)
  cwd : String
deriving DecidableEq

namespace MountTable

def empty : MountTable := ⟨.empty, "/"⟩

def place (t : MountTable) (path : String) : String := Path.normalize t.cwd path

def mountPoints (t : MountTable) : List String := t.unions.keys

def union? (t : MountTable) (path : String) : Option (List Member) :=
  t.unions.find? (t.place path)

def deepest? (path : String) : List (String × List Member) → Option (String × List Member)
  | [] => none
  | entry :: entries =>
    match deepest? path entries with
    | none => if Path.covers entry.1 path then some entry else none
    | some best =>
      if Path.covers entry.1 path ∧ best.1.length < entry.1.length then some entry else some best

def resolve (t : MountTable) (path : String) : List String :=
  let path := t.place path
  match deepest? path t.unions.entries with
  | none => [path]
  | some (mount, members) =>
    let rest := (Path.below? mount.toList path.toList).getD []
    members.map fun m => String.ofList (Path.graft m.root.toList rest)

/-- Where a file made in `dir` goes: in a union to the first member that allows it. -/
def createTarget? (t : MountTable) (dir : String) : Option String :=
  match t.union? dir with
  | none => some (t.place dir)
  | some members => (members.find? Member.create).map Member.root

/-- The union at `target`, which starts out as the directory itself. -/
def seeded (t : MountTable) (target : String) : List Member :=
  (t.unions.find? target).getD [.underlying target]

def setUnion (t : MountTable) (target : String) (members : List Member) : MountTable :=
  { t with unions := t.unions.insert target members }

def dropUnion (t : MountTable) (target : String) : MountTable :=
  { t with unions := t.unions.erase target }

def attach (t : MountTable) (target : String) (m : Member) (p : Placement) : MountTable :=
  match p.position with
  | .replace => t.setUnion target [m]
  | .before => t.setUnion target (m :: t.seeded target)
  | .after => t.setUnion target (t.seeded target ++ [m])

/-- Caching is for mounts and imports only. -/
def bind (t : MountTable) (new old : String) (p : Placement) : MountTable :=
  t.attach (t.place old) { Member.placed (.path (t.place new)) p with cache := false } p

/-- An empty attach specifier is no specifier. -/
def mount (t : MountTable) (server old : String) (spec : Option String) (p : Placement) :
    Except Refusal MountTable :=
  if server = "" then .error (.invalidSpec "empty server name")
  else
    let source := .service (t.place server) (spec.filter (· ≠ ""))
    .ok (t.attach (t.place old) (.placed source p) p)

def importTree (t : MountTable) (host : String) (remote : Option String) (old : String)
    (p : Placement) : Except Refusal MountTable :=
  if host = "" then .error (.invalidSpec "empty host")
  else .ok (t.attach (t.place old) (.placed (.remote host (remote.getD "/")) p) p)

def unmountAll (t : MountTable) (old : String) : Except Refusal MountTable :=
  let target := t.place old
  match t.unions.find? target with
  | none => .error (.notMounted target)
  | some _ => .ok (t.dropUnion target)

/-- Removes the members that answer to `new`; a union that loses its last member is gone. -/
def unmountMember (t : MountTable) (new old : String) : Except Refusal MountTable :=
  let target := t.place old
  let path := t.place new
  match t.unions.find? target with
  | none => .error (.notMounted target)
  | some members =>
    let kept := members.filter fun m => !m.answersTo new path
    if kept.length = members.length then .error (.notMounted (path ++ " on " ++ target))
    else if kept.isEmpty then .ok (t.dropUnion target)
    else .ok (t.setUnion target kept)

def changeDir (t : MountTable) (dir : String) : Except Refusal MountTable :=
  if dir = "" then .error (.invalidSpec "empty directory")
  else if Path.isDevice dir then
    .error (.invalidSpec (dir ++ ": cannot " ++ Action.changeDir.keyword ++ " into a device"))
  else .ok { t with cwd := t.place dir }

def apply (t : MountTable) : Call → Except Refusal MountTable
  | .bind new old p => .ok (t.bind new old p)
  | .mount server old spec p => t.mount server old spec p
  | .unmount none old => t.unmountAll old
  | .unmount (some new) old => t.unmountMember new old
  | .clear => .ok empty
  | .changeDir dir => t.changeDir dir
  | .importTree host remote old p => t.importTree host remote old p

instance : NameSpace MountTable where
  perform call t :=
    match t.apply call with
    | .ok t' => (.ok (), t')
    | .error refusal => (.error refusal, t)

end MountTable

end MountScript
