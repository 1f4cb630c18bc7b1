/-!
# Paths

A name that starts with `#` is a device and stands for itself. Any other path is read from the
root, or from the current directory, and written as `/` followed by its components: no empty one,
no `.` and no `..`.
-/

namespace MountScript.Path

/-- Takes one step down from the components so far, innermost first; `..` at the root stays there. -/
def step (inner : List (List Char)) (part : List Char) : List (List Char) :=
  if part = [] ∨ part = ['.'] then inner
  else if part = ['.', '.'] then inner.tail
  else part :: inner

def collapse (parts : List (List Char)) : List (List Char) :=
  (parts.foldl step []).reverse

def ofComponents (components : List (List Char)) : List Char :=
  '/' :: ['/'].intercalate components

def normalizeChars (cwd path : List Char) : List Char :=
  match path with
  | '#' :: _ => path
  | '/' :: _ => ofComponents (collapse (path.splitOn '/'))
  | _ => ofComponents (collapse ((cwd ++ '/' :: path).splitOn '/'))

def normalize (cwd path : String) : String :=
  String.ofList (normalizeChars cwd.toList path.toList)

def isDevice (path : String) : Bool := path.toList.head? = some '#'

/-- The part of `path` below `mount`, with its slash; `none` unless `mount` is `path` or an ancestor. -/
def below? (mount path : List Char) : Option (List Char) :=
  if mount = ['/'] ∧ path.head? = some '/' then
    some (if path = ['/'] then [] else path)
  else
    match mount.isPrefixOf? path with
    | some [] => some []
    | some ('/' :: rest) => some ('/' :: rest)
    | _ => none

def covers (mount path : String) : Bool :=
  (below? mount.toList path.toList).isSome

def graft (root rest : List Char) : List Char :=
  if rest.isEmpty then root
  else (root.reverse.dropWhile (· = '/')).reverse ++ rest

def join (base name : String) : String :=
  if name.toList.head? = some '/' then name
  else if base = "" ∨ base.toList.getLast? = some '/' then base ++ name
  else base ++ "/" ++ name

end MountScript.Path
