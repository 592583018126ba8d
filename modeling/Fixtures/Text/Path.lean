/-!
# Paths

A path is text; its segments, separated by slashes, are what it names. Empty
segments and inner dots name nothing, so two paths are the same place when
their steps agree (`steps`). A dot at the very start is a step of its own.
-/

namespace Fixtures.Text

/-- The segments between slashes, the empty ones included. -/
def segments (path : String) : List String :=
  let rec go (acc : List Char) : List Char → List (List Char)
    | [] => [acc.reverse]
    | '/' :: rest => acc.reverse :: go [] rest
    | c :: rest => go (c :: acc) rest
  (go [] path.toList).map String.ofList

/-- A path that starts at the root. -/
def isAbsolute (path : String) : Bool := path.toList.head? = some '/'

/-- What a path names, step by step: a leading root (as `/`) or dot, then every named segment. -/
def steps (path : String) : List String :=
  let named := fun s => s ≠ "" ∧ s ≠ "."
  match segments path with
  | [] => []
  | first :: rest =>
    if isAbsolute path then "/" :: rest.filter named
    else if first = "." then "." :: rest.filter named
    else (first :: rest).filter named

/-- `path` seen from the directory `dir`; an absolute path stands for itself. -/
def join (dir path : String) : String :=
  if isAbsolute path then path
  else if dir = "" ∨ dir.toList.getLast? = some '/' then dir ++ path
  else dir ++ "/" ++ path

end Fixtures.Text
