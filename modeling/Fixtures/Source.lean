import Fixtures.Failure
import Fixtures.Text.Path
import Fixtures.Text.Utf8
/-!
# Where script text comes from

Scripts are kept on a shelf in memory, or in a tree of files. On a shelf two
paths are one place when their steps agree; in a file tree a path is walked
from directory to directory.
-/

namespace Fixtures

/-- Scripts in memory, by the steps of their paths. -/
abbrev Shelf := List (List String × String)

namespace Shelf

/-- Put a script at a path, replacing the one there. -/
def put (path body : String) : Shelf → Shelf
  | [] => [(Text.steps path, body)]
  | (place, old) :: rest =>
    if place = Text.steps path then (place, body) :: rest else (place, old) :: put path body rest

/-- The script at a path. -/
def read (s : Shelf) (path : String) : Except Failure String :=
  match s.find? fun (place, _) => place = Text.steps path with
  | some (_, body) => .ok body
  | none => .error (.noScriptAt path)

/-- A script that was put at a path is read at every path of the same steps. At any other nothing changes. -/
theorem read_put (path body other : String) (s : Shelf) :
    (s.put path body).read other = if Text.steps other = Text.steps path then .ok body else s.read other := by
  induction s with
  | nil =>
    by_cases h : Text.steps other = Text.steps path
    · simp [put, read, h]
    · simp [put, read, h, Ne.symm h]
  | cons entry rest ih =>
    obtain ⟨place, old⟩ := entry
    unfold read at ih ⊢
    unfold put
    by_cases hplace : place = Text.steps path
    · subst place
      by_cases h : Text.steps path = Text.steps other
      · simp [h]
      · simp [h, Ne.symm h]
    · by_cases h : place = Text.steps other
      · simp [← h, hplace]
      · simpa [hplace, h] using ih

end Shelf

/-- What stands at a place of a file tree. -/
inductive FileNode where
  | file (content : ByteArray)
  | directory

/-- Files and directories below a starting directory, by the names that lead to them. The
directories on the way to a file are there without being listed. -/
abbrev FileTree := List (List String × FileNode)

namespace FileTree

/-- What stands at a place. -/
def node? (t : FileTree) (place : List String) : Option FileNode :=
  match t.find? fun (p, _) => p = place with
  | some (_, node) => some node
  | none => if place = [] ∨ t.any fun (p, _) => place.isPrefixOf p then some .directory else none

/-- Follow the segments of a path from a directory. Each segment, an empty one or a dot too, must
start from a directory. Nothing is known to lie outside the starting directory. -/
def walk (t : FileTree) (place : List String) : List String → Except FileFault (List String)
  | [] => .ok place
  | s :: rest =>
    match t.node? place with
    | none => .error .missing
    | some (.file _) => .error .notADirectory
    | some .directory =>
      if s = "" ∨ s = "." then walk t place rest
      else if s = ".." then
        -- Above the start only further directories are known.
        if place ≠ [] then walk t place.dropLast rest
        else if rest.all fun s => s = "" || s = "." || s = ".." then .error .isADirectory
        else .error .missing
      else if 255 < s.utf8ByteSize then .error .nameTooLong
      else if (t.node? (place ++ [s])).isNone then .error .missing
      else walk t (place ++ [s]) rest

/-- The text of the file at a path. -/
def read (t : FileTree) (path : String) : Except Failure String :=
  let fault (f : FileFault) : Except Failure String := .error (.unreadable path f)
  if path.toList.contains '\x00' then fault .zeroInName
  else if path = "" then fault .missing
  else if Text.isAbsolute path then fault (if Text.steps path = ["/"] then .isADirectory else .missing)
  else
    match t.walk [] (Text.segments path) with
    | .error f => fault f
    | .ok place =>
      match t.node? place with
      | none => fault .missing
      | some .directory => fault .isADirectory
      | some (.file content) =>
        match String.fromUTF8? content with
        | some text => .ok text
        | none => fault .notText

end FileTree

/-- A place that scripts are read from. -/
inductive Source where
  | shelf (scripts : Shelf)
  | files (tree : FileTree)

/-- The text of the script at a path. -/
def Source.read : Source → String → Except Failure String
  | shelf scripts, path => scripts.read path
  | files tree, path => tree.read path

end Fixtures
