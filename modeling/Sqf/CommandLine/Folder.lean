/-!
# Folders

A folder that is held in memory: texts by path. A path is looked up one name
after the other, as a file system does it: a step may only leave from a folder,
so that `a.sqf/` and `a.sqf/.` name nothing, and neither does a path through a
folder that does not exist. The folder has no outside.
-/

namespace Sqf.CommandLine

/-- Texts by path, a path being the names on the way from the folder. -/
structure Folder where
  files : List (List String × String)

namespace Folder

/-- The names in a path. -/
def namesIn (path : String) : List String :=
  (path.toList.splitOn '/').map String.ofList

/-- The folder of the given files. -/
def ofFiles (files : List (String × String)) : Folder :=
  ⟨files.map fun (path, text) =>
    ((namesIn path).filter fun name => name != "" && name != ".", text)⟩

/-- Whether the names lead to a folder: to this one, or to one with a file in it. -/
def isFolder (f : Folder) (names : List String) : Bool :=
  names.isEmpty ||
    f.files.any fun (path, _) => names.isPrefixOf path && names.length < path.length

/-- Where one name leads from a place. -/
def step? (f : Folder) (place : List String) (name : String) : Option (List String) :=
  if f.isFolder place then
    match name with
    | "" | "." => some place
    | ".." => if place.isEmpty then none else some place.dropLast
    | _ => some (place ++ [name])
  else none

/-- The text of the file that a path leads to. -/
def read? (f : Folder) (path : String) : Option String :=
  if path.startsWith "/" then none
  else ((namesIn path).foldlM f.step? []).bind fun place => f.files.lookup place

end Folder

end Sqf.CommandLine
