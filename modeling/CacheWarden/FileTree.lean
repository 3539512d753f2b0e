import CacheWarden.Text.Utf8
/-!
A tree of files, and where a path leads in it.

A place is the list of names on the way there from the top.  A path is followed
name by name; each name has to be looked up in a directory, also `.` and `..`,
and a symbolic link is replaced by its target, followed from the directory that
holds it.
-/

namespace CacheWarden

/-- The names on the way to a file, from the top. -/
abbrev Location := List String

/-- What stands at a place. -/
inductive Entry where
  | directory
  | file (bytes : List UInt8)
  | link (target : String)
deriving DecidableEq, Repr, Inhabited

/-- A tree of files. -/
structure FileTree where
  entries : List (Location × Entry)
deriving Repr, Inhabited

/-- Why a path leads nowhere, or to no text. -/
inductive PathFault where
  | notFound
  | notDirectory
  | isDirectory
  | nameTooLong
  | tooManyLinks
  | nulByte
  | notText
deriving DecidableEq, Repr

/-- The fault in words. -/
def PathFault.message : PathFault → String
  | .notFound => "No such file or directory (os error 2)"
  | .notDirectory => "Not a directory (os error 20)"
  | .isDirectory => "Is a directory (os error 21)"
  | .nameTooLong => "File name too long (os error 36)"
  | .tooManyLinks => "Too many levels of symbolic links (os error 40)"
  | .nulByte => "file name contained an unexpected NUL byte"
  | .notText => "stream did not contain valid UTF-8"

namespace FileTree

/-- What stands at a place.  The top is a directory. -/
def entry? (t : FileTree) (place : Location) : Option Entry :=
  if place = [] then some .directory else t.entries.lookup place

/-- Puts an entry at a place, with the directories that lead there. -/
def put (t : FileTree) (place : Location) (entry : Entry) : FileTree :=
  let parents := (List.range place.length).map fun n => place.take n
  let missing := parents.filter fun p => (t.entry? p).isNone
  ⟨(place, entry) :: (missing.map fun p => (p, Entry.directory)) ++ t.entries⟩

/-! ### Paths -/

/-- The names of a path in order.  A slash at its end asks for a directory, as `.` does. -/
def steps (path : String) : List String :=
  let names := (splitAt path.toList []).filter (· ≠ "")
  if path.endsWith "/" then names ++ ["."] else names
where
  /-- The pieces between slashes; the current one comes latest character first. -/
  splitAt : List Char → List Char → List String
    | [], name => [String.ofList name.reverse]
    | c :: cs, name =>
      if c = '/' then String.ofList name.reverse :: splitAt cs [] else splitAt cs (c :: name)

/-- A path that starts at the top. -/
def isAbsolute (path : String) : Bool := path.startsWith "/"

/-- A place as an absolute path. -/
def pathText (place : Location) : String := "/" ++ "/".intercalate place

/-- The most bytes that a name may have. -/
def nameLimit : Nat := 255

/-- The most links that are followed on the way. -/
def linkLimit : Nat := 40

/-- Follows names from a place; `links` more links may be on the way. -/
def walk (t : FileTree) (links : Nat) (place : Location) :
    List String → Except PathFault Location
  | [] => .ok place
  | name :: rest =>
    if t.entry? place ≠ some .directory then .error .notDirectory
    else if name = "." then walk t links place rest
    else if name = ".." then walk t links place.dropLast rest
    else if nameLimit < name.utf8ByteSize then .error .nameTooLong
    else
      match t.entry? (place ++ [name]) with
      | none => .error .notFound
      | some (.link target) =>
        match links with
        | 0 => .error .tooManyLinks
        | links + 1 =>
          walk t links (if isAbsolute target then [] else place) (steps target ++ rest)
      | some _ => walk t links (place ++ [name]) rest
termination_by names => (links, names.length)

/-- Where a path leads from a directory. -/
def resolve (t : FileTree) (dir : Location) (path : String) : Except PathFault Location :=
  if path.contains '\x00' then .error .nulByte
  else if path.isEmpty then .error .notFound
  else t.walk linkLimit (if isAbsolute path then [] else dir) (steps path)

/-- The text of the file at a place. -/
def readText (t : FileTree) (place : Location) : Except PathFault String :=
  match t.entry? place with
  | none => .error .notFound
  | some (.file bytes) =>
    match Text.decode? bytes with
    | some cs => .ok (String.ofList cs)
    | none => .error .notText
  | some .directory => .error .isDirectory
  | some (.link _) => .error .tooManyLinks

end FileTree

end CacheWarden
