import CacheWarden.FileTree
import CacheWarden.Settings.Reader
/-!
Where settings come from: a file that is named, or else the local file, or else
the default one.  Any refusal of the local file, whatever its cause, passes to the
default file, whose refusal is the one that is told.  A crash passes to nothing.
-/

namespace CacheWarden

/-- Why a file gives no settings. -/
inductive LoadError where
  /-- The path leads nowhere. -/
  | unresolved (path : String) (cause : PathFault)
  /-- The file that the path leads to is not read. -/
  | unreadable (place : Location) (cause : PathFault)
  /-- The text of the file gives no settings. -/
  | unusable (place : Location) (cause : SettingsError)

/-- The error in words, and its causes behind it. -/
def LoadError.chain : LoadError → List String
  | .unresolved path cause =>
    ["failed to resolve absolute config filepath: " ++ Text.quoted path, cause.message]
  | .unreadable place cause =>
    ["read config yaml file " ++ Text.quoted (FileTree.pathText place), cause.message]
  | .unusable place cause =>
    ["unmarshal yaml from " ++ Text.quoted (FileTree.pathText place), cause.message]

/-- The settings of the file that a path leads to from a directory. -/
def Settings.ofFile (t : FileTree) (dir : Location) (path : String) :
    Attempt LoadError Settings :=
  match t.resolve dir path with
  | .error e => .refuse (.unresolved path e)
  | .ok place =>
    match t.readText place with
    | .error e => .refuse (.unreadable place e)
    | .ok text =>
      match Settings.parse text with
      | .error stop => .error (stop.map (.unusable place))
      | .ok s => .ok s

namespace Lookup

/-- The file that is tried first. -/
def localPath : String := "cfg/feedcache.cfg.local.yaml"

/-- The file behind it. -/
def defaultPath : String := "cfg/feedcache.cfg.yaml"

/-- Why no settings were found. -/
structure Failure where
  /-- The path that was asked for, if one was. -/
  custom : Option String
  cause : LoadError

/-- The failure in words, and its causes behind it. -/
def Failure.chain (f : Failure) : List String :=
  let head :=
    match f.custom with
    | some path => "failed to load custom config from " ++ Text.quoted path
    | none => "failed to load config from " ++ defaultPath
  head :: f.cause.chain

/-- The settings to run with, and the path that they come from. -/
def find (t : FileTree) (dir : Location) (path : Option String) :
    Attempt Failure (Settings × String) :=
  match path with
  | some path =>
    match Settings.ofFile t dir path with
    | .ok s => .ok (s, path)
    | .error stop => .error (stop.map (Failure.mk (some path)))
  | none =>
    match Settings.ofFile t dir localPath with
    | .ok s => .ok (s, localPath)
    | .error .crash => .error .crash
    | .error (.refusal _) =>
      match Settings.ofFile t dir defaultPath with
      | .ok s => .ok (s, defaultPath)
      | .error stop => .error (stop.map (Failure.mk none))

end Lookup

end CacheWarden
