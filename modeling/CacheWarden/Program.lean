import CacheWarden.Address.Writer
import CacheWarden.App
import CacheWarden.CommandLine.Reader
import CacheWarden.Exporter
import CacheWarden.Log.Filter
import CacheWarden.Log.Writer
import CacheWarden.Settings.Lookup
/-!
The program: from its command line to the end of the service.
-/

namespace CacheWarden

namespace Program

/-! ### The start -/

/-- A program that ended before its service started. -/
structure Ended where
  exit : Nat
  stdout : String
  stderr : String
deriving DecidableEq, Repr

/-- A program whose service can start. -/
structure Started where
  settings : Settings
  filter : LogFilter
  /-- What was told so far. -/
  notices : List Notice

/-- A text after a label, its later lines as far to the right. -/
def indented (label text : String) : String :=
  label ++ text.replace "\n" ("\n" ++ String.ofList (List.replicate label.length ' '))

/-- The lines of several causes, numbered from a number on. -/
def causeLines (n : Nat) : List String → String
  | [] => ""
  | cause :: causes => indented ("    " ++ Text.ordinal n ++ ": ") cause ++ "\n" ++
      causeLines (n + 1) causes

/-- The text of a failure and its causes; a single cause has no number. -/
def failureText : List String → String
  | [] => ""
  | [failure] => "Error: " ++ failure ++ "\n"
  | [failure, cause] => "Error: " ++ failure ++ "\n\nCaused by:\n" ++ indented "    " cause ++ "\n"
  | failure :: causes => "Error: " ++ failure ++ "\n\nCaused by:\n" ++ causeLines 0 causes

/-- A program that failed. -/
def failed (chain : List String) : Ended := ⟨1, "", failureText chain⟩

/-- A program whose application does not start. -/
def unbuilt (e : AppError) : Ended := failed ["failed to build application", e.message]

/-- What is told of the attempt to serve metrics, if there is one. -/
def exporterNotices (listen : Listener) (s : Settings) : List Notice :=
  if s.isMetricsEnabled then
    match listen s.metricsListen with
    | .ok () => [.exporterStarted s.metricsListen.text]
    | .error e => [.exporterFailed e.message]
  else []

/-- Loads the settings, and makes ready what has to be there before the service.  `filter` is the
environment's wish about the log. -/
def prepare (path : Option String) (filter : Option String) (listen : Listener) (t : FileTree)
    (dir : Location) : Attempt Ended Started :=
  match Lookup.find t dir path with
  | .error stop => .error (stop.map fun e => failed e.chain)
  | .ok (s, path) =>
    .ok ⟨s, .choose filter s.level?, .settingsLoaded path :: exporterNotices listen s⟩

/-- The program up to the start of its service. -/
def start (args : List String) (filter : Option String) (listen : Listener) (t : FileTree)
    (dir : Location) : Attempt Ended Started :=
  match CommandLine.read args with
  | .error e => .refuse ⟨2, "", e.message⟩
  | .ok .help => .refuse ⟨0, CommandLine.helpText, ""⟩
  | .ok .version => .refuse ⟨0, CommandLine.versionText, ""⟩
  | .ok (.run path) => prepare path filter listen t dir

/-! ### The end -/

/-- The form of the log. -/
inductive Format where
  | json
  | pretty
deriving DecidableEq, Repr

/-- Programs read the log in production, and people elsewhere. -/
def formatOf (s : Settings) : Format := if s.isProd then .json else .pretty

/-- A record in a form. -/
def Format.text : Format → Record → String
  | .json, r => r.value.render
  | .pretty, r => r.line

/-- Those records of notices that are logged. -/
def records (filter : LogFilter) (ns : List Notice) : List Record :=
  (ns.map Notice.record).filter filter.admits

/-- The exit code after a service. -/
def exitCode : Closing → Nat
  | .complete => 0
  | .timedOut | .undecided => 1

/-- A program whose service has ended. -/
structure Lived where
  exit : Nat
  format : Format
  records : List Record

/-- The whole program.  Its service is interrupted as soon as it waits for that. -/
def run (args : List String) (filter : Option String) (listen : Listener) (t : FileTree)
    (dir : Location) (epoch : Int) : Attempt Ended Lived :=
  match start args filter listen t dir with
  | .error stop => .error stop
  | .ok p =>
    match App.live p.settings epoch 0 with
    | .error e => .refuse (unbuilt e)
    | .ok (a, c) =>
      .ok ⟨exitCode c, formatOf p.settings,
        records p.filter (p.notices ++ a.service.notices)⟩

end Program

end CacheWarden
