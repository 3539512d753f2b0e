/-!
The program's command line: its options, and what can be asked with them.
-/

namespace CacheWarden.CommandLine

/-- An option. -/
inductive Flag where
  /-- The settings' file. -/
  | cfg
  | help
  | version
deriving DecidableEq, Repr

/-- All options in the order of the help. -/
def Flag.all : List Flag := [.cfg, .help, .version]

/-- The long name of an option. -/
def Flag.long : Flag → String
  | .cfg => "cfg"
  | .help => "help"
  | .version => "version"

/-- The short name of an option. -/
def Flag.short : Flag → Char
  | .cfg => 'c'
  | .help => 'h'
  | .version => 'V'

/-- An option as it is to be used. -/
def Flag.usage (f : Flag) : String :=
  match f with
  | .cfg => "--cfg <FILE>"
  | .help | .version => "--" ++ f.long

/-- The option of a long name. -/
def Flag.ofLong? (name : String) : Option Flag := Flag.all.find? (·.long == name)

/-- The option of a short name. -/
def Flag.ofShort? (c : Char) : Option Flag := Flag.all.find? (·.short == c)

/-- What is asked for. -/
inductive Request where
  /-- Run with the settings of a file, or with those that are found. -/
  | run (path : Option String)
  | help
  | version
deriving DecidableEq, Repr

/-- Why a command line asks for nothing. -/
inductive Misuse where
  /-- There is no such argument; the option that may be meant, and the options used in front. -/
  | unknown (argument : String) (tip : Option Flag) (used : List Flag)
  /-- An option got a value that takes none. -/
  | unexpectedValue (value : String) (flag : Flag) (used : List Flag)
  | missingValue
  | repeated
deriving DecidableEq, Repr

/-! ### Texts -/

/-- The program's name. -/
def program : String := "feedcache"

/-- The text on how the program is called, with some options or any. -/
def usage (flags : List Flag) : String :=
  let options := if flags.isEmpty then ["[OPTIONS]"] else flags.map Flag.usage
  "Usage: " ++ " ".intercalate (program :: options) ++ "\n"

/-- What stands at the end of every error. -/
def advice : String := "\nFor more information, try '--help'.\n"

/-- The error in words. -/
def Misuse.message : Misuse → String
  | .unknown argument none used =>
    "error: unexpected argument '" ++ argument ++ "' found\n\n" ++ usage used ++ advice
  | .unknown argument (some tip) used =>
    "error: unexpected argument '" ++ argument ++ "' found\n\n" ++
      "  tip: a similar argument exists: '--" ++ tip.long ++ "'\n\n" ++
      usage (used.erase tip ++ [tip]) ++ advice
  | .unexpectedValue value flag used =>
    "error: unexpected value '" ++ value ++ "' for '" ++ flag.usage ++
      "' found; no more were expected\n\n" ++ usage used ++ advice
  | .missingValue =>
    "error: a value is required for '" ++ Flag.cfg.usage ++ "' but none was supplied\n" ++ advice
  | .repeated =>
    "error: the argument '" ++ Flag.cfg.usage ++ "' cannot be used multiple times\n\n" ++
      usage [] ++ advice

/-- The help. -/
def helpText : String :=
  program ++ " - periodic eviction of the feed discovery cache\n\n" ++ usage [] ++
    "\nOptions:\n  -c, --cfg <FILE>  Custom config file path\n  -h, --help        Print help\n" ++
    "  -V, --version     Print version\n"

/-- The version. -/
def versionText : String := program ++ " 0.1.0\n"

end CacheWarden.CommandLine
