import CacheWarden.Yaml.Plain
/-!
Why a YAML document holds no settings, and where.
-/

namespace CacheWarden

/-- A place in a document: the names of the fields that lead there, and its mark. -/
structure Site where
  path : List String
  mark : Yaml.Mark
deriving Repr

/-- What does not fit. -/
inductive Complaint where
  /-- A node of another kind. -/
  | wrongType (found expected : String)
  /-- A value of the right kind that is none of those expected. -/
  | wrongValue (found expected : String)
  | badAddress
  | missingField (name : String)
  | duplicateField (name : String)
deriving DecidableEq, Repr

/-- What does not fit, and where. -/
structure Misfit where
  complaint : Complaint
  site : Site
deriving Repr

/-- The complaint in words. -/
def Complaint.message : Complaint → String
  | .wrongType found expected => "invalid type: " ++ found ++ ", expected " ++ expected
  | .wrongValue found expected => "invalid value: " ++ found ++ ", expected " ++ expected
  | .badAddress => "invalid socket address syntax"
  | .missingField name => "missing field \x60" ++ name ++ "\x60"
  | .duplicateField name => "duplicate field \x60" ++ name ++ "\x60"

/-- The misfit in words: the path in front, unless it is the root's, and line and column behind,
counted from 1, unless they are the start of the text. -/
def Misfit.message (m : Misfit) : String :=
  let path := if m.site.path.isEmpty then "" else ".".intercalate m.site.path ++ ": "
  let mark := m.site.mark
  let place :=
    if mark.line = 0 ∧ mark.column = 0 then ""
    else " at line " ++ Text.ordinal (mark.line + 1) ++ " column " ++ Text.ordinal (mark.column + 1)
  path ++ m.complaint.message ++ place

end CacheWarden
