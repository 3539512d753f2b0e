import CacheWarden.Settings.Decode
/-!
Settings from text.  Settings that are read always say when eviction runs, and
never that it runs without a pause.
-/

namespace CacheWarden

/-- Why a text gives no settings. -/
inductive SettingsError where
  /-- The text is not one well-formed document. -/
  | malformed (fault : Yaml.Fault)
  /-- The document holds something else. -/
  | misfit (misfit : Misfit)
  /-- Eviction would run without a pause. -/
  | zeroDelay

/-- The error in words. -/
def SettingsError.message : SettingsError → String
  | .malformed f => f.message
  | .misfit m => m.message
  | .zeroDelay => "eviction.fixed_delay must be greater than zero"

/-- Completes settings, unless they let eviction run without a pause. -/
def Settings.checked (s : Settings) : Attempt SettingsError Settings :=
  if s.completed.isSpinning then .refuse .zeroDelay else .ok s.completed

/-- The settings of a document, completed. -/
def Settings.load (d : Yaml.Document) : Attempt SettingsError Settings :=
  match Settings.ofDocument d with
  | .error stop => .error (stop.map .misfit)
  | .ok s => s.checked

/-- The settings of a text.  What stands in front of a fault is read before the fault is told, and
can crash. -/
def Settings.parse (text : String) : Attempt SettingsError Settings :=
  match Yaml.parse text with
  | .ok d => Settings.load d
  | .error b =>
    match Settings.ofDocument b.front with
    | .error .crash => .error .crash
    | _ => .refuse (.malformed b.fault)

/-- The settings of a well-formed text are those of its document. -/
theorem Settings.parse_of_document {text : String} {d : Yaml.Document}
    (h : Yaml.parse text = .ok d) : Settings.parse text = Settings.load d := by
  unfold parse
  rw [h]

/-- Only a well-formed text gives settings. -/
theorem Settings.exists_document {text : String} {s : Settings} (h : Settings.parse text = .ok s) :
    ∃ d, Yaml.parse text = .ok d ∧ Settings.load d = .ok s := by
  unfold parse at h
  split at h
  · rename_i d hd
    exact ⟨d, hd, h⟩
  · split at h <;> cases h

end CacheWarden
