import CacheWarden.Proofs.FileTree.Trail
import CacheWarden.Proofs.Settings.Crash
import CacheWarden.Proofs.Text.Utf8
import CacheWarden.Settings.Lookup
import Mathlib
/-!
Settings and the file that they come from.

A file gives settings exactly if its path leads to a file whose bytes are a text that is
read (`ofFile_eq_ok_iff`), and it crashes exactly if they are one that crashes
(`ofFile_eq_crash_iff`).  What a path gives hangs on the entries on its trail only
(`ofFile_congr`).  So a file that is named is the only one that matters, and without a
name the default file matters only where the local one is refused (`faithful`).  A crash
of the local file ends the lookup, whatever the default file is (`crash_local`).
-/

namespace CacheWarden

/-! ### The settings of a file -/

/-- A place has a text exactly if a file with the bytes of the text stands there. -/
theorem FileTree.readText_eq_ok_iff {t : FileTree} {place : Location} {text : String} :
    t.readText place = .ok text ↔
      ∃ cs, t.entry? place = some (.file (Text.utf8 cs)) ∧ text = String.ofList cs := by
  unfold readText
  rcases t.entry? place with - | (- | bytes | target)
  · simp
  · simp
  · rcases hdecode : Text.decode? bytes with - | cs
    · have hnone (cs : List Char) : bytes ≠ Text.utf8 cs := fun h => by
        rw [Text.decode?_eq_some_iff.mpr h] at hdecode
        cases hdecode
      simp [hnone, hdecode]
    · have hbytes (ds : List Char) : bytes = Text.utf8 ds ↔ cs = ds := by
        rw [← Text.decode?_eq_some_iff, hdecode, Option.some.injEq]
      simp [hdecode, hbytes, eq_comm]
  · simp

section

variable {t : FileTree} {dir : Location} {path : String}

/-- A text that a path leads to is one that a file there has as its bytes. -/
theorem FileTree.exists_text_iff {p : String → Prop} :
    (∃ place text, t.resolve dir path = .ok place ∧ t.readText place = .ok text ∧ p text) ↔
      ∃ place cs, t.resolve dir path = .ok place ∧ t.entry? place = some (.file (Text.utf8 cs)) ∧
        p (String.ofList cs) := by
  constructor
  · rintro ⟨place, text, hplace, htext, h⟩
    obtain ⟨cs, hfile, rfl⟩ := FileTree.readText_eq_ok_iff.mp htext
    exact ⟨place, cs, hplace, hfile, h⟩
  · rintro ⟨place, cs, hplace, hfile, h⟩
    exact ⟨place, _, hplace, FileTree.readText_eq_ok_iff.mpr ⟨cs, hfile, rfl⟩, h⟩

/-- A path gives settings exactly if it leads to a file with a text that is read to them. -/
theorem Settings.ofFile_eq_ok_iff {s : Settings} :
    Settings.ofFile t dir path = .ok s ↔
      ∃ place cs, t.resolve dir path = .ok place ∧ t.entry? place = some (.file (Text.utf8 cs)) ∧
        Settings.parse (String.ofList cs) = .ok s := by
  rw [← FileTree.exists_text_iff (p := fun text => Settings.parse text = .ok s)]
  unfold Settings.ofFile
  rcases t.resolve dir path with e | place
  · simp [Attempt.refuse]
  · rcases htext : t.readText place with e | text
    · simp [htext, Attempt.refuse]
    · rcases hs : Settings.parse text with stop | s' <;> simp [htext, hs]

/-- A path crashes exactly if it leads to a file with a text that does. -/
theorem Settings.ofFile_eq_crash_iff :
    Settings.ofFile t dir path = .error .crash ↔
      ∃ place cs, t.resolve dir path = .ok place ∧ t.entry? place = some (.file (Text.utf8 cs)) ∧
        Settings.parse (String.ofList cs) = .error .crash := by
  rw [← FileTree.exists_text_iff (p := fun text => Settings.parse text = .error .crash)]
  unfold Settings.ofFile
  rcases t.resolve dir path with e | place
  · simp [Attempt.refuse]
  · rcases htext : t.readText place with e | text
    · simp [htext, Attempt.refuse]
    · rcases hs : Settings.parse text with (e | -) | s' <;> simp [htext, hs]

end

/-- What a path gives hangs on the entries on its trail only. -/
theorem Settings.ofFile_congr {t t' : FileTree} {dir : Location} {path : String}
    (h : t.AgreeOn t' (t.trail dir path)) :
    Settings.ofFile t' dir path = Settings.ofFile t dir path := by
  unfold Settings.ofFile
  rw [FileTree.resolve_congr h]
  rcases hplace : t.resolve dir path with e | place
  · rfl
  · simp only [FileTree.readText_congr (h place (FileTree.mem_trail hplace))]

namespace Lookup

/-! ### Lookup -/

/-- What a path gives, as a result of the lookup. -/
def outcome (custom : Option String) (t : FileTree) (dir : Location) (path : String) :
    Attempt Failure (Settings × String) :=
  ((Settings.ofFile t dir path).map (·, path)).mapError (Stop.map (Failure.mk custom))

/-- The places of the two files that are looked for without a name. -/
def ownPlaces (dir : Location) : List Location :=
  [dir ++ FileTree.steps localPath, dir ++ FileTree.steps defaultPath]

theorem find_some (t : FileTree) (dir : Location) (path : String) :
    find t dir (some path) = outcome (some path) t dir path := by
  unfold outcome
  rcases h : Settings.ofFile t dir path with stop | s <;> simp only [find, h] <;> rfl

theorem find_of_ok {t : FileTree} {dir : Location} {s : Settings}
    (h : Settings.ofFile t dir localPath = .ok s) : find t dir none = .ok (s, localPath) := by
  simp only [find, h]

theorem find_of_refusal {t : FileTree} {dir : Location} {e : LoadError}
    (h : Settings.ofFile t dir localPath = .error (.refusal e)) :
    find t dir none = outcome none t dir defaultPath := by
  unfold outcome
  rcases hdefault : Settings.ofFile t dir defaultPath with stop | s <;>
    simp only [find, h, hdefault] <;> rfl

theorem find_of_crash {t : FileTree} {dir : Location}
    (h : Settings.ofFile t dir localPath = .error .crash) : find t dir none = .error .crash := by
  simp only [find, h]

/-- What is found comes from the file that it names. -/
theorem ofFile_of_find {t : FileTree} {dir : Location} {custom : Option String} {s : Settings}
    {path : String} (h : find t dir custom = .ok (s, path)) :
    Settings.ofFile t dir path = .ok s := by
  have houtcome {custom : Option String} {p : String}
      (h : outcome custom t dir p = .ok (s, path)) : Settings.ofFile t dir path = .ok s := by
    unfold outcome at h
    rcases hp : Settings.ofFile t dir p with stop | s <;> rw [hp] at h <;> cases h
    exact hp
  rcases custom with - | p
  · rcases hlocal : Settings.ofFile t dir localPath with (e | -) | s'
    · exact houtcome (find_of_refusal hlocal ▸ h)
    · rw [find_of_crash hlocal] at h
      cases h
    · rw [find_of_ok hlocal] at h
      cases h
      exact hlocal
  · exact houtcome (find_some t dir p ▸ h)

/-- The lookup is faithful to the files that it names. -/
structure Faithful (t : FileTree) (dir : Location) : Prop where
  /-- Settings that are found are read from the bytes of the file that the path leads to. -/
  source : ∀ custom s path, find t dir custom = .ok (s, path) →
    ∃ place cs, t.resolve dir path = .ok place ∧
      t.Leads (FileTree.base dir path) (FileTree.steps path) place ∧
      t.entry? place = some (.file (Text.utf8 cs)) ∧ Settings.parse (String.ofList cs) = .ok s
  /-- A file that is named gives the result, be it settings or a failure. -/
  named : ∀ path, find t dir (some path) = outcome (some path) t dir path
  /-- Nothing off the way to that file matters. -/
  namedAlone : ∀ path t', t.AgreeOn t' (t.trail dir path) →
    find t' dir (some path) = find t dir (some path)
  /-- Least of all the files that are looked for without a name. -/
  namedApart : ∀ path t', (∀ place ∈ ownPlaces dir, place ∉ t.trail dir path) →
    (∀ place ∉ ownPlaces dir, t'.entry? place = t.entry? place) →
    find t' dir (some path) = find t dir (some path)
  /-- Without a name the local file comes first, and if it gives settings, nothing off the way to
  it matters. -/
  ownFirst : ∀ s, Settings.ofFile t dir localPath = .ok s →
    ∀ t', t.AgreeOn t' (t.trail dir localPath) → find t' dir none = .ok (s, localPath)
  /-- If it is refused, the default file gives the result, be it settings or a failure. -/
  fallback : ∀ e, Settings.ofFile t dir localPath = .error (.refusal e) →
    find t dir none = outcome none t dir defaultPath
  /-- Then nothing off the way to the default file matters, nor why the local file is refused. -/
  fallbackAlone : ∀ e, Settings.ofFile t dir localPath = .error (.refusal e) →
    ∀ t' e', Settings.ofFile t' dir localPath = .error (.refusal e') →
    t.AgreeOn t' (t.trail dir defaultPath) → find t' dir none = find t dir none
  /-- If it crashes, so does the lookup. -/
  crash : Settings.ofFile t dir localPath = .error .crash → find t dir none = .error .crash
  /-- A file crashes only if what is read of it, up to a fault if there is one, holds a text for a
  span that does. -/
  origin : ∀ path, Settings.ofFile t dir path = .error .crash →
    ∃ place cs field text, t.resolve dir path = .ok place ∧
      t.entry? place = some (.file (Text.utf8 cs)) ∧
      (Yaml.upToFault (Yaml.parse (String.ofList cs))).Gives field text ∧
      Span.parse text = .error .crash

/-- The lookup is faithful in every tree, from every directory. -/
theorem faithful (t : FileTree) (dir : Location) : Faithful t dir := by
  have halone (path : String) (t' : FileTree) (h : t.AgreeOn t' (t.trail dir path)) :
      find t' dir (some path) = find t dir (some path) := by
    rw [find_some, find_some, outcome, outcome, Settings.ofFile_congr h]
  refine ⟨?_, find_some t dir, halone, ?_, ?_, fun _ => find_of_refusal, ?_, find_of_crash, ?_⟩
  · intro custom s path h
    obtain ⟨place, cs, hplace, hfile, hs⟩ := Settings.ofFile_eq_ok_iff.mp (ofFile_of_find h)
    exact ⟨place, cs, hplace, FileTree.leads_of_resolve hplace, hfile, hs⟩
  · intro path t' hoff hagree
    exact halone path t' fun place hplace => hagree place fun hown => hoff place hown hplace
  · intro s h t' hagree
    exact find_of_ok ((Settings.ofFile_congr hagree).trans h)
  · intro e h t' e' h' hagree
    rw [find_of_refusal h, find_of_refusal h', outcome, outcome, Settings.ofFile_congr hagree]
  · intro path h
    obtain ⟨place, cs, hplace, hfile, hs⟩ := Settings.ofFile_eq_crash_iff.mp h
    obtain ⟨field, text, hgives, hcrash⟩ := Settings.gives_of_parse_crash hs
    exact ⟨place, cs, field, text, hplace, hfile, hgives, hcrash⟩

/-! ### A lookup that crashes -/

/-- Settings with a delay that crashes. -/
def brokenText : String :=
  "app:\n  env: dev\n  shutdown:\n    timeout: 18446744073709551615s 1000000000ns\n"

/-- Settings that are read. -/
def soundText : String := "app:\n  env: dev\n"

/-- A tree with both files, of which the local one crashes. -/
def brokenTree : FileTree :=
  ⟨[(["cfg"], .directory),
    (["cfg", "feedcache.cfg.local.yaml"], .file (Text.utf8 brokenText.toList)),
    (["cfg", "feedcache.cfg.yaml"], .file (Text.utf8 soundText.toList))]⟩

theorem steps_localPath : FileTree.steps localPath = ["cfg", "feedcache.cfg.local.yaml"] := by
  have hend : localPath.endsWith "/" = false := by
    rw [← String.endsWith_toSlice, String.Slice.endsWith_string_eq_false_iff]
    decide
  simp only [FileTree.steps, hend]
  decide

theorem steps_defaultPath : FileTree.steps defaultPath = ["cfg", "feedcache.cfg.yaml"] := by
  have hend : defaultPath.endsWith "/" = false := by
    rw [← String.endsWith_toSlice, String.Slice.endsWith_string_eq_false_iff]
    decide
  simp only [FileTree.steps, hend]
  decide

/-- A path of two names leads to the second in the directory of the first. -/
theorem resolve_brokenTree {path name : String} (hsteps : FileTree.steps path = ["cfg", name])
    (hlook : brokenTree.look ["cfg"] name = .go ["cfg", name])
    (hnul : path.contains '\x00' = false) (hempty : path.isEmpty = false) :
    brokenTree.resolve [] path = .ok ["cfg", name] := by
  have hcfg : brokenTree.look [] "cfg" = .go ["cfg"] := rfl
  have hbase : FileTree.base [] path = [] := ite_self _
  rw [FileTree.resolve_eq, hnul, hempty, hbase, hsteps, if_neg Bool.false_ne_true,
    if_neg Bool.false_ne_true, FileTree.walk_cons, hcfg]
  dsimp only
  rw [FileTree.walk_cons, hlook]
  exact FileTree.walk_nil _ _ _

/-- **The default file does not help where the local one crashes**, good as it may be. -/
theorem crash_local :
    Settings.ofFile brokenTree [] defaultPath =
      .ok (Settings.completed ⟨"dev", none, none, none, none⟩) ∧
    (∀ s, Settings.ofFile brokenTree [] localPath ≠ .ok s) ∧
    find brokenTree [] none = .error .crash := by
  have hdefault : Settings.ofFile brokenTree [] defaultPath =
      .ok (Settings.completed ⟨"dev", none, none, none, none⟩) := by
    have hplace := resolve_brokenTree steps_defaultPath rfl (by cbv) (by cbv)
    refine Settings.ofFile_eq_ok_iff.mpr ⟨_, soundText.toList, hplace, rfl, ?_⟩
    rw [String.ofList_toList]
    cbv
  have hlocal : Settings.ofFile brokenTree [] localPath = .error .crash := by
    have hplace := resolve_brokenTree steps_localPath rfl (by cbv) (by cbv)
    refine Settings.ofFile_eq_crash_iff.mpr ⟨_, brokenText.toList, hplace, rfl, ?_⟩
    rw [String.ofList_toList]
    cbv
  refine ⟨hdefault, fun s h => ?_, find_of_crash hlocal⟩
  rw [hlocal] at h
  cases h

end Lookup

end CacheWarden
