import CacheWarden.Proofs.Settings.Holding
import CacheWarden.Proofs.Settings.RoundTrip
/-!
What is behind settings that were accepted.

What was read stands in the document, in the mappings that hold it (`Holds`).  So eviction is
off only where the document says so (`switchesOff_of_parse`), and otherwise the check on the
way in leaves both delays stored, and the one between two clears longer than nothing
(`scheduled_of_parse`).
-/

namespace CacheWarden

open Yaml (Node)

/-! ### What a document says -/

namespace Yaml.Document

variable (d : Document)

/-- A node is a scalar with the value false: a plain one, or a literal one that is tagged so. -/
def IsFalse (node : Node) : Prop :=
  ∃ mark tag text style, d.Leads node (.scalar mark tag text style) ∧
    (style = .plain ∨ style = .literal ∧ tag = some (coreTag "bool")) ∧ boolean? text = some false

/-- The eviction section is there, and has the value false for whether it is enabled. -/
def SwitchesOff : Prop :=
  ∃ app eviction enabled, d.Holds d.root "app" app ∧ d.Holds app "eviction" eviction ∧
    d.Holds eviction "enabled" enabled ∧ d.IsFalse enabled

end Yaml.Document

namespace Decode

variable {d : Yaml.Document} {path : List String} {outer : Site} {node : Node}

/-! ### Eviction that is off -/

theorem isFalse_of_bool (h : bool d path node = .ok false) : d.IsFalse node := by
  unfold bool at h
  dsimp only at h
  split at h
  · rename_i mark tag text style heq
    split at h
    · rename_i b hb
      cases h
      split at hb
      · rename_i hmay
        refine ⟨_, _, _, _, leads_scalar heq ?_, hmay, hb⟩
        rintro rfl
        cases hb
      · cases hb
    · exact absurd h misfit_ne_ok
  · exact absurd h misfit_ne_ok

/-- A section is off if the document says so. -/
theorem isFalse_of_eviction {e : Eviction} (h : eviction d path node = .ok e)
    (off : e.enabled = false) : ∃ enabled, d.Holds node "enabled" enabled ∧ d.IsFalse enabled := by
  obtain ⟨outer, es, hentries, hfields⟩ := exists_of_eviction h
  rw [off] at hfields
  obtain ⟨v, vpath, hholds, hvalue⟩ := keeps_enabled.exists_of_ne hentries hfields (by simp) nofun
  exact ⟨v, hholds, isFalse_of_bool (ok_of_map hvalue)⟩

/-- Settings have a section that is off if the document says so. -/
theorem isFalse_of_sections {s : Settings} (h : sections d path node = .ok s) {e : Eviction}
    (he : s.eviction = some e) (off : e.enabled = false) :
    ∃ eviction enabled, d.Holds node "eviction" eviction ∧ d.Holds eviction "enabled" enabled ∧
      d.IsFalse enabled := by
  obtain ⟨outer, es, hentries, hfields⟩ := exists_of_sections h
  rw [he] at hfields
  obtain ⟨v, vpath, hholds, hvalue⟩ :=
    keeps_eviction.exists_of_ne hentries hfields (by simp) nofun
  obtain ⟨enabled, henabled, hfalse⟩ := isFalse_of_eviction (read_of_optional hvalue) off
  obtain ⟨mark, es, key, keyMark, tag, style, hleads, hentry⟩ := henabled
  -- the section may stand elsewhere, and be named here
  exact ⟨v, enabled, hholds,
    ⟨mark, es, key, keyMark, tag, style, leads_of_follow hleads nofun, hentry⟩, hfalse⟩

end Decode

namespace Settings

open Decode

/-- Settings have a section that is off if the document they are from switches eviction off. -/
theorem switchesOff_of_ofDocument {d : Yaml.Document} {s : Settings} (h : ofDocument d = .ok s)
    {e : Eviction} (he : s.eviction = some e) (off : e.enabled = false) : d.SwitchesOff := by
  obtain ⟨outer, es, hentries, hfields⟩ := exists_of_ofDocument h
  obtain ⟨v, vpath, hholds, hvalue⟩ := keeps_app.exists_of_ne hentries hfields (by simp) nofun
  obtain ⟨eviction, enabled, heviction, henabled, hfalse⟩ :=
    isFalse_of_sections (ok_of_map hvalue) he off
  exact ⟨v, eviction, enabled, hholds, heviction, henabled, hfalse⟩

/-! ### Settings that were accepted -/

/-- Settings that were accepted are those of a document, completed, and their delay is not zero. -/
theorem exists_of_parse {text : String} {s : Settings} (h : parse text = .ok s) :
    ∃ d s₀, Yaml.parse text = .ok d ∧ ofDocument d = .ok s₀ ∧ s₀.completed.isSpinning = false ∧
      s = s₀.completed := by
  obtain ⟨d, hd, hload⟩ := exists_document h
  unfold load at hload
  split at hload
  · cases hload
  · rename_i s₀ hs₀
    unfold checked at hload
    split at hload
    · cases hload
    · rename_i hspin
      cases hload
      exact ⟨d, s₀, hd, hs₀, Bool.eq_false_iff.mpr hspin, rfl⟩

/-- Eviction is off only where the document says so. -/
theorem switchesOff_of_parse {text : String} {s : Settings} (h : parse text = .ok s)
    (off : s.isEvictionEnabled = false) : ∃ d, Yaml.parse text = .ok d ∧ d.SwitchesOff := by
  obtain ⟨d, s₀, hd, hs₀, -, rfl⟩ := exists_of_parse h
  refine ⟨d, hd, ?_⟩
  replace off : (s₀.eviction.getD .default).enabled = false := off
  rcases he : s₀.eviction with - | e
  · -- where nothing is said, eviction is on
    rw [he] at off
    cases off
  · rw [he] at off
    exact switchesOff_of_ofDocument hs₀ he off

/-- There is an eviction section with both delays, the one between two clears is longer than
nothing, and the worker has just this. -/
structure Scheduled (s : Settings) (e : Eviction) (initial fixed : Span) : Prop where
  eviction : s.eviction = some e
  initialDelay : e.initialDelay = some initial
  fixedDelay : e.fixedDelay = some fixed
  positive : 0 < fixed.nanos
  enabled : s.isEvictionEnabled = e.enabled
  worker : Worker.ofSettings s = ⟨e.enabled, ⟨initial, fixed⟩⟩

theorem scheduled_of_parse {text : String} {s : Settings} (h : parse text = .ok s) :
    ∃ e initial fixed, s.Scheduled e initial fixed := by
  obtain ⟨d, s₀, -, -, hspin, rfl⟩ := exists_of_parse h
  let e := s₀.eviction.getD .default
  have hfixed : e.fixed.isZero = false := hspin
  have hpos : 0 < e.fixed.nanos := by
    simpa [Span.isZero, Nat.pos_iff_ne_zero] using hfixed
  exact ⟨e.completed, e.initial, e.fixed, rfl, rfl, rfl, hpos, rfl, rfl⟩

end Settings

end CacheWarden
