import CacheWarden.Proofs.Address.RoundTrip
import CacheWarden.Proofs.Span.RoundTrip
import CacheWarden.Proofs.Yaml.Compact
import CacheWarden.Settings.Writer
/-!
Settings as a compact document.

The JSON text of settings is that of a compact document (`Settings.json_eq`): what may be
absent is a word there, spans and addresses are quoted texts, and sections are mappings.
The texts of spans and addresses are always printable, so the document fits as soon as the
name of the environment and the log level do (`Settings.fits_compact`).
-/

namespace CacheWarden

open Text Yaml Json

/-! ### Printable texts -/

theorem printable_digits {base : Nat} (hbase : 2 ≤ base ∧ base ≤ 16) (n : Nat) :
    Printable ((bigDigits base n).map digitChar) := by
  have hall : ∀ d < 16, IsPrintable (digitChar d) := by decide
  intro c hc
  obtain ⟨d, hd, rfl⟩ := List.mem_map.mp hc
  exact hall d (Nat.lt_of_lt_of_le (lt_of_mem_bigDigits hbase.1 hd) hbase.2)

theorem printable_decimal (n : Nat) : Printable (decimal n) := by
  rw [decimal_eq]
  exact printable_digits (by decide) n

theorem printable_hex (n : Nat) : Printable (hex n) := by
  rw [hex_eq]
  exact printable_digits (by decide) n

theorem printable_intercalate {sep : List Char} (hsep : Printable sep) {texts : List (List Char)}
    (h : ∀ t ∈ texts, Printable t) : Printable (sep.intercalate texts) := by
  induction texts with
  | nil => exact printable_nil
  | cons t texts ih =>
    obtain ⟨ht, htexts⟩ := List.forall_mem_cons.mp h
    cases texts with
    | nil =>
      rw [List.intercalate_singleton]
      exact ht
    | cons u texts =>
      rw [List.intercalate_cons_cons]
      exact printable_append (printable_append ht hsep) (ih htexts)

namespace Span

/-- No span is written with the one name that is not printable. -/
theorem printable_written (u : Measure) (n : Nat) : Printable (u.written n).toList := by
  have hplural {name : String} (h : Printable name.toList) (h' : Printable (name ++ "s").toList) :
      Printable (plural name n).toList := by
    unfold plural
    split
    · exact h'
    · exact h
  cases u with
  | day | week | month | year => exact hplural (by decide) (by decide)
  | _ =>
    simp only [Measure.written]
    decide

theorem printable_text (s : Span) : Printable s.text.toList := by
  rcases hzero : s.isZero with - | -
  · rw [text_eq hzero, toList_spaced]
    apply printable_intercalate (by decide)
    intro t ht
    obtain ⟨p, -, rfl⟩ := List.mem_map.mp ht
    exact printable_append (printable_decimal p.count) (printable_written p.measure p.count)
  · rw [isZero_iff.mp hzero]
    decide

end Span

namespace Address

theorem printable_v4Text (a b c d : UInt8) : Printable (v4Text a b c d) := by
  have hpoint : IsPrintable '.' := by decide
  rw [v4Text_eq]
  apply printable_append (printable_decimal _) (printable_cons hpoint _)
  apply printable_append (printable_decimal _) (printable_cons hpoint _)
  apply printable_append (printable_decimal _) (printable_cons hpoint _)
  exact printable_decimal _

theorem printable_groupsText (gs : List UInt16) : Printable (groupsText gs) := by
  cases gs with
  | nil => exact printable_nil
  | cons g gs =>
    rw [groupsText_cons]
    apply printable_append (printable_hex _)
    intro c hc
    obtain ⟨g', -, hc⟩ := List.mem_flatMap.mp hc
    exact printable_cons (by decide) (printable_hex g'.toNat) c hc

theorem printable_v6Text (gs : List UInt16) : Printable (v6Text gs) := by
  unfold v6Text
  split
  · exact printable_append (by decide) (printable_v4Text _ _ _ _)
  · dsimp only
    split
    · apply printable_append (printable_append (printable_groupsText _) (by decide))
      exact printable_groupsText _
    · exact printable_groupsText gs

theorem printable_hostText (h : Host) : Printable (hostText h) := by
  cases h with
  | v4 a b c d => exact printable_v4Text a b c d
  | v6 gs scope =>
    have hlink : Printable (linkText scope) := by
      unfold linkText
      split
      · exact printable_nil
      · exact printable_cons (by decide) (printable_decimal _)
    apply printable_cons (by decide)
    exact printable_append (printable_append (printable_v6Text gs.val) hlink) (by decide)

theorem printable_text (a : Address) : Printable a.text.toList := by
  unfold text
  rw [String.toList_ofList]
  apply printable_append (printable_hostText a.host)
  exact printable_cons (by decide) (printable_decimal _)

end Address

/-! ### Documents -/

namespace Yaml.Compact

/-- A value, or null. -/
def optional {α : Type} (f : α → Compact) : Option α → Compact
  | none => .word "null"
  | some a => f a

/-- A boolean. -/
def bool (b : Bool) : Compact := .word (if b then "true" else "false")

theorem text_optional {α : Type} (f : α → Compact) (o : Option α) :
    (optional f o).text = optionText (fun a => (f a).text) o := by
  cases o with
  | none => rfl
  | some a => rfl

theorem text_bool (b : Bool) : (bool b).text = boolText b := by
  cases b with
  | false => rfl
  | true => rfl

theorem text_mapping (es : List (String × Compact)) :
    (mapping es).text = membersText (es.map fun e => (e.1, e.2.text)) := by
  have hentries : entriesText es =
      ((es.map fun e => stringText e.1 ++ ':' :: e.2.text).intersperse [',']).flatten := by
    induction es with
    | nil => rfl
    | cons e es ih =>
      obtain ⟨name, f⟩ := e
      cases es with
      | nil => exact (List.append_nil _).symm
      | cons e es =>
        rw [entriesText, ih]
        simp
  unfold membersText
  rw [List.map_map]
  show '\x7b' :: (entriesText es ++ _) = _
  rw [hentries]
  rfl

theorem fits_optional {α : Type} {f : α → Compact} {o : Option α} (h : ∀ a ∈ o, (f a).Fits) :
    (optional f o).Fits := by
  cases o with
  | none => exact .word (by decide)
  | some a => exact h a rfl

theorem fits_bool (b : Bool) : (bool b).Fits := by
  apply Fits.word
  cases b <;> decide

theorem fits_nil : (mapping []).Fits :=
  .mapping (List.forall_mem_nil _) (List.forall_mem_nil _)

theorem fits_cons {name : String} {f : Compact} {es : List (String × Compact)}
    (hname : IsKey name) (hf : f.Fits) (hes : (mapping es).Fits) :
    (mapping ((name, f) :: es)).Fits := by
  cases hes with
  | mapping hkeys hvalues =>
    exact .mapping (List.forall_mem_cons.mpr ⟨hname, hkeys⟩)
      (List.forall_mem_cons.mpr ⟨hf, hvalues⟩)

end Yaml.Compact

open Yaml (Compact)

/-- A span as a quoted text. -/
def Span.compact (s : Span) : Compact := .quoted s.text

/-- An address as a quoted text. -/
def Address.compact (a : Address) : Compact := .quoted a.text

/-- The log section. -/
def Logs.compact (l : Logs) : Compact := .mapping [("level", .optional .quoted l.level)]

/-- The eviction section. -/
def Eviction.compact (e : Eviction) : Compact :=
  .mapping [("enabled", .bool e.enabled),
    ("initial_delay", .optional Span.compact e.initialDelay),
    ("fixed_delay", .optional Span.compact e.fixedDelay)]

/-- The metrics section. -/
def Metrics.compact (m : Metrics) : Compact :=
  .mapping [("enabled", .bool m.enabled), ("listen", .optional Address.compact m.listen)]

/-- The shutdown section. -/
def Shutdown.compact (s : Shutdown) : Compact :=
  .mapping [("timeout", .optional Span.compact s.timeout)]

namespace Settings

/-- All sections. -/
def sections (s : Settings) : Compact :=
  .mapping [("env", .quoted s.env), ("logs", .optional Logs.compact s.logs),
    ("eviction", .optional Eviction.compact s.eviction),
    ("metrics", .optional Metrics.compact s.metrics),
    ("shutdown", .optional Shutdown.compact s.shutdown)]

/-- All settings. -/
def compact (s : Settings) : Compact := .mapping [("app", s.sections)]

/-- The JSON text of settings is that of their document. -/
theorem json_eq (s : Settings) : s.json = String.ofList s.compact.text := by
  have hlogs : Logs.json = fun l => l.compact.text := by
    funext l
    simp only [Logs.compact, Compact.text_mapping, List.map, Compact.text_optional]
    rfl
  have heviction : Eviction.json = fun e => e.compact.text := by
    funext e
    simp only [Eviction.compact, Compact.text_mapping, List.map, Compact.text_optional,
      Compact.text_bool]
    rfl
  have hmetrics : Metrics.json = fun m => m.compact.text := by
    funext m
    simp only [Metrics.compact, Compact.text_mapping, List.map, Compact.text_optional,
      Compact.text_bool]
    rfl
  have hshutdown : Shutdown.json = fun m => m.compact.text := by
    funext m
    simp only [Shutdown.compact, Compact.text_mapping, List.map, Compact.text_optional]
    rfl
  unfold json compact sections
  simp only [Compact.text_mapping, List.map, Compact.text_optional, hlogs, heviction, hmetrics,
    hshutdown]
  rfl

/-- Settings fit if the texts in them do that are theirs to choose. -/
theorem fits_compact {s : Settings} (henv : Printable s.env.toList)
    (hlevel : ∀ level ∈ s.level?, Printable level.toList) : s.compact.Fits := by
  have hspan (o : Option Span) : (Compact.optional Span.compact o).Fits :=
    Compact.fits_optional fun s _ => .quoted s.printable_text
  have hlisten (o : Option Address) : (Compact.optional Address.compact o).Fits :=
    Compact.fits_optional fun a _ => .quoted a.printable_text
  have hlogs : ∀ l ∈ s.logs, l.compact.Fits := by
    intro l hl
    have hl' : s.level? = l.level := congrArg (Option.bind · Logs.level) hl
    apply Compact.fits_cons (by decide) _ Compact.fits_nil
    apply Compact.fits_optional
    intro level hmem
    exact .quoted (hlevel level (hl' ▸ hmem))
  have heviction (e : Eviction) : e.compact.Fits := by
    apply Compact.fits_cons (by decide) (Compact.fits_bool e.enabled)
    apply Compact.fits_cons (by decide) (hspan e.initialDelay)
    exact Compact.fits_cons (by decide) (hspan e.fixedDelay) Compact.fits_nil
  have hmetrics (m : Metrics) : m.compact.Fits := by
    apply Compact.fits_cons (by decide) (Compact.fits_bool m.enabled)
    exact Compact.fits_cons (by decide) (hlisten m.listen) Compact.fits_nil
  have hshutdown (t : Shutdown) : t.compact.Fits :=
    Compact.fits_cons (by decide) (hspan t.timeout) Compact.fits_nil
  refine Compact.fits_cons (by decide) ?_ Compact.fits_nil
  apply Compact.fits_cons (by decide) (.quoted henv)
  apply Compact.fits_cons (by decide) (Compact.fits_optional hlogs)
  apply Compact.fits_cons (by decide) (Compact.fits_optional fun e _ => heviction e)
  apply Compact.fits_cons (by decide) (Compact.fits_optional fun m _ => hmetrics m)
  apply Compact.fits_cons (by decide) (Compact.fits_optional fun t _ => hshutdown t)
  exact Compact.fits_nil

end Settings

end CacheWarden
