import CacheWarden.Proofs.Json.Byte
import CacheWarden.Settings.Decode
import Mathlib
/-!
What documents hold, and what readers make of it.

A mapping holds a value under a name, with aliases followed on the way (`Holds`).  A reader of
fields keeps the value of each field that it knows (`Decode.Keeps`): it stores what it reads of
this one, and leaves that where it reads another.  As known fields come once, what is stored
in the end is from the mapping (`Keeps.exists_of_ne`), and what the mapping holds is stored
(`Keeps.value_of_holds`).  A section that was read was read by such readers
(`exists_of_eviction`, `exists_of_sections`).
-/

namespace CacheWarden

open Yaml (Node)

/-! ### What a document holds -/

namespace Yaml.Document

/-- A node leads to another one: it is that, or an alias of a node that leads there. -/
inductive Leads (d : Document) : Node → Node → Prop
  | here (node : Node) : Leads d node node
  | through {mark : Mark} {n : Nat} {named node : Node} (target : d.target? n = some named)
      (leads : Leads d named node) : Leads d (.alias mark n) node

variable (d : Document)

/-- A mapping holds a value under a name. -/
def Holds (node : Node) (name : String) (value : Node) : Prop :=
  ∃ mark es key keyMark tag style, d.Leads node (.mapping mark es) ∧ (key, value) ∈ es ∧
    d.Leads key (.scalar keyMark tag name style)

end Yaml.Document

namespace Decode

variable {d : Yaml.Document} {path : List String} {outer : Site} {node : Node}

/-! ### Nodes that were read -/

/-- A node leads where the one that it stands for does, unless an alias names nothing. -/
theorem leads_of_follow {x : Node} (h : d.Leads (follow d node) x)
    (hx : ∀ mark, x ≠ Yaml.emptyNode mark) : d.Leads node x := by
  cases node with
  | scalar _ _ _ _ | sequence _ _ | mapping _ _ => exact h
  | «alias» mark n =>
    rw [follow] at h
    rcases ht : d.target? n with - | named
    · rw [ht] at h
      cases h
      exact absurd rfl (hx mark)
    · rw [ht] at h
      exact .through ht h

theorem leads_mapping {mark : Yaml.Mark} {es : List (Node × Node)}
    (h : follow d node = .mapping mark es) : d.Leads node (.mapping mark es) :=
  leads_of_follow (h ▸ .here _) nofun

theorem leads_scalar {mark : Yaml.Mark} {tag : Option String} {text : String} {style : Yaml.Style}
    (h : follow d node = .scalar mark tag text style) (htext : text ≠ "") :
    d.Leads node (.scalar mark tag text style) := by
  refine leads_of_follow (h ▸ .here _) ?_
  rintro _ ⟨⟩
  exact htext rfl

theorem misfit_ne_ok {α : Type} {expected : String} {a : α} :
    misfit node expected path ≠ .ok a := by
  unfold misfit
  cases node with
  | scalar _ tag text style =>
    dsimp only
    split <;> nofun
  | sequence _ _ | mapping _ _ | «alias» _ _ => nofun

theorem follow_of_string {expected text : String} {site : Site}
    (h : string d expected path node = .ok (text, site)) :
    ∃ mark tag style, follow d node = .scalar mark tag text style := by
  unfold string at h
  split at h
  · rename_i heq
    cases h
    exact ⟨_, _, _, heq⟩
  · exact absurd h misfit_ne_ok

/-- A node stands for one that leads wherever it leads itself. -/
theorem leads_follow {x : Node} (h : d.Leads node x) (hx : ∀ mark n, x ≠ .alias mark n) :
    d.Leads (follow d node) x := by
  cases h with
  | here =>
    cases node with
    | scalar _ _ _ _ | sequence _ _ | mapping _ _ => exact .here _
    | «alias» mark n => exact absurd rfl (hx mark n)
  | through target leads =>
    rw [follow, target]
    exact leads

/-- A node that stands for no alias stands for the one that it leads to. -/
theorem follow_of_leads {x : Node} (h : d.Leads node x) (hx : ∀ mark n, x ≠ .alias mark n)
    (hfollow : ∀ mark n, follow d node ≠ .alias mark n) : follow d node = x := by
  have hleads := leads_follow h hx
  generalize follow d node = y at hleads hfollow
  cases hleads with
  | here => rfl
  | through target leads => exact absurd rfl (hfollow _ _)

/-- A value that was found is one that was read. -/
theorem ok_of_map {α : Type} {x : Result α} {a : α} (h : some <$> x = .ok (some a)) :
    x = .ok a := by
  cases x with
  | error e => cases h
  | ok b =>
    cases h
    rfl

theorem map_ne_none {α : Type} {x : Result α} : some <$> x ≠ .ok none := by
  cases x with
  | error e => nofun
  | ok a => nofun

theorem read_of_optional {α : Type} {read : Node → Result α} {a : α}
    (h : optional d outer read node = .ok (some a)) : read (follow d node) = .ok a := by
  obtain ⟨present, -, hread⟩ := exists_of_bind_ok h
  cases present with
  | false => cases hread
  | true => exact ok_of_map hread

theorem eq_of_require {α : Type} {name : String} {o : Option α} {a : α}
    (h : require outer name o = .ok a) : o = some a := by
  cases o with
  | none => cases h
  | some b =>
    cases h
    rfl

/-! ### Fields that were read -/

/-- Entries stand in a mapping. -/
theorem leads_of_entries {expected : String} {es : List (Node × Node)}
    (h : entries d expected path node = .ok (outer, es)) {e : Node × Node} (mem : e ∈ es) :
    ∃ mark, d.Leads node (.mapping mark es) := by
  unfold entries at h
  split at h
  · rename_i heq
    cases h
    exact ⟨_, leads_mapping heq⟩
  · split at h
    · cases h
      cases mem
    · exact absurd h misfit_ne_ok
  · exact absurd h misfit_ne_ok

/-- The entries that were read are those of the mapping that the node leads to. -/
theorem entries_of_leads {expected : String} {es es' : List (Node × Node)} {mark : Yaml.Mark}
    (h : entries d expected path node = .ok (outer, es))
    (hleads : d.Leads node (.mapping mark es')) : es = es' := by
  have hfollow : follow d node = .mapping mark es' := by
    refine follow_of_leads hleads nofun fun mark' n halias => ?_
    rw [entries, halias] at h
    exact misfit_ne_ok h
  rw [entries, hfollow] at h
  cases h
  rfl

/-- The name of a field is the text of what its key stands for. -/
theorem follow_of_fieldName {key : Node} {name step : String}
    (h : fieldName d outer key = .ok (name, step)) :
    ∃ mark tag style, follow d key = .scalar mark tag name style := by
  obtain ⟨⟨text, site⟩, hstring, hsame⟩ := exists_of_bind_ok h
  obtain ⟨mark, tag, style, hkey⟩ := follow_of_string hstring
  obtain rfl : text = name := by
    cases key <;> cases hsame <;> rfl
  exact ⟨mark, tag, style, hkey⟩

/-- A value stands under a name among some entries. -/
def Among (d : Yaml.Document) (es : List (Node × Node)) (name : String) (v : Node) : Prop :=
  ∃ key mark tag style, (key, v) ∈ es ∧ d.Leads key (.scalar mark tag name style)

section

variable {α β : Type} {known seen : List String} {read : Field → α → Result α} {a b : α}
  {es : List (Node × Node)} {key v : Node} {name : String}

theorem Among.cons (h : Among d es name v) (e : Node × Node) : Among d (e :: es) name v := by
  obtain ⟨key, mark, tag, style, hmem, hkey⟩ := h
  exact ⟨key, mark, tag, style, List.mem_cons_of_mem e hmem, hkey⟩

/-- What becomes of the first of some entries: it is skipped, or read under a name that did not come
before. -/
theorem cases_of_fields (h : fields d outer known read seen a ((key, v) :: es) = .ok b) :
    ∃ name mark tag style, follow d key = .scalar mark tag name style ∧
      (name ∉ known ∧ fields d outer known read seen a es = .ok b ∨
        name ∈ known ∧ name ∉ seen ∧ ∃ path a', read ⟨name, path, v⟩ a = .ok a' ∧
          fields d outer known read (name :: seen) a' es = .ok b) := by
  rw [fields] at h
  obtain ⟨⟨name, last⟩, hname, hrest⟩ := exists_of_bind_ok h
  obtain ⟨mark, tag, style, hkey⟩ := follow_of_fieldName hname
  refine ⟨name, mark, tag, style, hkey, ?_⟩
  dsimp only at hrest
  split at hrest
  · rename_i hknown
    split at hrest
    · cases hrest
    · rename_i hseen
      obtain ⟨a', hread, hfields⟩ := exists_of_bind_ok hrest
      exact .inr ⟨List.contains_iff_mem.mp hknown, mt List.contains_iff_mem.mpr hseen, _, a', hread,
        hfields⟩
  · rename_i hknown
    exact .inl ⟨mt List.contains_iff_mem.mpr hknown, hrest⟩

/-- A reader of fields keeps the value of a field: it stores what is read of this field, and leaves
that where it reads another. -/
structure Keeps (known : List String) (read : Field → α → Result α) (name : String)
    (value : List String → Node → Result β) (get : α → β) : Prop where
  here : ∀ f a b, f.name = name → read f a = .ok b → value f.path f.value = .ok (get b)
  other : ∀ f a b, f.name ∈ known → f.name ≠ name → read f a = .ok b → get b = get a

namespace Keeps

variable {value : List String → Node → Result β} {get : α → β}
  (h : Keeps known read name value get)

include h

/-- A value that was not there at first is that of an entry. -/
theorem exists_of_fields (hfields : fields d outer known read seen a es = .ok b)
    (named : "" ∉ known) (hne : get b ≠ get a) :
    ∃ v path, Among d es name v ∧ value path v = .ok (get b) := by
  induction es generalizing seen a with
  | nil =>
    cases hfields
    exact absurd rfl hne
  | cons e es ih =>
    obtain ⟨key, v⟩ := e
    have hlater {a : α} {seen : List String}
        (hfields : fields d outer known read seen a es = .ok b) (hne : get b ≠ get a) :
        ∃ v' path, Among d ((key, v) :: es) name v' ∧ value path v' = .ok (get b) := by
      obtain ⟨v', path, hamong, hvalue⟩ := ih hfields hne
      exact ⟨v', path, hamong.cons (key, v), hvalue⟩
    obtain ⟨name', mark, tag, style, hkey, ⟨-, hrest⟩ | ⟨hknown, -, path, a', hread, hrest⟩⟩ :=
      cases_of_fields hfields
    · exact hlater hrest hne
    · by_cases hsame : get b = get a'
      · -- the value is the one that was read just now
        obtain rfl : name' = name := by
          by_contra hother
          exact hne (hsame.trans (h.other _ _ _ hknown hother hread))
        have hleads := leads_scalar hkey fun hempty => named (hempty ▸ hknown)
        rw [hsame]
        exact ⟨v, path, ⟨key, mark, tag, style, List.mem_cons_self, hleads⟩, h.here _ _ _ rfl hread⟩
      · exact hlater hrest hsame

/-- A field that came before is not read again. -/
theorem get_of_seen (hfields : fields d outer known read seen a es = .ok b) (hseen : name ∈ seen) :
    get b = get a := by
  induction es generalizing seen a with
  | nil =>
    cases hfields
    rfl
  | cons e es ih =>
    obtain ⟨name', mark, tag, style, -, ⟨-, hrest⟩ | ⟨hknown, hnew, path, a', hread, hrest⟩⟩ :=
      cases_of_fields hfields
    · exact ih hrest hseen
    · have hother : name' ≠ name := fun heq => hnew (heq ▸ hseen)
      rw [ih hrest (List.mem_cons_of_mem _ hseen), h.other _ _ _ hknown hother hread]

/-- The value under the name is kept in the end. -/
theorem value_of_among (hfields : fields d outer known read seen a es = .ok b)
    (hknown : name ∈ known) (hamong : Among d es name v) : ∃ path, value path v = .ok (get b) := by
  induction es generalizing seen a with
  | nil =>
    obtain ⟨key, mark, tag, style, hmem, -⟩ := hamong
    cases hmem
  | cons e es ih =>
    obtain ⟨key, mark, tag, style, hmem, hleads⟩ := hamong
    rcases List.mem_cons.mp hmem with rfl | hmem
    · obtain ⟨name', mark', tag', style', hkey, hrest⟩ := cases_of_fields hfields
      have hfollow := follow_of_leads hleads nofun (by rw [hkey]; nofun)
      rw [hkey] at hfollow
      cases hfollow
      rcases hrest with ⟨hunknown, -⟩ | ⟨-, -, path, a', hread, hrest⟩
      · exact absurd hknown hunknown
      · rw [h.get_of_seen hrest List.mem_cons_self]
        exact ⟨path, h.here _ _ _ rfl hread⟩
    · have hlater : Among d es name v := ⟨key, mark, tag, style, hmem, hleads⟩
      obtain ⟨name', mark', tag', style', -, ⟨-, hrest⟩ | ⟨-, -, path, a', -, hrest⟩⟩ :=
        cases_of_fields hfields
      · exact ih hrest hlater
      · exact ih hrest hlater

variable {expected : String}

/-- A value that was not there at first is one that the mapping holds. -/
theorem exists_of_ne (hentries : entries d expected path node = .ok (outer, es))
    (hfields : fields d outer known read [] a es = .ok b) (named : "" ∉ known)
    (hne : get b ≠ get a) : ∃ v path, d.Holds node name v ∧ value path v = .ok (get b) := by
  obtain ⟨v, vpath, ⟨key, mark, tag, style, hmem, hkey⟩, hvalue⟩ :=
    h.exists_of_fields hfields named hne
  obtain ⟨nodeMark, hnode⟩ := leads_of_entries hentries hmem
  exact ⟨v, vpath, ⟨nodeMark, es, key, mark, tag, style, hnode, hmem, hkey⟩, hvalue⟩

/-- A value that the mapping holds is there in the end. -/
theorem value_of_holds (hentries : entries d expected path node = .ok (outer, es))
    (hfields : fields d outer known read [] a es = .ok b) (hknown : name ∈ known)
    (hholds : d.Holds node name v) : ∃ path, value path v = .ok (get b) := by
  obtain ⟨mark, es', key, keyMark, tag, style, hnode, hmem, hkey⟩ := hholds
  obtain rfl := entries_of_leads hentries hnode
  exact h.value_of_among hfields hknown ⟨key, keyMark, tag, style, hmem, hkey⟩

end Keeps

end

/-! ### Readers of fields -/

/-- A value that is stored was read. -/
theorem exists_of_stored {α β : Type} {x : Result α} {store : α → β} {b : β}
    (h : (do return store (← x)) = Except.ok b) : ∃ a, x = .ok a ∧ b = store a := by
  obtain ⟨a, ha, hstore⟩ := exists_of_bind_ok h
  cases hstore
  exact ⟨a, ha, rfl⟩

theorem keeps_enabled : Keeps ["enabled", "initial_delay", "fixed_delay"] (evictionField d outer)
    "enabled" (fun path node => some <$> bool d path node) (·.enabled) where
  here f a b hname h := by
    rw [evictionField, if_pos hname] at h
    obtain ⟨x, hx, rfl⟩ := exists_of_stored h
    show some <$> bool d f.path f.value = .ok (some x)
    rw [hx]
    rfl
  other f a b _ hname h := by
    rw [evictionField, if_neg hname] at h
    split at h
    all_goals
      obtain ⟨x, -, rfl⟩ := exists_of_stored h
      rfl

theorem keeps_initialDelay : Keeps ["enabled", "initial_delay", "fixed_delay"]
    (evictionField d outer) "initial_delay" (fun path => optional d outer (span d path))
    (·.initialDelay) where
  here f a b hname h := by
    rw [evictionField, hname, if_neg (by simp), if_pos rfl] at h
    obtain ⟨x, hx, rfl⟩ := exists_of_stored h
    exact hx
  other f a b _ hname h := by
    rw [evictionField, if_neg hname] at h
    split at h
    all_goals
      obtain ⟨x, -, rfl⟩ := exists_of_stored h
      rfl

theorem keeps_fixedDelay : Keeps ["enabled", "initial_delay", "fixed_delay"]
    (evictionField d outer) "fixed_delay" (fun path => optional d outer (span d path))
    (·.fixedDelay) where
  here f a b hname h := by
    rw [evictionField, hname, if_neg (by simp), if_neg (by simp)] at h
    obtain ⟨x, hx, rfl⟩ := exists_of_stored h
    exact hx
  other f a b hknown hname h := by
    have hother : f.name = "enabled" ∨ f.name = "initial_delay" := by simpa [hname] using hknown
    unfold evictionField at h
    rcases hother with hother | hother
    all_goals
      simp only [hother, String.reduceEq, if_true, if_false] at h
      obtain ⟨x, -, rfl⟩ := exists_of_stored h
      rfl

theorem keeps_timeout : Keeps ["timeout"]
    (fun f (_ : Shutdown) => do return ⟨← optional d outer (span d f.path) f.value⟩) "timeout"
    (fun path => optional d outer (span d path)) (·.timeout) where
  here f a b _ h := by
    obtain ⟨x, hx, rfl⟩ := exists_of_stored h
    exact hx
  other f a b hknown hname _ := absurd (List.mem_singleton.mp hknown) hname

theorem keeps_eviction : Keeps ["env", "logs", "eviction", "metrics", "shutdown"]
    (appField d outer) "eviction" (fun path => optional d outer (eviction d path))
    (·.eviction) where
  here f a b hname h := by
    rw [appField, hname, if_neg (by simp), if_neg (by simp), if_pos rfl] at h
    obtain ⟨x, hx, rfl⟩ := exists_of_stored h
    exact hx
  other f a b _ hname h := by
    unfold appField at h
    rw [if_neg hname] at h
    split_ifs at h
    all_goals
      obtain ⟨x, -, rfl⟩ := exists_of_stored h
      rfl

theorem keeps_shutdown : Keeps ["env", "logs", "eviction", "metrics", "shutdown"]
    (appField d outer) "shutdown" (fun path => optional d outer (shutdown d path))
    (·.shutdown) where
  here f a b hname h := by
    rw [appField, hname, if_neg (by simp), if_neg (by simp), if_neg (by simp),
      if_neg (by simp)] at h
    obtain ⟨x, hx, rfl⟩ := exists_of_stored h
    exact hx
  other f a b hknown hname h := by
    have hother : f.name = "env" ∨ f.name = "logs" ∨ f.name = "eviction" ∨ f.name = "metrics" := by
      simpa [hname] using hknown
    unfold appField at h
    rcases hother with hother | hother | hother | hother
    all_goals
      simp only [hother, String.reduceEq, if_true, if_false] at h
      obtain ⟨x, -, rfl⟩ := exists_of_stored h
      rfl

theorem keeps_app : Keeps ["app"]
    (fun f (_ : Option Settings) => do return some (← sections d f.path f.value)) "app"
    (fun path node => some <$> sections d path node) id where
  here f a b _ h := by
    obtain ⟨x, hx, rfl⟩ := exists_of_stored h
    show some <$> sections d f.path f.value = .ok (some x)
    rw [hx]
    rfl
  other f a b hknown hname _ := absurd (List.mem_singleton.mp hknown) hname

/-! ### Sections that were read -/

/-- A section of eviction was read field by field. -/
theorem exists_of_eviction {e : Eviction} (h : eviction d path node = .ok e) :
    ∃ outer es, entries d "struct Eviction" path node = .ok (outer, es) ∧
      fields d outer ["enabled", "initial_delay", "fixed_delay"] (evictionField d outer) []
        ⟨none, none, none⟩ es = .ok ⟨some e.enabled, e.initialDelay, e.fixedDelay⟩ := by
  obtain ⟨⟨outer, es⟩, hentries, hrest⟩ := exists_of_bind_ok h
  obtain ⟨⟨o, initial, fixed⟩, hfields, hlast⟩ := exists_of_bind_ok hrest
  obtain ⟨enabled, hrequire, rfl⟩ := exists_of_stored hlast
  obtain rfl : o = some enabled := eq_of_require hrequire
  exact ⟨outer, es, hentries, hfields⟩

/-- So were all the sections. -/
theorem exists_of_sections {s : Settings} (h : sections d path node = .ok s) :
    ∃ outer es, entries d "struct AppBox" path node = .ok (outer, es) ∧
      fields d outer ["env", "logs", "eviction", "metrics", "shutdown"] (appField d outer) []
        ⟨none, none, none, none, none⟩ es =
          .ok ⟨some s.env, s.logs, s.eviction, s.metrics, s.shutdown⟩ := by
  obtain ⟨⟨outer, es⟩, hentries, hrest⟩ := exists_of_bind_ok h
  obtain ⟨⟨o, logs, eviction, metrics, shutdown⟩, hfields, hlast⟩ := exists_of_bind_ok hrest
  obtain ⟨env, hrequire, rfl⟩ := exists_of_stored hlast
  obtain rfl : o = some env := eq_of_require hrequire
  exact ⟨outer, es, hentries, hfields⟩

/-- And so was the document. -/
theorem exists_of_ofDocument {s : Settings} (h : Settings.ofDocument d = .ok s) :
    ∃ outer es, entries d "struct FeedCache" [] d.root = .ok (outer, es) ∧
      fields d outer ["app"]
        (fun f (_ : Option Settings) => do return some (← sections d f.path f.value)) [] none es =
          .ok (some s) := by
  obtain ⟨⟨outer, es⟩, hentries, hrest⟩ := exists_of_bind_ok h
  obtain ⟨o, hfields, hlast⟩ := exists_of_bind_ok hrest
  obtain rfl : o = some s := eq_of_require hlast
  exact ⟨outer, es, hentries, hfields⟩

end Decode

end CacheWarden
