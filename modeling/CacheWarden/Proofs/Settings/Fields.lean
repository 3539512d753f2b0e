import CacheWarden.Settings.Decode
import Mathlib
/-!
Fields in any order.

Fields are read in the order of the document, each into what is known so far.  If each known
field comes at most once, and fields of different names can be read in either order
(`Commutes`), then what is read is the same for all mappings that hold the same
values under the known names, whatever else they hold (`toOption_fields_eq`): reading folds
over the names that are there, and the names of one mapping are those of the other in another
order.
-/

namespace CacheWarden.Decode

open Yaml (Node)

/-! ### Names and values -/

/-- A key that is a name: a scalar without a tag. -/
def IsName (key : Node) : Prop := ∃ mark text style, key = .scalar mark none text style

/-- The name that a key is. -/
def nameOf : Node → String
  | .scalar _ _ text _ => text
  | .sequence _ _ | .mapping _ _ | .alias _ _ => ""

/-- The values under a name. -/
def values (name : String) (es : List (Node × Node)) : List Node :=
  (es.filter (nameOf ·.1 = name)).map (·.2)

/-- No value under a name on either side, or one on each. -/
inductive SameField (same : Node → Node → Prop) : List Node → List Node → Prop
  | absent : SameField same [] []
  | once {v w : Node} : same v w → SameField same [v] [w]

/-- Entries under names, of which the known ones are the same, each there at most once. -/
structure SameFields (known : List String) (same : String → Node → Node → Prop)
    (es es' : List (Node × Node)) : Prop where
  names : ∀ e ∈ es, IsName e.1
  names' : ∀ e ∈ es', IsName e.1
  fields : ∀ name ∈ known, SameField (same name) (values name es) (values name es')

/-- Fields of different names can be read in either order. -/
def Commutes {α : Type} (known : List String) (read : Field → α → Result α) : Prop :=
  ∀ f g a, f.name ∈ known → g.name ∈ known → f.name ≠ g.name →
    ((read f a).toOption.bind fun b => (read g b).toOption)
      = (read g a).toOption.bind fun b => (read f b).toOption

section

variable {α : Type} {d : Yaml.Document} {outer : Site} {known : List String}
  {read : Field → α → Result α}

/-! ### Reading as a fold -/

/-- The known fields among some entries. -/
def knownFields (outer : Site) (known : List String) (es : List (Node × Node)) : List Field :=
  (es.filter (known.contains <| nameOf ·.1)).map fun e =>
    ⟨nameOf e.1, outer.path ++ [nameOf e.1], e.2⟩

/-- Reads one more field, if nothing failed so far. -/
def readNext (read : Field → α → Result α) (o : Option α) (f : Field) : Option α :=
  o.bind fun a => (read f a).toOption

theorem foldl_readNext_none (fs : List Field) : fs.foldl (readNext read) none = none := by
  induction fs with
  | nil => rfl
  | cons f fs ih => exact ih

theorem fieldName_of_isName {key : Node} (h : IsName key) :
    fieldName d outer key = .ok (nameOf key, nameOf key) := by
  obtain ⟨mark, text, style, rfl⟩ := h
  rfl

/-- Known fields that come at most once are read one after another. -/
theorem toOption_fields {es : List (Node × Node)} {seen : List String} {a : α}
    (hnames : ∀ e ∈ es, IsName e.1)
    (honce : ((knownFields outer known es).map (·.name)).Nodup)
    (hseen : ∀ f ∈ knownFields outer known es, f.name ∉ seen) :
    (fields d outer known read seen a es).toOption
      = (knownFields outer known es).foldl (readNext read) (some a) := by
  induction es generalizing seen a with
  | nil => rfl
  | cons e es ih =>
    obtain ⟨key, value⟩ := e
    obtain ⟨hname, hnames⟩ := List.forall_mem_cons.mp hnames
    rw [fields, fieldName_of_isName hname]
    by_cases hknown : known.contains (nameOf key) = true
    · have hcons : knownFields outer known ((key, value) :: es)
          = ⟨nameOf key, outer.path ++ [nameOf key], value⟩ :: knownFields outer known es := by
        simp only [knownFields, List.filter_cons, hknown, if_true, List.map_cons]
      rw [hcons] at honce hseen ⊢
      obtain ⟨hnew, honce⟩ := List.nodup_cons.mp honce
      obtain ⟨hfresh, hseen⟩ := List.forall_mem_cons.mp hseen
      have hunseen : seen.contains (nameOf key) = false := by simpa using hfresh
      show (ite _ _ _ : Result α).toOption = _
      rw [if_pos hknown, hunseen, if_neg Bool.false_ne_true, List.foldl_cons]
      rcases hread : read ⟨nameOf key, outer.path ++ [nameOf key], value⟩ a with x | b
      · have hnext :
            readNext read (some a) ⟨nameOf key, outer.path ++ [nameOf key], value⟩ = none := by
          simp only [readNext, Option.bind_some, hread, Except.toOption]
        rw [hnext, foldl_readNext_none]
        rfl
      · have hnext : readNext read (some a) ⟨nameOf key, outer.path ++ [nameOf key], value⟩
            = some b := by
          simp only [readNext, Option.bind_some, hread, Except.toOption]
        rw [hnext]
        refine ih hnames honce fun f hf hmem => ?_
        rcases List.mem_cons.mp hmem with heq | hmem
        · exact hnew (List.mem_map.mpr ⟨f, hf, heq⟩)
        · exact hseen f hf hmem
    · have hskip : knownFields outer known ((key, value) :: es) = knownFields outer known es := by
        simp only [knownFields, List.filter_cons, hknown]
        rfl
      rw [hskip] at honce hseen ⊢
      show (ite _ _ _ : Result α).toOption = _
      rw [if_neg hknown]
      exact ih hnames honce hseen

/-! ### Names instead of fields -/

/-- The known names among some entries. -/
def knownNames (known : List String) (es : List (Node × Node)) : List String :=
  (es.map (nameOf ·.1)).filter (known.contains ·)

theorem map_name_knownFields (es : List (Node × Node)) :
    (knownFields outer known es).map (·.name) = knownNames known es := by
  simp [knownFields, knownNames, List.filter_map, Function.comp_def]

theorem mem_values {name : String} {value : Node} {es : List (Node × Node)} :
    value ∈ values name es ↔ ∃ key, (key, value) ∈ es ∧ nameOf key = name := by
  simp [values]

/-- A known name is there no more often than it has values. -/
theorem count_knownNames_le (name : String) (es : List (Node × Node)) :
    (knownNames known es).count name ≤ (values name es).length := by
  calc (knownNames known es).count name ≤ (es.map (nameOf ·.1)).count name :=
        List.filter_sublist.count_le name
    _ = (values name es).length := by
        simp [values, List.count, List.countP_eq_length_filter, List.filter_map,
          Function.comp_def, beq_eq_decide]

/-- The known names that are there are those with values. -/
theorem mem_knownNames {name : String} {es : List (Node × Node)} :
    name ∈ knownNames known es ↔ name ∈ known ∧ values name es ≠ [] := by
  simp [knownNames, values, and_comm]

variable {es es' : List (Node × Node)}

theorem nodup_knownNames (h : ∀ name ∈ known, (values name es).length ≤ 1) :
    (knownNames known es).Nodup := by
  refine List.nodup_iff_count_le_one.mpr fun name => ?_
  by_cases hname : name ∈ known
  · exact (count_knownNames_le name es).trans (h name hname)
  · have hnone : name ∉ knownNames known es := fun hmem => hname (mem_knownNames.mp hmem).1
    rw [List.count_eq_zero_of_not_mem hnone]
    exact Nat.zero_le 1

/-- Reads the one value under a name, if there is one and nothing failed so far. -/
def readName (read : Field → α → Result α) (outer : Site) (es : List (Node × Node))
    (o : Option α) (name : String) : Option α :=
  match values name es with
  | [value] => readNext read o ⟨name, outer.path ++ [name], value⟩
  | _ => o

/-- Known fields that come at most once are read name by name. -/
theorem toOption_fields_names {a : α} (hnames : ∀ e ∈ es, IsName e.1)
    (honce : ∀ name ∈ known, (values name es).length ≤ 1) :
    (fields d outer known read [] a es).toOption
      = (knownNames known es).foldl (readName read outer es) (some a) := by
  have hnodup : ((knownFields outer known es).map (·.name)).Nodup := by
    rw [map_name_knownFields]
    exact nodup_knownNames honce
  rw [toOption_fields hnames hnodup (fun _ _ => List.not_mem_nil), ← map_name_knownFields,
    List.foldl_map]
  refine List.foldl_ext _ _ _ fun o f hf => ?_
  -- a field is the one under its name
  obtain ⟨e, he, rfl⟩ := List.mem_map.mp hf
  obtain ⟨he, hknown⟩ := List.mem_filter.mp he
  have hvalue : e.2 ∈ values (nameOf e.1) es := mem_values.mpr ⟨e.1, he, rfl⟩
  have hone := honce _ (List.contains_iff_mem.mp hknown)
  obtain ⟨value, hvalues⟩ : ∃ value, values (nameOf e.1) es = [value] :=
    List.length_eq_one_iff.mp (Nat.le_antisymm hone (List.length_pos_of_mem hvalue))
  obtain rfl : e.2 = value := by simpa [hvalues] using hvalue
  simp only [readName, hvalues]

/-! ### Mappings with the same fields -/

theorem SameField.length_le {same : Node → Node → Prop} {vs ws : List Node}
    (h : SameField same vs ws) : vs.length ≤ 1 ∧ ws.length ≤ 1 := by
  cases h <;> simp

theorem SameField.eq_nil_iff {same : Node → Node → Prop} {vs ws : List Node}
    (h : SameField same vs ws) : vs = [] ↔ ws = [] := by
  cases h <;> simp

/-- Names can be read in either order where fields can. -/
theorem readName_comm (h : Commutes known read) {m n : String} (hm : m ∈ known) (hn : n ∈ known)
    (o : Option α) :
    readName read outer es (readName read outer es o m) n
      = readName read outer es (readName read outer es o n) m := by
  by_cases hne : m = n
  · rw [hne]
  · unfold readName
    rcases values m es with - | ⟨v, - | _⟩ <;> rcases values n es with - | ⟨w, - | _⟩ <;> try rfl
    cases o with
    | none => rfl
    | some a => exact h ⟨m, _, v⟩ ⟨n, _, w⟩ a hm hn hne

/-- What is read of the known fields of a mapping is what is read of those of another one that has
the same, in whatever order and with whatever else. -/
theorem toOption_fields_eq {d' : Yaml.Document} {outer' : Site} {read' : Field → α → Result α}
    {same : String → Node → Node → Prop} {a : α} (h : SameFields known same es es')
    (hcommutes : Commutes known read)
    (hread : ∀ name ∈ known, ∀ v w, same name v w → ∀ path path' a,
      (read ⟨name, path, v⟩ a).toOption = (read' ⟨name, path', w⟩ a).toOption) :
    (fields d outer known read [] a es).toOption
      = (fields d' outer' known read' [] a es').toOption := by
  rw [toOption_fields_names h.names fun name hname => (h.fields name hname).length_le.1,
    toOption_fields_names h.names' fun name hname => (h.fields name hname).length_le.2]
  have hperm : (knownNames known es).Perm (knownNames known es') := by
    apply (List.perm_ext_iff_of_nodup
      (nodup_knownNames fun name hname => (h.fields name hname).length_le.1)
      (nodup_knownNames fun name hname => (h.fields name hname).length_le.2)).mpr
    intro name
    rw [mem_knownNames, mem_knownNames]
    exact and_congr_right fun hname => not_congr (h.fields name hname).eq_nil_iff
  calc (knownNames known es).foldl (readName read outer es) (some a)
      = (knownNames known es').foldl (readName read outer es) (some a) :=
        hperm.foldl_eq' (fun m hm n hn o =>
          readName_comm hcommutes (mem_knownNames.mp hm).1 (mem_knownNames.mp hn).1 o) _
    _ = (knownNames known es').foldl (readName read' outer' es') (some a) := by
        refine List.foldl_ext _ _ _ fun o name hname => ?_
        have hknown := (mem_knownNames.mp hname).1
        have hfield := h.fields name hknown
        unfold readName
        generalize values name es = vs at hfield
        generalize values name es' = ws at hfield
        cases hfield with
        | absent => rfl
        | once hvalue =>
          cases o with
          | none => rfl
          | some a => exact hread name hknown _ _ hvalue _ _ a

end

end CacheWarden.Decode
