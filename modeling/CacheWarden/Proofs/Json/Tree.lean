import CacheWarden.Json.Value
import CacheWarden.Proofs.Json.Grammar
/-!
Values as trees.

`Value.nesting` counts how many lists and objects stand inside one another, and
`Throughout p` says that `p` holds of a value and of all values inside it.  What the
grammar writes with a depth nests no deeper (`nesting_le_of_written`), and its objects
have their names in order (`inOrder_of_written`).
-/

namespace CacheWarden.Json

/-- The values directly inside a value. -/
def Value.children : Value → List Value
  | .list items => items
  | .object fields => fields.map (·.2)
  | _ => []

/-- Something holds of a value and of every value inside it. -/
inductive Throughout (p : Value → Prop) : Value → Prop
  | mk {v : Value} : p v → (∀ w ∈ v.children, Throughout p w) → Throughout p v

/-- If it is an object, its names are distinct and in order. -/
def InOrder (v : Value) : Prop := ∀ fields, v = .object fields → Keyed.Sorted fields

/-- If it is a number, it is an integer of 64 bits. -/
def IsWhole (v : Value) : Prop := ∀ n, v = .number n → ∃ i, n = .int i ∧ IsWord i

mutual

/-- How many lists and objects stand inside one another. -/
def Value.nesting : Value → Nat
  | .null => 0
  | .bool _ => 0
  | .number _ => 0
  | .string _ => 0
  | .list items => itemsNesting items + 1
  | .object fields => fieldsNesting fields + 1

/-- The deepest nesting in some values. -/
def itemsNesting : List Value → Nat
  | [] => 0
  | v :: vs => max v.nesting (itemsNesting vs)

/-- The deepest nesting in some fields. -/
def fieldsNesting : List (String × Value) → Nat
  | [] => 0
  | (_, v) :: fs => max v.nesting (fieldsNesting fs)

end

/-! ### Nesting by the values inside -/

theorem itemsNesting_le_iff {n : Nat} {vs : List Value} :
    itemsNesting vs ≤ n ↔ ∀ v ∈ vs, v.nesting ≤ n := by
  induction vs with
  | nil => simp [itemsNesting]
  | cons v vs ih => rw [itemsNesting, Nat.max_le, ih, List.forall_mem_cons]

theorem fieldsNesting_le_iff {n : Nat} {fs : List (String × Value)} :
    fieldsNesting fs ≤ n ↔ ∀ f ∈ fs, f.2.nesting ≤ n := by
  induction fs with
  | nil => simp [fieldsNesting]
  | cons f fs ih => rw [fieldsNesting, Nat.max_le, ih, List.forall_mem_cons]

/-- A value nests one level deeper than the values inside it. -/
theorem nesting_le_succ {n : Nat} {v : Value} (h : ∀ w ∈ v.children, w.nesting ≤ n) :
    v.nesting ≤ n + 1 := by
  cases v with
  | list items =>
    rw [Value.nesting]
    exact Nat.succ_le_succ (itemsNesting_le_iff.mpr h)
  | object fields =>
    rw [Value.nesting]
    refine Nat.succ_le_succ (fieldsNesting_le_iff.mpr ?_)
    intro f hf
    exact h f.2 (List.mem_map_of_mem hf)
  | _ => exact Nat.zero_le _

/-! ### Two things throughout -/

theorem Throughout.here {p : Value → Prop} {v : Value} (h : Throughout p v) : p v := by
  cases h with
  | mk hv _ => exact hv

theorem Throughout.inside {p : Value → Prop} {v w : Value} (h : Throughout p v)
    (hw : w ∈ v.children) : Throughout p w := by
  cases h with
  | mk _ hinside => exact hinside w hw

theorem Throughout.and {p q : Value → Prop} {v : Value} (hp : Throughout p v)
    (hq : Throughout q v) : Throughout (fun w => p w ∧ q w) v := by
  induction hp with
  | mk hv _ ih => exact .mk ⟨hv, hq.here⟩ fun w hw => ih w hw (hq.inside hw)

/-! ### Values of the grammar -/

variable {number : List UInt8 → Number → Prop} {bs : List UInt8} {v : Value}

theorem children_of_scalar (h : Scalar number bs v) : v.children = [] := by
  cases h <;> rfl

theorem nesting_of_scalar (h : Scalar number bs v) : v.nesting = 0 := by
  cases h <;> rfl

theorem inOrder_of_scalar (h : Scalar number bs v) : InOrder v := by
  cases h <;> exact fun _ h => by cases h

theorem Items.mem {α : Type} {item : List UInt8 → α → Prop} {xs : List α} {x : α}
    (h : Items item bs xs) (hx : x ∈ xs) : ∃ text, item text x := by
  induction h with
  | last _ hy _ =>
    obtain rfl := List.mem_singleton.mp hx
    exact ⟨_, hy⟩
  | more _ hy _ _ ih =>
    rcases List.mem_cons.mp hx with rfl | hx
    · exact ⟨_, hy⟩
    · exact ih hx

/-- What is inside a list or an object is an item of it. -/
theorem Nested.mem {item : List UInt8 → Value → Prop} {w : Value} (h : Nested item bs v)
    (hw : w ∈ v.children) : ∃ text, item text w := by
  cases h with
  | emptyList => cases hw
  | list hvs => exact hvs.mem hw
  | emptyObject => cases hw
  | object hfs hm =>
    obtain ⟨f, hf, rfl⟩ := List.mem_map.mp hw
    obtain ⟨text, hfield⟩ := hfs.mem (hm.mem hf)
    cases hfield with
    | mk _ _ _ hitem => exact ⟨_, hitem⟩

theorem Nested.inOrder {item : List UInt8 → Value → Prop} (h : Nested item bs v) : InOrder v := by
  intro fields hv
  cases h with
  | emptyList => cases hv
  | list => cases hv
  | emptyObject =>
    cases hv
    exact List.Pairwise.nil
  | object _ hm =>
    cases hv
    exact hm.sorted

/-- What is written with a depth nests no deeper. -/
theorem nesting_le_of_written {depth : Nat} (h : Written number depth bs v) :
    v.nesting ≤ depth := by
  induction depth generalizing bs v with
  | zero => exact Nat.le_of_eq (nesting_of_scalar h)
  | succ depth ih =>
    rcases h with h | h
    · rw [nesting_of_scalar h]
      exact Nat.zero_le _
    · apply nesting_le_succ
      intro w hw
      obtain ⟨text, hitem⟩ := h.mem hw
      exact ih hitem

/-- What is written has the names of its objects in order. -/
theorem inOrder_of_written {depth : Nat} (h : Written number depth bs v) :
    Throughout InOrder v := by
  have hscalar {bs : List UInt8} {v : Value} (h : Scalar number bs v) : Throughout InOrder v := by
    refine .mk (inOrder_of_scalar h) ?_
    rw [children_of_scalar h]
    exact fun _ hw => absurd hw List.not_mem_nil
  induction depth generalizing bs v with
  | zero => exact hscalar h
  | succ depth ih =>
    rcases h with h | h
    · exact hscalar h
    · refine .mk h.inOrder ?_
      intro w hw
      obtain ⟨text, hitem⟩ := h.mem hw
      exact ih hitem

end CacheWarden.Json
