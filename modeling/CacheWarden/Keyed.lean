/-!
Values by name, in the order of the names and each name once.

Putting a value sets what its name has (`get?_put_self`) and nothing else
(`get?_put_of_ne`).
-/

namespace CacheWarden.Keyed

variable {α : Type}

/-- Puts a value: in its place by name, over an earlier one of that name. -/
def put (name : String) (value : α) : List (String × α) → List (String × α)
  | [] => [(name, value)]
  | f :: rest =>
    if name < f.1 then (name, value) :: f :: rest
    else if f.1 < name then f :: put name value rest
    else (name, value) :: rest

/-- The values put one after another. -/
def ofList (fields : List (String × α)) : List (String × α) :=
  fields.foldl (fun acc f => put f.1 f.2 acc) []

/-- The value of a name. -/
def get? (name : String) (fields : List (String × α)) : Option α :=
  (fields.find? (·.1 == name)).map (·.2)

/-- A name has the value that was put under it. -/
theorem get?_put_self (name : String) (value : α) (fields : List (String × α)) :
    get? name (put name value fields) = some value := by
  induction fields with
  | nil => simp [put, get?]
  | cons f rest ih =>
    unfold put
    split
    · simp [get?]
    · split
      · rename_i h
        have hne : f.1 ≠ name := fun e => by rw [e] at h; exact String.lt_irrefl _ h
        simpa [get?, hne] using ih
      · simp [get?]

/-- Another name keeps its value. -/
theorem get?_put_of_ne {name other : String} (h : other ≠ name) (value : α)
    (fields : List (String × α)) : get? other (put name value fields) = get? other fields := by
  have h' : name ≠ other := Ne.symm h
  induction fields with
  | nil => simp [put, get?, h']
  | cons f rest ih =>
    unfold put
    split
    · simp [get?, h']
    · split
      · by_cases hf : f.1 = other
        · simp [get?, hf]
        · simpa [get?, hf] using ih
      · rename_i h1 h2
        have hf : f.1 = name :=
          String.le_antisymm (String.not_lt.mp h1) (String.not_lt.mp h2)
        have hf' : f.1 ≠ other := fun e => h' (hf ▸ e)
        simp [get?, h', hf']

end CacheWarden.Keyed
