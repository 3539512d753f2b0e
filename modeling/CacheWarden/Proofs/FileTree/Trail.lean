import CacheWarden.FileTree
import Mathlib
/-!
Where a path leads, and what it leads through.

Following a path, one looks up a name in a place, and goes on, or follows a link, or stops
(`look`, `walk_cons`).  The places that are looked at make the path's trail.  Trees with the
same entries on the trail are the same to the path: it leads to the same place, or fails for
the same reason (`resolve_congr`).

A path that is followed to its end leads there by the entries of the tree alone
(`leads_of_resolve`), and nowhere else (`Leads.unique`).
-/

namespace CacheWarden.FileTree

/-! ### Looking up a name -/

/-- What comes of a name that is looked up. -/
inductive Finding where
  | stop (cause : PathFault)
  | go (place : Location)
  | link (target : String)

/-- Looks up a name in a place. -/
def look (t : FileTree) (place : Location) (name : String) : Finding :=
  if t.entry? place ≠ some .directory then .stop .notDirectory
  else if name = "." then .go place
  else if name = ".." then .go place.dropLast
  else if nameLimit < name.utf8ByteSize then .stop .nameTooLong
  else
    match t.entry? (place ++ [name]) with
    | none => .stop .notFound
    | some (.link target) => .link target
    | some _ => .go (place ++ [name])

/-- Where a link is followed from. -/
def base (place : Location) (target : String) : Location :=
  if isAbsolute target then [] else place

theorem walk_nil (t : FileTree) (links : Nat) (place : Location) :
    t.walk links place [] = .ok place := by
  simp only [walk]

/-- A path is followed name by name. -/
theorem walk_cons (t : FileTree) (links : Nat) (place : Location) (name : String)
    (rest : List String) :
    t.walk links place (name :: rest) =
      match t.look place name with
      | .stop cause => .error cause
      | .go place => t.walk links place rest
      | .link target =>
        match links with
        | 0 => .error .tooManyLinks
        | links + 1 => t.walk links (base place target) (steps target ++ rest) := by
  rw [walk]
  unfold look base
  split_ifs
  · rfl
  · rfl
  · rfl
  · rfl
  · rcases t.entry? (place ++ [name]) with - | (- | - | -) <;> rfl

theorem resolve_eq (t : FileTree) (dir : Location) (path : String) :
    t.resolve dir path =
      if path.contains '\x00' then .error .nulByte
      else if path.isEmpty then .error .notFound
      else t.walk linkLimit (base dir path) (steps path) := rfl

/-! ### What a path leads through -/

/-- The places that are looked at when names are followed from a place; `links` more links may be on
the way. -/
def walkTrail (t : FileTree) (links : Nat) (place : Location) : List String → List Location
  | [] => [place]
  | name :: rest =>
    place :: (place ++ [name]) ::
      match t.look place name with
      | .stop _ => []
      | .go place => walkTrail t links place rest
      | .link target =>
        match links with
        | 0 => []
        | links + 1 => walkTrail t links (base place target) (steps target ++ rest)
termination_by names => (links, names.length)

/-- The places that are looked at when a path is followed from a directory. -/
def trail (t : FileTree) (dir : Location) (path : String) : List Location :=
  if path.contains '\x00' then []
  else if path.isEmpty then []
  else t.walkTrail linkLimit (base dir path) (steps path)

/-- Two trees have the same entries at some places. -/
def AgreeOn (t t' : FileTree) (places : List Location) : Prop :=
  ∀ place ∈ places, t'.entry? place = t.entry? place

theorem AgreeOn.refl (t : FileTree) (places : List Location) : AgreeOn t t places :=
  fun _ _ => rfl

theorem look_congr {t t' : FileTree} {place : Location} {name : String}
    (hplace : t'.entry? place = t.entry? place)
    (hname : t'.entry? (place ++ [name]) = t.entry? (place ++ [name])) :
    t'.look place name = t.look place name := by
  unfold look
  rw [hplace, hname]

/-- Names lead to the same place, or fail for the same reason. -/
theorem walk_congr {t t' : FileTree} (links : Nat) (place : Location) (names : List String)
    (h : AgreeOn t t' (t.walkTrail links place names)) :
    t'.walk links place names = t.walk links place names := by
  fun_induction walkTrail t links place names with
  | case1 => rw [walk_nil, walk_nil]
  | case2 links place name rest go follow =>
    obtain ⟨hplace, h⟩ := List.forall_mem_cons.mp h
    obtain ⟨hname, h⟩ := List.forall_mem_cons.mp h
    rw [walk_cons, walk_cons, look_congr hplace hname]
    rcases hlook : t.look place name with cause | next | target
    · rfl
    · rw [hlook] at h
      exact go next h
    · rw [hlook] at h
      cases links with
      | zero => rfl
      | succ links => exact follow target h

/-- The place that names lead to is on the way. -/
theorem mem_walkTrail {t : FileTree} {links : Nat} {place last : Location} {names : List String}
    (h : t.walk links place names = .ok last) : last ∈ t.walkTrail links place names := by
  fun_induction walkTrail t links place names with
  | case1 =>
    rw [walk_nil] at h
    cases h
    exact List.mem_singleton_self _
  | case2 links place name rest go follow =>
    rw [walk_cons] at h
    refine List.mem_cons_of_mem _ (List.mem_cons_of_mem _ ?_)
    rcases hlook : t.look place name with cause | next | target <;> rw [hlook] at h
    · cases h
    · exact go next h
    · cases links with
      | zero => cases h
      | succ links => exact follow target h

variable {t t' : FileTree} {dir place : Location} {path : String}

/-- A path leads to the same place, or fails for the same reason. -/
theorem resolve_congr (h : AgreeOn t t' (t.trail dir path)) :
    t'.resolve dir path = t.resolve dir path := by
  unfold trail at h
  rw [resolve_eq, resolve_eq]
  split_ifs at h ⊢
  · rfl
  · rfl
  · exact walk_congr _ _ _ h

/-- The place that a path leads to is on its trail. -/
theorem mem_trail (h : t.resolve dir path = .ok place) : place ∈ t.trail dir path := by
  unfold trail
  rw [resolve_eq] at h
  split_ifs at h ⊢
  · exact mem_walkTrail h

/-- What is read hangs on the entry only. -/
theorem readText_congr (h : t'.entry? place = t.entry? place) :
    t'.readText place = t.readText place := by
  unfold readText
  rw [h]

/-! ### Where a path leads -/

/-- Names lead from a place to another, however many links are on the way. -/
inductive Leads (t : FileTree) : Location → List String → Location → Prop
  | here (place : Location) : Leads t place [] place
  | go {place next last : Location} {name : String} {rest : List String} :
      t.look place name = .go next → Leads t next rest last → Leads t place (name :: rest) last
  | link {place last : Location} {name target : String} {rest : List String} :
      t.look place name = .link target → Leads t (base place target) (steps target ++ rest) last →
      Leads t place (name :: rest) last

/-- Names lead to one place at most. -/
theorem Leads.unique {last last' : Location} {names : List String}
    (h : t.Leads place names last) (h' : t.Leads place names last') : last = last' := by
  induction h with
  | here place =>
    cases h'
    rfl
  | go hlook _ ih =>
    cases h' with
    | go hlook' h' =>
      rw [hlook] at hlook'
      cases hlook'
      exact ih h'
    | link hlook' _ =>
      rw [hlook] at hlook'
      cases hlook'
  | link hlook _ ih =>
    cases h' with
    | go hlook' _ =>
      rw [hlook] at hlook'
      cases hlook'
    | link hlook' h' =>
      rw [hlook] at hlook'
      cases hlook'
      exact ih h'

theorem leads_of_walk {links : Nat} {last : Location} {names : List String}
    (h : t.walk links place names = .ok last) : t.Leads place names last := by
  fun_induction walkTrail t links place names with
  | case1 =>
    rw [walk_nil] at h
    cases h
    exact .here _
  | case2 links place name rest go follow =>
    rw [walk_cons] at h
    rcases hlook : t.look place name with cause | next | target <;> rw [hlook] at h
    · cases h
    · exact .go hlook (go next h)
    · cases links with
      | zero => cases h
      | succ links => exact .link hlook (follow target h)

/-- A path that resolves leads to the place by the entries of the tree alone. -/
theorem leads_of_resolve (h : t.resolve dir path = .ok place) :
    t.Leads (base dir path) (steps path) place := by
  rw [resolve_eq] at h
  split_ifs at h
  exact leads_of_walk h

end CacheWarden.FileTree
