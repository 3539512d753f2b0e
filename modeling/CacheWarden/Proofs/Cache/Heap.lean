import CacheWarden.Cache.Heap
/-!
What each change of the heap does to an object.

An object is known by its value and by the number of its owners, which is zero where
the object does not live.  A change of one object leaves the others alone; and as long
as an object lives, no change gives it another value (`valueOf_release`).
-/

namespace CacheWarden.Heap

/-- How many owners an object has. -/
def owners (h : Heap) (item : ItemId) : Nat := ((h.find? item).map (·.owners)).getD 0

/-- The value of an object that lives. -/
def valueOf (h : Heap) (item : ItemId) : Option Json.Value := (h.find? item).map (·.value)

/-- Every object that lives has an owner. -/
def Owned (h : Heap) : Prop := ∀ item l, h.find? item = some l → 0 < l.owners

variable (h : Heap)

/-! ### New objects -/

theorem find?_alloc (item other : ItemId) (value : Json.Value) :
    (h.alloc item value).find? other = if item = other then some ⟨value, 1⟩ else h.find? other := by
  unfold alloc find?
  rw [Std.HashMap.getElem?_insert]
  simp only [beq_iff_eq]

theorem owners_alloc (item other : ItemId) (value : Json.Value) :
    (h.alloc item value).owners other = if item = other then 1 else h.owners other := by
  unfold owners
  rw [find?_alloc]
  split <;> rfl

theorem valueOf_alloc (item other : ItemId) (value : Json.Value) :
    (h.alloc item value).valueOf other
      = if item = other then some value else h.valueOf other := by
  unfold valueOf
  rw [find?_alloc]
  split <;> rfl

theorem Owned.alloc {h : Heap} (hown : h.Owned) (item : ItemId) (value : Json.Value) :
    (h.alloc item value).Owned := by
  intro other l hl
  rw [find?_alloc] at hl
  split at hl
  · obtain rfl := Option.some.inj hl
    exact Nat.one_pos
  · exact hown other l hl

/-! ### More owners -/

theorem find?_share (item other : ItemId) :
    (h.share item).find? other
      = if item = other then (h.find? item).map fun l => { l with owners := l.owners + 1 }
        else h.find? other := by
  unfold share find?
  rw [Std.HashMap.getElem?_modify]
  simp only [beq_iff_eq]

/-- An object that lives has one owner more. -/
theorem owners_share {item : ItemId} (lives : (h.find? item).isSome = true) (other : ItemId) :
    (h.share item).owners other = h.owners other + if item = other then 1 else 0 := by
  unfold owners
  rw [find?_share]
  split
  · rename_i heq
    obtain ⟨l, hl⟩ := Option.isSome_iff_exists.mp lives
    rw [← heq, hl]
    rfl
  · rfl

theorem valueOf_share (item other : ItemId) : (h.share item).valueOf other = h.valueOf other := by
  unfold valueOf
  rw [find?_share]
  split
  · rename_i heq
    rw [heq, Option.map_map]
    rfl
  · rfl

theorem Owned.share {h : Heap} (hown : h.Owned) (item : ItemId) : (h.share item).Owned := by
  intro other l hl
  rw [find?_share] at hl
  split at hl
  · obtain ⟨_, -, rfl⟩ := Option.map_eq_some_iff.mp hl
    exact Nat.succ_pos _
  · exact hown other l hl

/-! ### Fewer owners -/

theorem find?_release (item other : ItemId) :
    (h.release item).find? other
      = if item = other then (h.find? item).bind Living.without else h.find? other := by
  unfold release find?
  rw [Std.HashMap.getElem?_alter]
  simp only [beq_iff_eq]

theorem owners_release (item other : ItemId) :
    (h.release item).owners other = h.owners other - if item = other then 1 else 0 := by
  unfold owners
  rw [find?_release]
  split
  · rename_i heq
    rw [← heq]
    rcases h.find? item with - | ⟨value, owners⟩
    · rfl
    · -- the last owner takes the object with it
      show (((if owners ≤ 1 then _ else _ : Option Living)).map _).getD 0 = owners - 1
      split
      · exact (Nat.sub_eq_zero_of_le ‹_›).symm
      · rfl
  · rfl

/-- An object that lives on has the value that it had. -/
theorem valueOf_release (item : ItemId) {other : ItemId} {value : Json.Value}
    (lives : (h.release item).valueOf other = some value) : h.valueOf other = some value := by
  unfold valueOf at lives ⊢
  rw [find?_release] at lives
  split at lives
  · rename_i heq
    rw [← heq]
    rcases hl : h.find? item with - | l
    · rw [hl] at lives
      cases lives
    · rw [hl, Option.bind_some, Living.without] at lives
      split at lives
      · cases lives
      · exact lives
  · exact lives

theorem Owned.release {h : Heap} (hown : h.Owned) (item : ItemId) : (h.release item).Owned := by
  intro other l hl
  rw [find?_release] at hl
  split at hl
  · obtain ⟨before, -, hwithout⟩ := Option.bind_eq_some_iff.mp hl
    unfold Living.without at hwithout
    split at hwithout
    · cases hwithout
    · obtain rfl := Option.some.inj hwithout
      show 0 < before.owners - 1
      omega
  · exact hown other l hl

theorem owners_releaseAll (items : List ItemId) (other : ItemId) :
    (h.releaseAll items).owners other = h.owners other - items.count other := by
  induction items generalizing h with
  | nil => rfl
  | cons item items ih =>
    show ((h.release item).releaseAll items).owners other = _
    rw [ih, owners_release, List.count_cons]
    simp only [beq_iff_eq]
    omega

theorem valueOf_releaseAll (items : List ItemId) {other : ItemId} {value : Json.Value}
    (lives : (h.releaseAll items).valueOf other = some value) : h.valueOf other = some value := by
  induction items generalizing h with
  | nil => exact lives
  | cons item items ih => exact h.valueOf_release item (ih (h.release item) lives)

theorem Owned.releaseAll {h : Heap} (hown : h.Owned) (items : List ItemId) :
    (h.releaseAll items).Owned := by
  induction items generalizing h with
  | nil => exact hown
  | cons item items ih => exact ih (hown.release item)

/-! ### Living and owned -/

/-- Who has an owner has a value. -/
theorem exists_valueOf {item : ItemId} (h' : 0 < h.owners item) : ∃ v, h.valueOf item = some v := by
  unfold owners at h'
  unfold valueOf
  rcases hl : h.find? item with - | l
  · rw [hl] at h'
    exact absurd h' (Nat.lt_irrefl 0)
  · exact ⟨l.value, rfl⟩

/-- What still has an owner has the value that it had. -/
theorem valueOf_releaseAll_of_pos {items : List ItemId} {item : ItemId}
    (h' : 0 < (h.releaseAll items).owners item) :
    (h.releaseAll items).valueOf item = h.valueOf item := by
  obtain ⟨v, hv⟩ := exists_valueOf _ h'
  rw [hv, h.valueOf_releaseAll items hv]

/-- What has no owner does not live. -/
theorem Owned.find?_eq_none_iff {h : Heap} (hown : h.Owned) {item : ItemId} :
    h.find? item = none ↔ h.owners item = 0 := by
  unfold owners
  rcases hl : h.find? item with - | l
  · exact iff_of_true rfl rfl
  · exact iff_of_false nofun (Nat.pos_iff_ne_zero.mp (hown item l hl))

end CacheWarden.Heap
