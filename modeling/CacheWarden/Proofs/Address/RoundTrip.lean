import CacheWarden.Address.Reader
import CacheWarden.Address.Writer
import CacheWarden.Proofs.Text.Numeral
/-!
Addresses are read back as they are written.

A group ends where its digits do, so what matters is the character behind it: a point
would make it a byte of a short address, a colon lets another group follow (`Closes` says
that none does).  The zeros that were left out are those that are missing to eight groups
(`take_zeros_drop`).
-/

namespace CacheWarden.Address

open Text

/-! ### Numbers -/

/-- No digit of the base comes next. -/
def NoDigit (base : Nat) (rest : List Char) : Prop :=
  ∀ c ∈ rest.head?, digitValue? base c = none

theorem noDigit_cons {base : Nat} {c : Char} (h : digitValue? base c = none) (rest : List Char) :
    NoDigit base (c :: rest) := by
  intro d hd
  cases hd
  exact h

theorem noDigit_nil (base : Nat) : NoDigit base [] := fun _ h => by cases h

theorem spanDigits_eq (base : Nat) (cs : List Char) :
    spanDigits base cs = (cs.takeWhile fun c => (digitValue? base c).isSome,
      cs.dropWhile fun c => (digitValue? base c).isSome) :=
  List.span_eq_takeWhile_dropWhile _ _

theorem spanDigits_of_noDigit {base : Nat} {rest : List Char} (h : NoDigit base rest) :
    spanDigits base rest = ([], rest) := by
  rw [spanDigits_eq]
  cases rest with
  | nil => rfl
  | cons c rest =>
    have hc : digitValue? base c = none := h c rfl
    simp [hc]

section digits

variable {base : Nat} (hbase : base ≤ 16) {ds : List Nat} (hds : ∀ d ∈ ds, d < base)

include hbase hds

theorem spanDigits_append {rest : List Char} (h : NoDigit base rest) :
    spanDigits base (ds.map digitChar ++ rest) = (ds.map digitChar, rest) := by
  have hall : ∀ c ∈ ds.map digitChar, (digitValue? base c).isSome = true := by
    intro c hc
    obtain ⟨d, hd, rfl⟩ := List.mem_map.mp hc
    rw [digitValue?_digitChar hbase (hds d hd)]
    rfl
  have hrest := spanDigits_of_noDigit h
  rw [spanDigits_eq, Prod.mk.injEq] at hrest
  rw [spanDigits_eq, List.takeWhile_append_of_pos hall, List.dropWhile_append_of_pos hall, hrest.1,
    hrest.2, List.append_nil]

theorem foldlM_digits (n : Nat) :
    (ds.map digitChar).foldlM (fun n c => (digitValue? base c).map (n * base + ·)) n =
      some (place base n ds) := by
  induction ds generalizing n with
  | nil => rfl
  | cons d ds ih =>
    obtain ⟨hd, hds'⟩ := List.forall_mem_cons.mp hds
    rw [List.map_cons, List.foldlM_cons, digitValue?_digitChar hbase hd]
    exact ih hds' _

theorem numeral?_digits (hne : ds ≠ []) :
    numeral? base (ds.map digitChar) = some (place base 0 ds) := by
  cases ds with
  | nil => exact absurd rfl hne
  | cons d ds => exact foldlM_digits hbase hds 0

end digits

/-- A number is read up to the end of its digits. -/
theorem readNumber?_append {base bound n : Nat} (hbase : 2 ≤ base ∧ base ≤ 16) (hn : n < bound)
    {rest : List Char} (h : NoDigit base rest) :
    readNumber? base bound ((bigDigits base n).map digitChar ++ rest) = some (n, rest) := by
  have hds : ∀ d ∈ bigDigits base n, d < base := fun d hd => lt_of_mem_bigDigits hbase.1 hd
  unfold readNumber?
  rw [spanDigits_append hbase.2 hds h]
  dsimp only
  rw [numeral?_digits hbase.2 hds (bigDigits_ne_nil base n), place_bigDigits]
  exact if_pos hn

theorem readNumber?_of_noDigit {base : Nat} {rest : List Char} (h : NoDigit base rest)
    (bound : Nat) : readNumber? base bound rest = none := by
  unfold readNumber?
  rw [spanDigits_of_noDigit h]
  rfl

/-! ### Short addresses -/

theorem readByte?_append (x : UInt8) {rest : List Char} (h : NoDigit 10 rest) :
    readByte? (decimal x.toNat ++ rest) = some (x, rest) := by
  have hds : ∀ d ∈ bigDigits 10 x.toNat, d < 10 := fun d hd => lt_of_mem_bigDigits (by decide) hd
  have hx : x.toNat < 256 := x.toNat_lt
  have hlength : (bigDigits 10 x.toNat).length ≤ 3 :=
    length_bigDigits_le (by decide) (by decide) (by omega)
  -- only zero has a zero in front, and nothing behind it
  have hlead : ¬(1 < (bigDigits 10 x.toNat).length ∧
      ((bigDigits 10 x.toNat).map digitChar).head? = some '0') := by
    rintro ⟨hlong, hhead⟩
    rcases hb : bigDigits 10 x.toNat with - | ⟨d, ds⟩
    · exact bigDigits_ne_nil _ _ hb
    · rw [hb] at hds hlong hhead
      have hd := (List.forall_mem_cons.mp hds).1
      have hchar : digitChar d = '0' := Option.some.inj hhead
      have hzero : d = 0 := by
        have hnat := toNat_digitChar hd
        rw [hchar] at hnat
        have h48 : ('0' : Char).toNat = 48 := rfl
        omega
      have hx0 : x.toNat = 0 := by
        apply eq_zero_of_head?_bigDigits
        rw [hb, hzero]
        rfl
      rw [hx0] at hb
      have hone : bigDigits 10 0 = [0] := rfl
      rw [hone] at hb
      rw [← hb] at hlong
      exact absurd hlong (by decide)
  unfold readByte?
  rw [decimal_eq, spanDigits_append (by decide) hds h]
  dsimp only
  rw [List.length_map, if_neg (not_or.mpr ⟨by omega, hlead⟩),
    readNumber?_append (by decide) hx h]
  simp

theorem readByte?_of_noDigit {rest : List Char} (h : NoDigit 10 rest) : readByte? rest = none := by
  unfold readByte?
  dsimp only
  rw [readNumber?_of_noDigit h]
  split <;> rfl

theorem v4Text_eq (a b c d : UInt8) :
    v4Text a b c d = decimal a.toNat ++ '.' :: (decimal b.toNat ++ '.' :: (decimal c.toNat ++
      '.' :: decimal d.toNat)) := rfl

/-- A short address is read. -/
theorem readV4?_append (a b c d : UInt8) {rest : List Char} (h : NoDigit 10 rest) :
    readV4? (v4Text a b c d ++ rest) = some ((a, b, c, d), rest) := by
  have hpoint (cs : List Char) : NoDigit 10 ('.' :: cs) := noDigit_cons (by decide) cs
  have hskip (cs : List Char) : skipChar? '.' ('.' :: cs) = some cs := rfl
  rw [v4Text_eq]
  simp only [List.append_assoc, List.cons_append]
  unfold readV4?
  simp only [readByte?_append _ (hpoint _), readByte?_append _ h, hskip, Option.bind_eq_bind,
    Option.bind_some]

/-- Without a point behind its first digits a text is no short address. -/
theorem readV4?_eq_none {cs : List Char} (h : skipChar? '.' (spanDigits 10 cs).2 = none) :
    readV4? cs = none := by
  have hbyte : readByte? cs = none ∨ ∃ x, readByte? cs = some (x, (spanDigits 10 cs).2) := by
    unfold readByte? readNumber?
    dsimp only
    split
    · exact .inl rfl
    · split
      · split
        · exact .inr ⟨_, rfl⟩
        · exact .inl rfl
      · exact .inl rfl
  unfold readV4?
  rcases hbyte with hbyte | ⟨x, hbyte⟩
  · rw [hbyte]
    rfl
  · simp only [hbyte, h, Option.bind_eq_bind, Option.bind_some, Option.bind_none]

/-! ### Groups -/

/-- What stands behind a group: neither a digit nor a point. -/
structure EndsGroup (rest : List Char) : Prop where
  noHex : NoDigit 16 rest
  noDecimal : NoDigit 10 rest
  noPoint : ∀ c ∈ rest.head?, c ≠ '.'

theorem endsGroup_cons {c : Char}
    (h : digitValue? 16 c = none ∧ digitValue? 10 c = none ∧ c ≠ '.') (rest : List Char) :
    EndsGroup (c :: rest) where
  noHex := noDigit_cons h.1 rest
  noDecimal := noDigit_cons h.2.1 rest
  noPoint d hd := by
    cases hd
    exact h.2.2

theorem skipChar?_of_ne {c : Char} {rest : List Char} (h : ∀ x ∈ rest.head?, x ≠ c) :
    skipChar? c rest = none := by
  cases rest with
  | nil => rfl
  | cons x rest => exact if_neg (h x rfl)

/-- Behind the first digits of a group there is no point. -/
theorem readV4?_group {g : UInt16} {rest : List Char} (h : EndsGroup rest) :
    readV4? (hex g.toNat ++ rest) = none := by
  have hhex : ∀ c ∈ hex g.toNat, c ≠ '.' := by
    intro c hc
    rw [hex_eq] at hc
    obtain ⟨d, hd, rfl⟩ := List.mem_map.mp hc
    have hlt : d < 16 := lt_of_mem_bigDigits (by decide) hd
    intro hdot
    have hvalue : digitValue? 16 (digitChar d) = some d := digitValue?_digitChar (by decide) hlt
    rw [hdot] at hvalue
    cases hvalue
  apply readV4?_eq_none
  apply skipChar?_of_ne
  generalize hex g.toNat = cs at hhex
  induction cs with
  | nil =>
    rw [List.nil_append, spanDigits_of_noDigit h.noDecimal]
    exact h.noPoint
  | cons c cs ih =>
    obtain ⟨hc, hcs⟩ := List.forall_mem_cons.mp hhex
    rw [spanDigits_eq] at ih ⊢
    rw [List.cons_append, List.dropWhile_cons]
    split
    · exact ih hcs
    · intro x hx
      cases hx
      exact hc

theorem readGroup?_append (g : UInt16) {rest : List Char} (h : NoDigit 16 rest) :
    readGroup? (hex g.toNat ++ rest) = some (g, rest) := by
  have hds : ∀ d ∈ bigDigits 16 g.toNat, d < 16 := fun d hd => lt_of_mem_bigDigits (by decide) hd
  have hg : g.toNat < 65536 := g.toNat_lt
  have hlength : (bigDigits 16 g.toNat).length ≤ 4 :=
    length_bigDigits_le (by decide) (by decide) (by omega)
  unfold readGroup?
  rw [hex_eq, spanDigits_append (by decide) hds h]
  dsimp only
  rw [List.length_map, if_neg (by omega), readNumber?_append (by decide) hg h]
  simp

theorem readGroup?_of_noDigit {rest : List Char} (h : NoDigit 16 rest) :
    readGroup? rest = none := by
  unfold readGroup?
  rw [readNumber?_of_noDigit h]
  split <;> rfl

/-- Groups behind others, each behind a colon. -/
def tailText (gs : List UInt16) : List Char := gs.flatMap fun g => ':' :: hex g.toNat

theorem groupsText_cons (g : UInt16) (gs : List UInt16) :
    groupsText (g :: gs) = hex g.toNat ++ tailText gs := by
  induction gs generalizing g with
  | nil => exact (List.append_nil _).symm
  | cons g' gs ih =>
    show hex g.toNat ++ ':' :: groupsText (g' :: gs) = _
    rw [ih]
    rfl

/-- No group and no short address follows. -/
def Closes (rest : List Char) : Prop :=
  ∀ limit, readGroups limit false rest = ⟨[], false, rest⟩

theorem closes_of_ne {rest : List Char} (h : ∀ c ∈ rest.head?, c ≠ ':') : Closes rest := by
  intro limit
  cases limit with
  | zero => rfl
  | succ limit =>
    unfold readGroups
    simp only [skipChar?_of_ne h, Bool.false_eq_true, if_false, Option.bind_none, ite_self]

/-- Nothing can be read of a text without digits. -/
theorem readGroups_noDigit {limit : Nat} {first : Bool} {cs here : List Char}
    (hhere : (if first then some cs else skipChar? ':' cs) = some here) (h : EndsGroup here) :
    readGroups limit first cs = ⟨[], false, cs⟩ := by
  cases limit with
  | zero => rfl
  | succ limit =>
    have hv4 : readV4? here = none := by
      unfold readV4?
      rw [readByte?_of_noDigit h.noDecimal]
      rfl
    unfold readGroups
    rw [hhere]
    simp only [Option.bind_some, hv4, readGroup?_of_noDigit h.noHex, ite_self]

theorem closes_colons (rest : List Char) : Closes (':' :: ':' :: rest) := by
  intro limit
  exact readGroups_noDigit rfl (endsGroup_cons (by decide) rest)

/-- A group is read, and then those behind it. -/
theorem readGroups_group {limit : Nat} {first : Bool} {cs more : List Char} {g : UInt16}
    (hhere : (if first then some cs else skipChar? ':' cs) = some (hex g.toNat ++ more))
    (hmore : EndsGroup more) :
    readGroups (limit + 1) first cs =
      { readGroups limit false more with groups := g :: (readGroups limit false more).groups } := by
  rw [readGroups]
  simp only [hhere, Option.bind_some, readV4?_group hmore, readGroup?_append g hmore.noHex,
    ite_self]

theorem endsGroup_tailText (gs : List UInt16) {rest : List Char} (h : EndsGroup rest) :
    EndsGroup (tailText gs ++ rest) := by
  cases gs with
  | nil => exact h
  | cons g gs => exact endsGroup_cons (by decide) _

/-- There is room for some groups, and what stands behind them ends them if there is more. -/
def HasRoom (gs : List UInt16) (limit : Nat) (rest : List Char) : Prop :=
  gs.length = limit ∨ gs.length ≤ limit ∧ Closes rest

theorem HasRoom.next {g : UInt16} {gs : List UInt16} {limit : Nat} {rest : List Char}
    (h : HasRoom (g :: gs) limit rest) : ∃ k, limit = k + 1 ∧ HasRoom gs k rest := by
  cases limit with
  | zero => simp [HasRoom] at h
  | succ k => exact ⟨k, rfl, by simpa [HasRoom] using h⟩

/-- Groups behind others are read up to the limit, or to the last of them. -/
theorem readGroups_tailText {gs : List UInt16} {rest : List Char} (hrest : EndsGroup rest)
    {limit : Nat} (hlimit : HasRoom gs limit rest) :
    readGroups limit false (tailText gs ++ rest) = ⟨gs, false, rest⟩ := by
  induction gs generalizing limit with
  | nil =>
    rcases hlimit with rfl | ⟨-, hclose⟩
    · rfl
    · exact hclose limit
  | cons g gs ih =>
    obtain ⟨limit, rfl, hnext⟩ := hlimit.next
    have hcs : tailText (g :: gs) ++ rest = ':' :: (hex g.toNat ++ (tailText gs ++ rest)) := by
      simp [tailText]
    rw [hcs, readGroups_group rfl (endsGroup_tailText gs hrest), ih hnext]

/-- Groups are read up to the limit, or to the last of them. -/
theorem readGroups_groupsText {gs : List UInt16} {rest : List Char} (hrest : EndsGroup rest)
    {limit : Nat} (hlimit : HasRoom gs limit rest) :
    readGroups limit true (groupsText gs ++ rest) = ⟨gs, false, rest⟩ := by
  cases gs with
  | nil => exact readGroups_noDigit rfl hrest
  | cons g gs =>
    obtain ⟨limit, rfl, hnext⟩ := hlimit.next
    rw [groupsText_cons, List.append_assoc,
      readGroups_group rfl (endsGroup_tailText gs hrest), readGroups_tailText hrest hnext]

/-! ### Zeros -/

/-- What was left out are zeros. -/
theorem take_zeros_drop (gs : List UInt16) :
    gs = gs.take (longestZeros gs).1 ++ List.replicate (longestZeros gs).2 0 ++
      gs.drop ((longestZeros gs).1 + (longestZeros gs).2) := by
  induction gs with
  | nil => rfl
  | cons g gs ih =>
    rw [longestZeros]
    dsimp only
    split
    · -- the run is at the start
      have hzeros : (g :: gs).takeWhile (· == 0) =
          List.replicate (leadingZeros (g :: gs)) 0 := by
        apply List.eq_replicate_of_mem
        intro x hx
        simpa using List.mem_takeWhile_imp hx
      have hdrop : (g :: gs).drop (leadingZeros (g :: gs)) = (g :: gs).dropWhile (· == 0) :=
        calc (g :: gs).drop (leadingZeros (g :: gs))
            = ((g :: gs).takeWhile (· == 0) ++ (g :: gs).dropWhile (· == 0)).drop
                ((g :: gs).takeWhile (· == 0)).length := by
              rw [List.takeWhile_append_dropWhile]
              rfl
          _ = (g :: gs).dropWhile (· == 0) := List.drop_left
      rw [List.take_zero, List.nil_append, Nat.zero_add, hdrop, ← hzeros,
        List.takeWhile_append_dropWhile]
    · rw [List.take_succ_cons, Nat.add_right_comm, List.drop_succ_cons, List.cons_append,
        List.cons_append, ← ih]

/-! ### Long addresses -/

/-- The two halves of a group, put together. -/
theorem joinBytes_halves (x : UInt16) : joinBytes (x / 256).toUInt8 (x % 256).toUInt8 = x := by
  have hx : x.toNat < 65536 := x.toNat_lt
  unfold joinBytes
  rw [← UInt16.toNat_inj]
  simp
  omega

/-- A short address stands for two groups. -/
theorem readGroups_v4 {limit : Nat} {first : Bool} {cs rest : List Char} {a b c d : UInt8}
    (hhere : (if first then some cs else skipChar? ':' cs) = some (v4Text a b c d ++ rest))
    (hlimit : 0 < limit) (h : NoDigit 10 rest) :
    readGroups (limit + 1) first cs = ⟨[joinBytes a b, joinBytes c d], true, rest⟩ := by
  rw [readGroups]
  simp only [hhere, if_pos hlimit, Option.bind_some, readV4?_append a b c d h]

/-- Eight groups in a row are a long address. -/
theorem readV6?_of_all {cs rest : List Char} {gs : List UInt16}
    (h : readGroups 8 true cs = ⟨gs, false, rest⟩) (hgs : gs.length = 8) :
    readV6? cs = some (⟨gs, hgs⟩, rest) := by
  unfold readV6?
  simp only [h, dif_pos hgs]

/-- Groups with two colons between them are a long address, with zeros for the missing ones. -/
theorem readV6?_of_gap {cs more rest : List Char} {front back gs : List UInt16} {short : Bool}
    (hfront : readGroups 8 true cs = ⟨front, false, ':' :: ':' :: more⟩)
    (hback : readGroups (7 - front.length) true more = ⟨back, short, rest⟩)
    (hlength : front.length ≠ 8) (hgs : gs.length = 8)
    (hzeros : front ++ List.replicate (8 - front.length - back.length) 0 ++ back = gs) :
    readV6? cs = some (⟨gs, hgs⟩, rest) := by
  have hskip (cs : List Char) : skipChar? ':' (':' :: cs) = some cs := rfl
  subst hzeros
  unfold readV6?
  simp only [hfront, dif_neg hlength, Bool.false_eq_true, if_false, hskip, Option.bind_eq_bind,
    Option.bind_some, hback]
  rw [dif_pos hgs]

/-- The groups of a long address are read. -/
theorem readV6?_append (gs : Groups) {rest : List Char} (hrest : EndsGroup rest)
    (hclose : Closes rest) : readV6? (v6Text gs.val ++ rest) = some (gs, rest) := by
  obtain ⟨gs, hgs⟩ := gs
  have hcolons (cs : List Char) : EndsGroup (':' :: ':' :: cs) := endsGroup_cons (by decide) _
  unfold v6Text
  dsimp only
  split
  · -- a short address in the last two groups
    rename_i x y
    set v4 := v4Text (x / 256).toUInt8 (x % 256).toUInt8 (y / 256).toUInt8 (y % 256).toUInt8
      with hv4
    have hfront : readGroups 8 true ("::ffff:".toList ++ v4 ++ rest) =
        ⟨[], false, ':' :: ':' :: ("ffff:".toList ++ v4 ++ rest)⟩ :=
      readGroups_noDigit rfl (hcolons _)
    have htext : "ffff:".toList ++ v4 ++ rest =
        hex (0xffff : UInt16).toNat ++ (':' :: (v4 ++ rest)) := rfl
    have hback : readGroups 7 true ("ffff:".toList ++ v4 ++ rest)
        = ⟨[0xffff, x, y], true, rest⟩ := by
      rw [htext, readGroups_group rfl (endsGroup_cons (by decide) _),
        readGroups_v4 rfl (by decide) hrest.noDecimal, joinBytes_halves, joinBytes_halves]
    exact readV6?_of_gap hfront hback (by decide) hgs rfl
  · split
    · -- zeros are left out
      rename_i hlong
      have hparts := take_zeros_drop gs
      set i := (longestZeros gs).1
      set n := (longestZeros gs).2
      have hlength : (gs.take i).length + (n + (gs.drop (i + n)).length) = 8 := by
        have hsum := congrArg List.length hparts
        simp only [List.length_append, List.length_replicate, hgs, Nat.add_assoc] at hsum
        exact hsum.symm
      have hfront : readGroups 8 true (groupsText (gs.take i) ++ [':', ':'] ++
          groupsText (gs.drop (i + n)) ++ rest) =
            ⟨gs.take i, false, ':' :: ':' :: (groupsText (gs.drop (i + n)) ++ rest)⟩ := by
        rw [List.append_assoc, List.append_assoc]
        exact readGroups_groupsText (hcolons _) (.inr ⟨by omega, closes_colons _⟩)
      have hback : readGroups (7 - (gs.take i).length) true
          (groupsText (gs.drop (i + n)) ++ rest) = ⟨gs.drop (i + n), false, rest⟩ :=
        readGroups_groupsText hrest (.inr ⟨by omega, hclose⟩)
      refine readV6?_of_gap hfront hback (by omega) hgs ?_
      have hn : 8 - (gs.take i).length - (gs.drop (i + n)).length = n := by omega
      rw [hn]
      exact hparts.symm
    · exact readV6?_of_all (readGroups_groupsText hrest (.inl hgs)) hgs

/-! ### Addresses with a port -/

theorem readPort?_append (port : UInt16) :
    readPort? (':' :: decimal port.toNat) = some (port, []) := by
  have hskip (cs : List Char) : skipChar? ':' (':' :: cs) = some cs := rfl
  have hport : readNumber? 10 65536 (decimal port.toNat) = some (port.toNat, []) := by
    have hread := readNumber?_append (by decide) port.toNat_lt (noDigit_nil 10)
    rw [List.append_nil] at hread
    rw [decimal_eq]
    exact hread
  unfold readPort?
  simp only [hskip, hport, Option.bind_eq_bind, Option.bind_some]
  simp

/-- A short address with its port is read. -/
theorem readShort?_append (a b c d : UInt8) (port : UInt16) :
    readShort? (v4Text a b c d ++ ':' :: decimal port.toNat) = some ⟨.v4 a b c d, port⟩ := by
  have hv4 := readV4?_append a b c d (noDigit_cons (c := ':') (by decide) (decimal port.toNat))
  unfold readShort?
  simp only [hv4, readPort?_append, Option.bind_eq_bind, Option.bind_some]
  rfl

/-- A long address is no short one. -/
theorem readShort?_bracket (cs : List Char) : readShort? ('[' :: cs) = none := by
  unfold readShort? readV4?
  rw [readByte?_of_noDigit (noDigit_cons (by decide) cs)]
  rfl

/-- The number of a link behind a long address, if it has one. -/
def linkText (scope : UInt32) : List Char :=
  if scope = 0 then [] else '%' :: decimal scope.toNat

theorem readScope_append (scope : UInt32) (rest : List Char) :
    readScope (linkText scope ++ ']' :: rest) = (scope, ']' :: rest) := by
  unfold linkText
  split
  · rename_i hscope
    rw [hscope]
    rfl
  · have hread : readNumber? 10 4294967296 (decimal scope.toNat ++ ']' :: rest) =
        some (scope.toNat, ']' :: rest) := by
      rw [decimal_eq]
      exact readNumber?_append (by decide) scope.toNat_lt (noDigit_cons (by decide) rest)
    have hskip (cs : List Char) : skipChar? '%' ('%' :: cs) = some cs := rfl
    unfold readScope
    rw [List.cons_append, hskip, Option.bind_some, hread]
    simp

/-- Behind the groups of a long address comes its link, or its end. -/
theorem ends_linkText (scope : UInt32) (rest : List Char) :
    EndsGroup (linkText scope ++ ']' :: rest) ∧ Closes (linkText scope ++ ']' :: rest) := by
  unfold linkText
  split
  · exact ⟨endsGroup_cons (by decide) _, closes_of_ne (by rintro _ ⟨⟩; decide)⟩
  · exact ⟨endsGroup_cons (by decide) _, closes_of_ne (by rintro _ ⟨⟩; decide)⟩

/-- A long address with its port is read. -/
theorem readLong?_append (gs : Groups) (scope : UInt32) (port : UInt16) :
    readLong? ('[' :: (v6Text gs.val ++ (linkText scope ++ ']' :: ':' :: decimal port.toNat))) =
      some ⟨.v6 gs scope, port⟩ := by
  obtain ⟨hends, hcloses⟩ := ends_linkText scope (':' :: decimal port.toNat)
  have hskip (c : Char) (cs : List Char) : skipChar? c (c :: cs) = some cs := if_pos rfl
  unfold readLong?
  simp only [hskip, readV6?_append gs hends hcloses, readScope_append, readPort?_append,
    Option.bind_eq_bind, Option.bind_some]
  rfl

/-- An address is read back as it is written. -/
theorem parse?_text (a : Address) : parse? a.text = some a := by
  obtain ⟨host, port⟩ := a
  unfold parse? text
  rw [String.toList_ofList]
  cases host with
  | v4 a b c d =>
    show (readShort? (v4Text a b c d ++ ':' :: decimal port.toNat)).or _ = _
    rw [readShort?_append]
    rfl
  | v6 gs scope =>
    have htext : hostText (.v6 gs scope) ++ ':' :: decimal port.toNat =
        '[' :: (v6Text gs.val ++ (linkText scope ++ ']' :: ':' :: decimal port.toNat)) := by
      unfold hostText linkText
      simp
    rw [htext, readShort?_bracket, readLong?_append]
    rfl

end CacheWarden.Address
