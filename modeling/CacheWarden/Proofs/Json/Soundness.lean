import CacheWarden.Proofs.Json.Series
/-!
What the readers take is in the grammar.

Each reader gives, besides its value, the bytes that are left; the bytes in front of
these are a text of the value in the grammar.  So whatever is read as a whole text is
one (`isText_of_parse`), and nothing that is no text is ever taken for one.
-/

namespace CacheWarden.Json

open Text

variable {bytes rest : List UInt8}

/-! ### Numbers -/

section number

variable {negative : Bool} {significand : Nat} {e : Int} {n : Number}

theorem eq_of_readDouble (h : readDouble negative significand e bytes = .ok (n, rest)) :
    bytes = rest := by
  unfold readDouble at h
  split at h
  · cases h
    rfl
  · cases h

theorem digits_of_readPowerDigits {down : Bool} {power : Nat}
    (h : readPowerDigits negative significand e down power bytes = .ok (n, rest)) :
    ∃ ds, (∀ d ∈ ds, d < 10) ∧ bytes = digitsText ds ++ rest := by
  induction bytes generalizing power with
  | nil => exact ⟨[], by simp, eq_of_readDouble h⟩
  | cons b tail ih =>
    unfold readPowerDigits at h
    split at h
    · exact ⟨[], by simp, eq_of_readDouble h⟩
    · rename_i d hd
      obtain ⟨hlt, rfl⟩ := digit?_eq_some_iff.mp hd
      split at h
      · split at h
        · cases h
        · -- the power is out of all bounds, and its last digits are skipped
          cases h
          obtain ⟨ds, hds, htail⟩ := exists_digits tail
          exact ⟨d :: ds, List.forall_mem_cons.mpr ⟨hlt, hds⟩, congrArg _ htail⟩
      · obtain ⟨ds, hds, htail⟩ := ih h
        exact ⟨d :: ds, List.forall_mem_cons.mpr ⟨hlt, hds⟩, congrArg _ htail⟩

theorem power_of_readPower (h : readPower negative significand e bytes = .ok (n, rest)) :
    ∃ sign ds, (sign = [] ∨ sign = [0x2B] ∨ sign = [0x2D]) ∧ Digits ds ∧
      bytes = sign ++ (digitsText ds ++ rest) := by
  unfold readPower at h
  split at h
  rename_i down tail heq
  have hsplit : ∃ sign, (sign = [] ∨ sign = [0x2B] ∨ sign = [0x2D]) ∧ bytes = sign ++ tail := by
    split at heq
    · cases heq
      exact ⟨[0x2B], by simp, rfl⟩
    · cases heq
      exact ⟨[0x2D], by simp, rfl⟩
    · cases heq
      exact ⟨[], by simp, rfl⟩
  obtain ⟨sign, hsign, rfl⟩ := hsplit
  split at h
  · cases h
  · rename_i b tail
    split at h
    · cases h
    · rename_i d hd
      obtain ⟨hlt, rfl⟩ := digit?_eq_some_iff.mp hd
      obtain ⟨ds, hds, rfl⟩ := digits_of_readPowerDigits h
      exact ⟨sign, d :: ds, hsign, ⟨by simp, List.forall_mem_cons.mpr ⟨hlt, hds⟩⟩, rfl⟩

theorem power_of_readTail (h : readTail negative significand e bytes = .ok (n, rest)) :
    ∃ power, Power power ∧ bytes = power ++ rest := by
  unfold readTail at h
  split at h
  · exact ⟨[], .none, eq_of_readDouble h⟩
  · rename_i b tail
    split at h
    · rename_i hletter
      obtain ⟨sign, ds, hsign, hds, rfl⟩ := power_of_readPower h
      exact ⟨b :: (sign ++ digitsText ds), .some hletter hsign hds, by simp⟩
    · exact ⟨[], .none, eq_of_readDouble h⟩

theorem fraction_of_readFraction {seen : Bool}
    (h : readFraction negative significand e seen bytes = .ok (n, rest)) :
    ∃ ds power, (∀ d ∈ ds, d < 10) ∧ (seen = false → ds ≠ []) ∧ Power power ∧
      bytes = digitsText ds ++ (power ++ rest) := by
  induction bytes generalizing significand e seen with
  | nil =>
    unfold readFraction at h
    split at h
    · rename_i hseen
      obtain ⟨power, hpower, hrest⟩ := power_of_readTail h
      exact ⟨[], power, by simp, by simp [hseen], hpower, hrest⟩
    · cases h
  | cons b tail ih =>
    unfold readFraction at h
    split at h
    · split at h
      · rename_i hseen
        obtain ⟨power, hpower, hrest⟩ := power_of_readTail h
        exact ⟨[], power, by simp, by simp [hseen], hpower, hrest⟩
      · cases h
    · rename_i d hd
      obtain ⟨hlt, rfl⟩ := digit?_eq_some_iff.mp hd
      split at h
      · -- the significand is full, and the digits behind it are skipped
        obtain ⟨ds, hds, htail⟩ := exists_digits tail
        obtain ⟨power, hpower, hrest⟩ := power_of_readTail h
        exact ⟨d :: ds, power, List.forall_mem_cons.mpr ⟨hlt, hds⟩, by simp, hpower,
          congrArg _ (htail.trans (congrArg _ hrest))⟩
      · obtain ⟨ds, power, hds, -, hpower, htail⟩ := ih h
        exact ⟨d :: ds, power, List.forall_mem_cons.mpr ⟨hlt, hds⟩, by simp, hpower,
          congrArg _ htail⟩

/-- What stands behind the digits of a whole number. -/
theorem behind_of_readFraction
    (h : readFraction negative significand e false bytes = .ok (n, rest)) :
    ∃ fraction power, Fraction fraction ∧ Power power ∧ fraction ≠ [] ∧
      0x2E :: bytes = fraction ++ (power ++ rest) := by
  obtain ⟨ds, power, hds, hne, hpower, rfl⟩ := fraction_of_readFraction h
  exact ⟨0x2E :: digitsText ds, power, .some ⟨hne rfl, hds⟩, hpower, by simp, rfl⟩

theorem behind_of_readLong {dropped : Nat}
    (h : readLong negative significand dropped bytes = .ok (n, rest)) :
    ∃ ds fraction power, (∀ d ∈ ds, d < 10) ∧ Fraction fraction ∧ Power power ∧
      bytes = digitsText ds ++ (fraction ++ (power ++ rest)) := by
  induction bytes generalizing dropped with
  | nil =>
    obtain ⟨power, hpower, hrest⟩ := power_of_readTail h
    exact ⟨[], [], power, by simp, .none, hpower, hrest⟩
  | cons b tail ih =>
    unfold readLong at h
    split at h
    · rename_i hb
      obtain ⟨d, hd⟩ := Option.isSome_iff_exists.mp hb
      obtain ⟨hlt, rfl⟩ := digit?_eq_some_iff.mp hd
      obtain ⟨ds, fraction, power, hds, hfraction, hpower, htail⟩ := ih h
      exact ⟨d :: ds, fraction, power, List.forall_mem_cons.mpr ⟨hlt, hds⟩, hfraction, hpower,
        congrArg _ htail⟩
    · split at h
      · rename_i hb
        obtain ⟨fraction, power, hfraction, hpower, -, htail⟩ := behind_of_readFraction h
        exact ⟨[], fraction, power, by simp, hfraction, hpower, by rw [hb, htail]; rfl⟩
      · obtain ⟨power, hpower, hrest⟩ := power_of_readTail h
        exact ⟨[], [], power, by simp, .none, hpower, hrest⟩

theorem behind_of_readWhole {m : Nat} (h : readWhole negative m bytes = .ok (n, rest)) :
    ∃ fraction power, Fraction fraction ∧ Power power ∧ bytes = fraction ++ (power ++ rest) ∧
      (fraction = [] → power = [] → n = wholeNumber negative m) := by
  unfold readWhole at h
  split at h
  · cases h
    exact ⟨[], [], .none, .none, rfl, fun _ _ => rfl⟩
  · rename_i b tail
    split at h
    · rename_i hb
      obtain ⟨fraction, power, hfraction, hpower, hne, htail⟩ := behind_of_readFraction h
      exact ⟨fraction, power, hfraction, hpower, by rw [hb, htail], fun hf => absurd hf hne⟩
    · split at h
      · rename_i hletter
        obtain ⟨sign, ds, hsign, hds, rfl⟩ := power_of_readPower h
        exact ⟨[], b :: (sign ++ digitsText ds), .none, .some hletter hsign hds, by simp, by simp⟩
      · cases h
        exact ⟨[], [], .none, .none, rfl, fun _ _ => rfl⟩

/-- The digits behind the first ones of a whole number.  What is too large for the significand is no
integer of 64 bits. -/
theorem behind_of_readDigits {m : Nat} (h : readDigits negative m bytes = .ok (n, rest)) :
    ∃ ds fraction power, (∀ d ∈ ds, d < 10) ∧ Fraction fraction ∧ Power power ∧
      bytes = digitsText ds ++ (fraction ++ (power ++ rest)) ∧
      (fraction = [] → power = [] → place 10 m ds ≤ 18446744073709551615 →
        n = wholeNumber negative (place 10 m ds)) := by
  induction bytes generalizing m with
  | nil =>
    obtain ⟨fraction, power, hfraction, hpower, hrest, hn⟩ := behind_of_readWhole h
    exact ⟨[], fraction, power, by simp, hfraction, hpower, hrest, fun hf hp _ => hn hf hp⟩
  | cons b tail ih =>
    unfold readDigits at h
    split at h
    · obtain ⟨fraction, power, hfraction, hpower, hrest, hn⟩ := behind_of_readWhole h
      exact ⟨[], fraction, power, by simp, hfraction, hpower, hrest, fun hf hp _ => hn hf hp⟩
    · rename_i d hd
      obtain ⟨hlt, rfl⟩ := digit?_eq_some_iff.mp hd
      split at h
      · rename_i hover
        obtain ⟨ds, fraction, power, hds, hfraction, hpower, htail⟩ := behind_of_readLong h
        refine ⟨d :: ds, fraction, power, List.forall_mem_cons.mpr ⟨hlt, hds⟩, hfraction, hpower,
          congrArg _ htail, ?_⟩
        intro _ _ hle
        have hgt : 18446744073709551615 < m * 10 + d := by simpa [overflows] using hover
        have hmono : m * 10 + d ≤ place 10 (m * 10 + d) ds := le_place (by decide) _ ds
        rw [place_cons] at hle
        omega
      · obtain ⟨ds, fraction, power, hds, hfraction, hpower, htail, hn⟩ := ih h
        exact ⟨d :: ds, fraction, power, List.forall_mem_cons.mpr ⟨hlt, hds⟩, hfraction, hpower,
          congrArg _ htail, hn⟩

/-- An integer of 64 bits is exact. -/
theorem wholeNumber_eq {m : Nat} (hzero : negative → m ≠ 0) (hword : IsWord (signed negative m)) :
    wholeNumber negative m = .int (signed negative m) := by
  unfold wholeNumber
  cases negative with
  | false => rfl
  | true =>
    have hm := hzero rfl
    have hle : -9223372036854775808 ≤ -(m : Int) := hword.1
    rw [if_pos rfl, if_pos (by omega)]
    rfl

theorem le_of_isWord {m : Nat} (h : IsWord (signed negative m)) : m ≤ 18446744073709551615 := by
  obtain ⟨hlow, hhigh⟩ := h
  cases negative with
  | false => exact Int.ofNat_le.mp hhigh
  | true =>
    have hlow' : -9223372036854775808 ≤ -(m : Int) := hlow
    omega

theorem literal_of_readUnsigned (h : readUnsigned negative bytes = .ok (n, rest)) :
    ∃ text, AnyLiteral (minus negative ++ text) n ∧ bytes = text ++ rest := by
  unfold readUnsigned at h
  split at h
  · cases h
  · rename_i b tail
    split at h
    · cases h
    · -- a leading zero stands alone
      rename_i hd
      obtain ⟨-, rfl⟩ := digit?_eq_some_iff.mp hd
      have hwhole : readWhole negative 0 tail = .ok (n, rest) := by
        split at h
        · split at h
          · cases h
          · exact h
        · exact h
      obtain ⟨fraction, power, hfraction, hpower, rfl, hn⟩ := behind_of_readWhole hwhole
      refine ⟨digitsText [0] ++ (fraction ++ power), ⟨negative, [0], fraction, power,
        ⟨⟨by simp, by simp⟩, fun _ => rfl⟩, hfraction, hpower, rfl, ?_⟩, by simp⟩
      intro hf hp hzero hword
      rw [hn hf hp]
      exact wholeNumber_eq hzero hword
    · rename_i d hnz hd
      obtain ⟨hlt, rfl⟩ := digit?_eq_some_iff.mp hd
      obtain ⟨ds, fraction, power, hds, hfraction, hpower, rfl, hn⟩ := behind_of_readDigits h
      refine ⟨digitsText (d :: ds) ++ (fraction ++ power), ⟨negative, d :: ds, fraction, power,
        ⟨⟨by simp, List.forall_mem_cons.mpr ⟨hlt, hds⟩⟩, fun hlead => ?_⟩, hfraction, hpower, rfl,
        ?_⟩, by simp⟩
      · exact absurd (Option.some.inj hlead) hnz
      · intro hf hp hzero hword
        have hplace : place 10 0 (d :: ds) = place 10 d ds := by rw [place_cons, Nat.zero_mul,
          Nat.zero_add]
        rw [hplace] at hzero hword ⊢
        rw [hn hf hp (le_of_isWord hword)]
        exact wholeNumber_eq hzero hword

end number

/-! ### Strings -/

theorem pair_of_readPair {lead : Nat} {c : Char} (h : readPair lead bytes = .ok (c, rest)) :
    ∃ v n, CodeUnit v n ∧ (0xDC00 ≤ n ∧ n ≤ 0xDFFF) ∧ bytes = 0x5C :: 0x75 :: (v ++ rest) ∧
      c = Char.ofNat (0x10000 + (lead - 0xD800) * 0x400 + (n - 0xDC00)) := by
  unfold readPair at h
  split at h
  · cases h
  · split at h
    · cases h
    · rename_i b tail hb
      split at h
      · cases h
      · rename_i u tail
        split at h
        · cases h
        · rename_i hu
          obtain ⟨⟨n, left⟩, hunit, hnext⟩ := exists_of_bind_ok h
          obtain ⟨v, hv, rfl⟩ := codeUnit_of_readUnit hunit
          dsimp only at hnext
          split at hnext
          · rename_i htrail
            obtain ⟨rfl, rfl⟩ := Prod.mk.inj (Except.ok.inj hnext)
            refine ⟨v, n, hv, by simpa [isTrailing] using htrail, ?_, rfl⟩
            rw [not_not.mp hb, not_not.mp hu]
          · cases hnext

/-- An escape, to be followed by the rest of a string. -/
theorem chars_of_readEscape {c : Char} (h : readEscape bytes = .ok (c, rest)) :
    ∃ text, bytes = text ++ rest ∧
      ∀ bs cs, Chars bs cs → Chars (0x5C :: (text ++ bs)) (c :: cs) := by
  unfold readEscape at h
  split at h
  · cases h
  · rename_i b tail
    have hshort {b : UInt8} {d : Char} (hmem : (b, d) ∈ shortEscapes) :
        ∃ text, b :: tail = text ++ tail ∧
          ∀ bs cs, Chars bs cs → Chars (0x5C :: (text ++ bs)) (d :: cs) :=
      ⟨[b], rfl, fun bs cs hcs => .escape hmem hcs⟩
    iterate 8
      split at h
      · rename_i hb
        cases h
        rw [hb]
        exact hshort (by decide)
    split at h
    · -- by code unit
      rename_i hb
      unfold readCodeUnit at h
      obtain ⟨⟨n, left⟩, hunit, hnext⟩ := exists_of_bind_ok h
      obtain ⟨u, hu, rfl⟩ := codeUnit_of_readUnit hunit
      dsimp only at hnext
      split at hnext
      · cases hnext
      · rename_i htrail
        split at hnext
        · rename_i hlead
          obtain ⟨v, m, hv, hm, rfl, hc⟩ := pair_of_readPair hnext
          refine ⟨0x75 :: (u ++ 0x5C :: 0x75 :: v), by simp [hb], ?_⟩
          intro bs cs hcs
          have hpair := Chars.pair hu (by simpa [isLeading] using hlead) hv hm hcs
          rw [← hc] at hpair
          simpa only [List.cons_append, List.append_assoc] using hpair
        · rename_i hlead
          obtain ⟨rfl, rfl⟩ := Prod.mk.inj (Except.ok.inj hnext)
          refine ⟨0x75 :: u, by simp [hb], ?_⟩
          intro bs cs hcs
          refine .unit hu ?_ hcs
          simp only [isTrailing, isLeading, Bool.and_eq_true, decide_eq_true_eq, not_and,
            not_le] at htrail hlead
          omega
    · cases h

/-- A character that is one byte is that byte. -/
theorem head_of_encode {b : UInt8} {tail text : List UInt8} {c : Char}
    (h : b :: tail = String.utf8EncodeChar c ++ text) (hc : c.toNat < 128) :
    b = UInt8.ofNat c.toNat := by
  rw [utf8EncodeChar_of_lt hc] at h
  exact (List.cons.inj h).1

theorem chars_of_readChars {fuel : Nat} {cs : List Char}
    (h : readChars fuel bytes = .ok (cs, rest)) :
    ∃ text, bytes = text ++ 0x22 :: rest ∧ Chars text cs := by
  induction fuel generalizing bytes cs with
  | zero => cases h
  | succ fuel ih =>
    cases bytes with
    | nil => cases h
    | cons b tail =>
      unfold readChars at h
      split at h
      · -- the end
        rename_i hb
        cases h
        exact ⟨[], by rw [hb]; rfl, .nil⟩
      · rename_i hquote
        split at h
        · -- an escape
          rename_i hb
          obtain ⟨⟨c, left⟩, hescape, hnext⟩ := exists_of_bind_ok h
          obtain ⟨⟨ds, left'⟩, hchars, hlast⟩ := exists_of_bind_ok hnext
          cases hlast
          obtain ⟨escape, rfl, hfollowed⟩ := chars_of_readEscape hescape
          obtain ⟨text, rfl, htext⟩ := ih hchars
          refine ⟨0x5C :: (escape ++ text), ?_, hfollowed text ds htext⟩
          rw [hb]
          simp
        · rename_i hbackslash
          split at h
          · cases h
          · rename_i hcontrol
            split at h
            · -- a character for itself
              rename_i c left hdecode
              obtain ⟨⟨ds, left'⟩, hchars, hlast⟩ := exists_of_bind_ok h
              cases hlast
              have hbytes := eq_encode_of_decodeChar? hdecode
              obtain ⟨text, rfl, htext⟩ := ih hchars
              refine ⟨String.utf8EncodeChar c ++ text, ?_, .plain ?_ ?_ ?_ htext⟩
              · rw [hbytes, List.append_assoc]
              · by_contra hc
                have hb := head_of_encode hbytes (by omega)
                apply hcontrol
                rw [hb, toNat_ofNat_of_lt (by omega)]
                omega
              · rintro rfl
                exact hquote (head_of_encode hbytes (by decide))
              · rintro rfl
                exact hbackslash (head_of_encode hbytes (by decide))
            · split at h
              · split at h <;> cases h
              · cases h

theorem chars_of_readString {s : String} (h : readString bytes = .ok (s, rest)) :
    ∃ text cs, bytes = text ++ 0x22 :: rest ∧ Chars text cs ∧ s = String.ofList cs := by
  unfold readString at h
  obtain ⟨⟨cs, left⟩, hchars, hlast⟩ := exists_of_bind_ok h
  cases hlast
  obtain ⟨text, hbytes, htext⟩ := chars_of_readChars hchars
  exact ⟨text, cs, hbytes, htext, rfl⟩

/-! ### Values -/

/-- A reader of items takes nothing but items, with white space in front of them. -/
def Sound {α : Type} (item : List UInt8 → α → Prop) (read : Reader α) : Prop :=
  ∀ bytes x rest, read bytes = .ok (x, rest) →
    ∃ ws text, Space ws ∧ item text x ∧ bytes = ws ++ (text ++ rest)

/-- White space in front of items belongs to the first of them. -/
theorem Items.space {α : Type} {item : List UInt8 → α → Prop} {ws text : List UInt8} {xs : List α}
    (hws : Space ws) (h : Items item text xs) : Items item (ws ++ text) xs := by
  have hpad {a : List UInt8} (ha : Space a) : Space (ws ++ a) := by
    intro b hb
    rcases List.mem_append.mp hb with hb | hb
    · exact hws b hb
    · exact ha b hb
  cases h with
  | last ha hx hz =>
    rw [← List.append_assoc]
    exact .last (hpad ha) hx hz
  | more ha hx hz hxs =>
    rw [← List.append_assoc]
    exact .more (hpad ha) hx hz hxs

/-- What is read in rounds is a series of items. -/
theorem Series.items {α : Type} {item : List UInt8 → α → Prop} {read : Reader α} {close : UInt8}
    {readAll : Nat → Reader (List α)} (hseries : Series read close readAll)
    (hread : Sound item read) {fuel : Nat} {xs : List α}
    (h : readAll fuel bytes = .ok (xs, rest)) :
    ∃ text, Items item text xs ∧ bytes = text ++ close :: rest := by
  induction fuel generalizing bytes xs with
  | zero => exact absurd h (hseries.zero bytes _)
  | succ fuel ih =>
    rcases (hseries.succ fuel bytes xs rest).mp h with ⟨hx, hz⟩ | ⟨hx, hz, ha, -, -, hrest⟩
    · obtain ⟨ws, text, hws, htext, rfl⟩ := hread _ _ _ hx
      exact ⟨_, .last hws htext hz, by simp⟩
    · obtain ⟨ws, text, hws, htext, rfl⟩ := hread _ _ _ hx
      obtain ⟨text', htext', hbytes⟩ := ih hrest
      refine ⟨_, .more hws htext hz (htext'.space ha), ?_⟩
      rw [hbytes]
      simp

section items

variable {item : List UInt8 → Value → Prop} {read : Reader Value}

theorem sound_readField (hread : Sound item read) : Sound (Field item) (readField read) := by
  intro bytes f rest h
  unfold readField at h
  split at h
  · cases h
  · rename_i b tail
    split at h
    · cases h
    · rename_i hb
      obtain ⟨⟨name, left⟩, hname, hnext⟩ := exists_of_bind_ok h
      obtain ⟨text, cs, rfl, hcs, rfl⟩ := chars_of_readString hname
      obtain ⟨ws, hws, hleft⟩ := exists_space left
      dsimp only at hnext
      split at hnext
      · cases hnext
      · rename_i c behind hskip
        rw [hskip] at hleft
        split at hnext
        · cases hnext
        · rename_i hc
          obtain ⟨⟨v, left'⟩, hitem, hlast⟩ := exists_of_bind_ok hnext
          cases hlast
          obtain ⟨ws', value, hws', hvalue, rfl⟩ := hread _ _ _ hitem
          refine ⟨[], _, space_nil, .mk hcs hws hws' hvalue, ?_⟩
          rw [not_not.mp hb, hleft, not_not.mp hc]
          simp

theorem nested_of_readList (hread : Sound item read) {v : Value}
    (h : readList read bytes = .ok (v, rest)) :
    ∃ text, Nested item text v ∧ 0x5B :: bytes = text ++ rest := by
  obtain ⟨ws, hws, hbytes⟩ := exists_space bytes
  unfold readList at h
  split at h
  · cases h
  · rename_i b tail hskip
    rw [hskip] at hbytes
    split at h
    · rename_i hb
      cases h
      refine ⟨_, .emptyList hws, ?_⟩
      rw [hbytes, hb]
      simp
    · obtain ⟨⟨vs, left⟩, hitems, hlast⟩ := exists_of_bind_ok h
      cases hlast
      obtain ⟨text, htext, hleft⟩ := (series_items read).items hread hitems
      refine ⟨_, .list (htext.space hws), ?_⟩
      rw [hbytes, hleft]
      simp

theorem nested_of_readObject (hread : Sound item read) {v : Value}
    (h : readObject read bytes = .ok (v, rest)) :
    ∃ text, Nested item text v ∧ 0x7B :: bytes = text ++ rest := by
  obtain ⟨ws, hws, hbytes⟩ := exists_space bytes
  unfold readObject at h
  split at h
  · cases h
  · rename_i b tail hskip
    rw [hskip] at hbytes
    split at h
    · rename_i hb
      cases h
      refine ⟨_, .emptyObject hws, ?_⟩
      rw [hbytes, hb]
      simp
    · obtain ⟨⟨fs, left⟩, hfields, hlast⟩ := exists_of_bind_ok h
      cases hlast
      obtain ⟨text, htext, hleft⟩ := (series_fields read).items (sound_readField hread) hfields
      refine ⟨_, .object (htext.space hws) (Keyed.latest_ofList fs), ?_⟩
      rw [hbytes, hleft]
      simp

end items

theorem scalar_of_readScalar {v : Value} (h : readScalar bytes = .ok (v, rest)) :
    ∃ text, Scalar AnyLiteral text v ∧ bytes = text ++ rest := by
  unfold readScalar at h
  split at h
  · cases h
  · rename_i b tail
    split at h
    · rename_i hb
      obtain ⟨rfl, rfl⟩ := eq_of_readLiteral h
      exact ⟨_, .null, by rw [hb]; rfl⟩
    · split at h
      · rename_i hb
        obtain ⟨rfl, rfl⟩ := eq_of_readLiteral h
        exact ⟨_, .true, by rw [hb]; rfl⟩
      · split at h
        · rename_i hb
          obtain ⟨rfl, rfl⟩ := eq_of_readLiteral h
          exact ⟨_, .false, by rw [hb]; rfl⟩
        · split at h
          · -- a string
            rename_i hb
            rcases hs : readString tail with f | ⟨s, left⟩
            · rw [hs] at h
              cases h
            · rw [hs] at h
              cases h
              obtain ⟨text, cs, rfl, hcs, rfl⟩ := chars_of_readString hs
              refine ⟨_, .string hcs, ?_⟩
              rw [hb]
              simp
          · split at h
            · -- a number with a sign
              rename_i hb
              rcases hn : readUnsigned true tail with f | ⟨n, left⟩
              · rw [hn] at h
                cases h
              · rw [hn] at h
                cases h
                obtain ⟨text, htext, rfl⟩ := literal_of_readUnsigned hn
                refine ⟨_, .number htext, ?_⟩
                rw [hb]
                rfl
            · split at h
              · rcases hn : readUnsigned false (b :: tail) with f | ⟨n, left⟩
                · rw [hn] at h
                  cases h
                · rw [hn] at h
                  cases h
                  obtain ⟨text, htext, hbytes⟩ := literal_of_readUnsigned hn
                  exact ⟨_, .number htext, hbytes⟩
              · cases h

/-- The reader of values takes nothing but values. -/
theorem sound_readValue (depth : Nat) : Sound (Written AnyLiteral depth) (readValue depth) := by
  induction depth with
  | zero =>
    intro bytes v rest h
    obtain ⟨ws, hws, hbytes⟩ := exists_space bytes
    unfold readValue at h
    split at h
    · rename_i b tail hskip
      rw [hskip] at hbytes
      split at h
      · cases h
      · obtain ⟨text, htext, htail⟩ := scalar_of_readScalar h
        exact ⟨ws, text, hws, htext, by rw [hbytes, htail]⟩
    · cases h
  | succ depth ih =>
    intro bytes v rest h
    obtain ⟨ws, hws, hbytes⟩ := exists_space bytes
    unfold readValue at h
    split at h
    · rename_i b tail hskip
      rw [hskip] at hbytes
      split at h
      · rename_i hb
        obtain ⟨text, htext, htail⟩ := nested_of_readList ih h
        exact ⟨ws, text, hws, .inr htext, by rw [hbytes, hb, htail]⟩
      · split at h
        · rename_i hb
          obtain ⟨text, htext, htail⟩ := nested_of_readObject ih h
          exact ⟨ws, text, hws, .inr htext, by rw [hbytes, hb, htail]⟩
        · obtain ⟨text, htext, htail⟩ := scalar_of_readScalar h
          exact ⟨ws, text, hws, .inl htext, by rw [hbytes, htail]⟩
    · cases h

/-- What is read is a text. -/
theorem isText_of_parse {v : Value} (h : parse bytes = .ok v) :
    IsText AnyLiteral depthLimit bytes v := by
  unfold parse at h
  split at h
  · cases h
  · rename_i u left hread
    obtain ⟨ws, text, hws, htext, hbytes⟩ := sound_readValue depthLimit _ _ _ hread
    obtain ⟨ws', hws', hleft⟩ := exists_space left
    split at h
    · rename_i hskip
      cases h
      rw [hskip, List.append_nil] at hleft
      exact ⟨ws, text, ws', by rw [hbytes, hleft], hws, hws', htext⟩
    · cases h

end CacheWarden.Json
