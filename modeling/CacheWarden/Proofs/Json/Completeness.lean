import CacheWarden.Proofs.Json.Soundness
/-!
What is in the grammar is read.

A text of a value whose numbers are integers of 64 bits is read as that value, in front
of whatever may stand behind a value (`complete_readValue`).  Only the end of a number
is told by what comes next, so only there it matters; strings, lists and objects end by
themselves.  With soundness, the grammar with these numbers is exactly what is read
(`parse_of_isText`).
-/

namespace CacheWarden.Json

open Text

/-- The next byte may stand behind a value: white space, a comma, or a closing bracket or brace. -/
def Ends (rest : List UInt8) : Prop :=
  ∀ b ∈ rest.head?, isSpace b = true ∨ b = 0x2C ∨ b = 0x5D ∨ b = 0x7D

theorem ends_nil : Ends [] := fun _ h => by cases h

theorem ends_cons {b : UInt8} (h : b = 0x2C ∨ b = 0x5D ∨ b = 0x7D) (rest : List UInt8) :
    Ends (b :: rest) := by
  intro c hc
  cases hc
  exact .inr h

/-- White space may stand behind a value. -/
theorem Ends.space {ws rest : List UInt8} (hws : Space ws) (h : Ends rest) : Ends (ws ++ rest) := by
  cases ws with
  | nil => exact h
  | cons b ws =>
    intro c hc
    cases hc
    exact .inl (isSpace_iff.mpr (hws b List.mem_cons_self))

/-! ### Numbers -/

theorem Ends.noDigit {rest : List UInt8} (h : Ends rest) : NoDigit rest := by
  intro b hb
  rcases h b hb with hspace | rfl | rfl | rfl
  · rcases isSpace_iff.mp hspace with rfl | rfl | rfl | rfl <;> rfl
  all_goals rfl

theorem readWhole_of_ends {rest : List UInt8} (h : Ends rest) (negative : Bool) (n : Nat) :
    readWhole negative n rest = .ok (wholeNumber negative n, rest) := by
  cases rest with
  | nil => rfl
  | cons b rest =>
    -- neither a point nor the letter of a power ends a value
    have hne {c : UInt8} (hc : Ends [c] → False) : b ≠ c := by
      rintro rfl
      exact hc h
    have hpoint : b ≠ 0x2E := hne fun h => absurd (h _ rfl) (by decide)
    have hlower : b ≠ 0x65 := hne fun h => absurd (h _ rfl) (by decide)
    have hupper : b ≠ 0x45 := hne fun h => absurd (h _ rfl) (by decide)
    unfold readWhole
    dsimp only
    rw [if_neg hpoint, if_neg (not_or.mpr ⟨hlower, hupper⟩)]

theorem digit?_ofNat {d : Nat} (h : d < 10) : digit? (UInt8.ofNat (0x30 + d)) = some d :=
  digit?_eq_some_iff.mpr ⟨h, rfl⟩

/-- Digits are read to their end while the number has 64 bits. -/
theorem readDigits_append {ds : List Nat} (hds : ∀ d ∈ ds, d < 10) {n : Nat}
    (hle : place 10 n ds ≤ 18446744073709551615) (negative : Bool) {rest : List UInt8}
    (hrest : NoDigit rest) :
    readDigits negative n (digitsText ds ++ rest) = readWhole negative (place 10 n ds) rest := by
  induction ds generalizing n with
  | nil =>
    cases rest with
    | nil => rfl
    | cons b rest =>
      show readDigits negative n (b :: rest) = readWhole negative n (b :: rest)
      have hb : digit? b = none := hrest b rfl
      unfold readDigits
      simp only [hb]
  | cons d ds ih =>
    obtain ⟨hd, hds'⟩ := List.forall_mem_cons.mp hds
    rw [place_cons] at hle
    have hroom : overflows n d = false := by
      have hmono : n * 10 + d ≤ place 10 (n * 10 + d) ds := le_place (by decide) _ ds
      simp only [overflows, decide_eq_false_iff_not, not_lt]
      omega
    rw [digitsText_cons, List.cons_append]
    unfold readDigits
    simp only [digit?_ofNat hd, hroom, Bool.false_eq_true, if_false]
    exact ih hds' hle

/-- A whole number of 64 bits is read. -/
theorem readUnsigned_append {ds : List Nat} (hds : Whole ds)
    (hle : place 10 0 ds ≤ 18446744073709551615) (negative : Bool) {rest : List UInt8}
    (hrest : Ends rest) :
    readUnsigned negative (digitsText ds ++ rest) =
      .ok (wholeNumber negative (place 10 0 ds), rest) := by
  cases ds with
  | nil => exact absurd rfl hds.nonempty
  | cons d ds =>
    obtain ⟨hd, hds'⟩ := List.forall_mem_cons.mp hds.decimal
    rw [digitsText_cons, List.cons_append]
    unfold readUnsigned
    dsimp only
    rw [digit?_ofNat hd]
    cases d with
    | zero =>
      -- a leading zero stands alone
      obtain ⟨-, rfl⟩ := List.cons.inj (hds.leading rfl)
      show _ = Except.ok (wholeNumber negative 0, rest)
      rw [← readWhole_of_ends hrest]
      cases rest with
      | nil => rfl
      | cons b rest =>
        have hb : digit? b = none := hrest.noDigit b rfl
        simp [hb]
    | succ d =>
      rw [place_cons, Nat.zero_mul, Nat.zero_add] at hle ⊢
      rw [← readWhole_of_ends hrest]
      exact readDigits_append hds' hle negative hrest.noDigit

/-! ### Strings -/

theorem readPair_append {v : List UInt8} {n : Nat} (hv : CodeUnit v n)
    (hn : 0xDC00 ≤ n ∧ n ≤ 0xDFFF) (lead : Nat) (rest : List UInt8) :
    readPair lead (0x5C :: 0x75 :: (v ++ rest)) =
      .ok (Char.ofNat (0x10000 + (lead - 0xD800) * 0x400 + (n - 0xDC00)), rest) := by
  have htrail : isTrailing n = true := by simp [isTrailing, hn]
  unfold readPair
  dsimp only
  rw [if_neg (by decide), if_neg (by decide), readUnit_append hv]
  exact if_pos htrail

theorem readEscape_short {b : UInt8} {c : Char} (h : (b, c) ∈ shortEscapes) (rest : List UInt8) :
    readEscape (b :: rest) = .ok (c, rest) := by
  simp only [shortEscapes, List.mem_cons, Prod.mk.injEq, List.not_mem_nil, or_false] at h
  rcases h with ⟨rfl, rfl⟩ | ⟨rfl, rfl⟩ | ⟨rfl, rfl⟩ | ⟨rfl, rfl⟩ | ⟨rfl, rfl⟩ | ⟨rfl, rfl⟩ |
    ⟨rfl, rfl⟩ | ⟨rfl, rfl⟩ <;> rfl

theorem readEscape_unit (bytes : List UInt8) :
    readEscape (0x75 :: bytes) = readCodeUnit bytes := rfl

theorem readCodeUnit_append {u : List UInt8} {n : Nat} (hu : CodeUnit u n)
    (hn : ¬(0xD800 ≤ n ∧ n ≤ 0xDFFF)) (rest : List UInt8) :
    readCodeUnit (u ++ rest) = .ok (Char.ofNat n, rest) := by
  have htrail : ¬isTrailing n = true := by
    simp only [isTrailing, Bool.and_eq_true, decide_eq_true_eq]
    omega
  have hlead : ¬isLeading n = true := by
    simp only [isLeading, Bool.and_eq_true, decide_eq_true_eq]
    omega
  unfold readCodeUnit
  rw [readUnit_append hu]
  show (if isTrailing n then _ else _) = _
  rw [if_neg htrail, if_neg hlead]
  rfl

theorem readCodeUnit_pair {u v : List UInt8} {m n : Nat} (hu : CodeUnit u m)
    (hm : 0xD800 ≤ m ∧ m ≤ 0xDBFF) (hv : CodeUnit v n) (hn : 0xDC00 ≤ n ∧ n ≤ 0xDFFF)
    (rest : List UInt8) :
    readCodeUnit (u ++ 0x5C :: 0x75 :: (v ++ rest)) =
      .ok (Char.ofNat (0x10000 + (m - 0xD800) * 0x400 + (n - 0xDC00)), rest) := by
  have htrail : ¬isTrailing m = true := by
    simp only [isTrailing, Bool.and_eq_true, decide_eq_true_eq]
    omega
  have hlead : isLeading m = true := by simp [isLeading, hm]
  unfold readCodeUnit
  rw [readUnit_append hu]
  show (if isTrailing m then _ else _) = _
  rw [if_neg htrail, if_pos hlead, readPair_append hv hn]

theorem readChars_escape {fuel : Nat} {bytes left rest : List UInt8} {c : Char} {cs : List Char}
    (hc : readEscape bytes = .ok (c, left)) (hcs : readChars fuel left = .ok (cs, rest)) :
    readChars (fuel + 1) (0x5C :: bytes) = .ok (c :: cs, rest) := by
  unfold readChars
  rw [if_neg (by decide), if_pos rfl, hc]
  simp only [bind, Except.bind, hcs]
  rfl

theorem readChars_plain {fuel : Nat} {left rest : List UInt8} {c : Char} {cs : List Char}
    (hcontrol : 0x20 ≤ c.toNat) (hquote : c ≠ '"') (hbackslash : c ≠ '\\')
    (hcs : readChars fuel left = .ok (cs, rest)) :
    readChars (fuel + 1) (String.utf8EncodeChar c ++ left) = .ok (c :: cs, rest) := by
  have hdecode := decodeChar?_encode c left
  rcases hbytes : String.utf8EncodeChar c ++ left with - | ⟨b, tail⟩
  · rw [hbytes] at hdecode
    cases hdecode
  · rw [hbytes] at hdecode
    -- a byte that is a character by itself starts no other
    have hfirst {d : Char} (hd : d.toNat < 128) (hb : b.toNat = d.toNat) : c = d := by
      have hother := decodeChar?_one (b := b) (c := d) tail (by omega) hb.symm
      rw [hdecode] at hother
      exact (Prod.mk.inj (Option.some.inj hother)).1
    have hb22 : b ≠ 0x22 := by
      rintro rfl
      exact hquote (hfirst (by decide) rfl)
    have hb5C : b ≠ 0x5C := by
      rintro rfl
      exact hbackslash (hfirst (by decide) rfl)
    have hb20 : ¬b.toNat < 0x20 := by
      intro hlt
      have htoNat : (Char.ofNat b.toNat).toNat = b.toNat := by
        rw [Char.toNat_ofNat, if_pos (.inl (by omega))]
      have hcb := hfirst (by omega) htoNat.symm
      rw [hcb, htoNat] at hcontrol
      omega
    unfold readChars
    rw [if_neg hb22, if_neg hb5C, if_neg hb20, hdecode]
    simp only [bind, Except.bind, hcs]
    rfl

/-- The inside of a string is read up to the quote behind it. -/
theorem readChars_append {text : List UInt8} {cs : List Char} (h : Chars text cs) {fuel : Nat}
    (hfuel : cs.length < fuel) (rest : List UInt8) :
    readChars fuel (text ++ 0x22 :: rest) = .ok (cs, rest) := by
  induction fuel generalizing text cs with
  | zero => exact absurd hfuel (Nat.not_lt_zero _)
  | succ fuel ih =>
    cases h with
    | nil => rfl
    | plain hcontrol hquote hbackslash hcs =>
      rw [List.append_assoc]
      exact readChars_plain hcontrol hquote hbackslash (ih hcs (Nat.lt_of_succ_lt_succ hfuel))
    | escape hshort hcs =>
      exact readChars_escape (readEscape_short hshort _) (ih hcs (Nat.lt_of_succ_lt_succ hfuel))
    | unit hu hn hcs =>
      simp only [List.cons_append, List.append_assoc]
      refine readChars_escape ?_ (ih hcs (Nat.lt_of_succ_lt_succ hfuel))
      rw [readEscape_unit, readCodeUnit_append hu hn]
    | pair hu hm hv hn hcs =>
      simp only [List.cons_append, List.append_assoc]
      refine readChars_escape ?_ (ih hcs (Nat.lt_of_succ_lt_succ hfuel))
      rw [readEscape_unit, readCodeUnit_pair hu hm hv hn]

/-- A character of a string takes at least a byte. -/
theorem Chars.length_le {text : List UInt8} {cs : List Char} (h : Chars text cs) :
    cs.length ≤ text.length := by
  induction h with
  | nil => exact Nat.le_refl 0
  | @plain c bs cs _ _ _ _ ih =>
    have hpos : 0 < (String.utf8EncodeChar c).length :=
      String.length_utf8EncodeChar c ▸ c.utf8Size_pos
    simp only [List.length_cons, List.length_append]
    omega
  | escape _ _ ih =>
    simp only [List.length_cons]
    omega
  | unit _ _ _ ih =>
    simp only [List.length_cons, List.length_append]
    omega
  | pair _ _ _ _ _ ih =>
    simp only [List.length_cons, List.length_append]
    omega

theorem readString_append {text : List UInt8} {cs : List Char} (h : Chars text cs)
    (rest : List UInt8) :
    readString (text ++ 0x22 :: rest) = .ok (String.ofList cs, rest) := by
  have hfuel : cs.length < (text ++ 0x22 :: rest).length + 1 := by
    have hle := h.length_le
    simp only [List.length_append]
    omega
  unfold readString
  rw [readChars_append h hfuel]
  rfl

/-! ### Values -/

/-- A reader of items takes every item, in front of what may stand behind a value. -/
def Complete {α : Type} (item : List UInt8 → α → Prop) (read : Reader α) : Prop :=
  ∀ text x rest, item text x → Ends rest → read (text ++ rest) = .ok (x, rest)

/-- The first byte is neither white space nor a closing bracket or brace. -/
def Starts (text : List UInt8) : Prop :=
  ∃ b tail, text = b :: tail ∧ isSpace b = false ∧ b ≠ 0x5D ∧ b ≠ 0x7D

theorem Starts.cons {b : UInt8} {tail : List UInt8}
    (h : isSpace b = false ∧ b ≠ 0x5D ∧ b ≠ 0x7D) : Starts (b :: tail) :=
  ⟨b, tail, rfl, h⟩

/-- Things with commas between them are fewer than bytes, but for the last one. -/
theorem Items.length_le {α : Type} {item : List UInt8 → α → Prop} {text : List UInt8} {xs : List α}
    (h : Items item text xs) : xs.length ≤ text.length + 1 := by
  induction h with
  | last => simp
  | more _ _ _ _ ih =>
    simp only [List.length_cons, List.length_append]
    omega

/-- A series of items is read in rounds, from the first of them on. -/
theorem Series.append {α : Type} {item : List UInt8 → α → Prop} {read : Reader α} {close : UInt8}
    {readAll : Nat → Reader (List α)} (hseries : Series read close readAll)
    (hclose : close = 0x5D ∨ close = 0x7D) (hread : Complete item read)
    (hstarts : ∀ text x, item text x → Starts text) {text : List UInt8} {xs : List α}
    (h : Items item text xs) {fuel : Nat} (hfuel : xs.length ≤ fuel) (rest : List UInt8) :
    ∃ a c tail, text ++ close :: rest = a ++ c :: tail ∧ Space a ∧ isSpace c = false ∧ c ≠ close ∧
      readAll fuel (c :: tail) = .ok (xs, rest) := by
  -- the first byte of an item is not the closing one
  have hfirst {b : UInt8} (hb : b ≠ 0x5D ∧ b ≠ 0x7D) : b ≠ close := by
    rcases hclose with rfl | rfl
    · exact hb.1
    · exact hb.2
  induction h generalizing fuel with
  | @last a bs z x ha hx hz =>
    obtain ⟨c, tail, rfl, hc, hb⟩ := hstarts bs x hx
    obtain ⟨fuel, rfl⟩ := Nat.exists_eq_succ_of_ne_zero (Nat.ne_zero_of_lt hfuel)
    refine ⟨a, c, tail ++ (z ++ close :: rest), by simp, ha, hc, hfirst hb, ?_⟩
    apply (hseries.succ _ _ _ _).mpr
    exact .last (hread (c :: tail) x _ hx ((ends_cons (.inr hclose) rest).space hz)) hz
  | @more a bs z text x xs ha hx hz hxs ih =>
    obtain ⟨c, tail, rfl, hc, hb⟩ := hstarts bs x hx
    obtain ⟨fuel, rfl⟩ := Nat.exists_eq_succ_of_ne_zero (Nat.ne_zero_of_lt hfuel)
    obtain ⟨a', c', tail', hnext, ha', hc', hne', hall⟩ := ih (Nat.le_of_succ_le_succ hfuel)
    refine ⟨a, c, tail ++ (z ++ 0x2C :: (a' ++ c' :: tail')), ?_, ha, hc, hfirst hb, ?_⟩
    · rw [← hnext]
      simp
    · apply (hseries.succ _ _ _ _).mpr
      exact .more (hread (c :: tail) x _ hx ((ends_cons (.inl rfl) _).space hz)) hz ha' hc' hne'
        hall

section nested

variable {item : List UInt8 → Value → Prop} {read : Reader Value}

theorem readList_append (hread : Complete item read) (hstarts : ∀ text v, item text v → Starts text)
    {text : List UInt8} {vs : List Value} (h : Items item text vs) (rest : List UInt8) :
    readList read (text ++ 0x5D :: rest) = .ok (.list vs, rest) := by
  have hfuel : vs.length ≤ (text ++ 0x5D :: rest).length + 1 := by
    have hle := h.length_le
    simp only [List.length_append]
    omega
  obtain ⟨a, c, tail, hbytes, ha, hc, hne, hall⟩ :=
    (series_items read).append (.inl rfl) hread hstarts h hfuel rest
  rw [hbytes] at hall ⊢
  unfold readList
  rw [skipSpace_append_cons ha hc]
  dsimp only
  rw [if_neg hne, hall]
  rfl

theorem complete_readField (hread : Complete item read)
    (hspace : ∀ ws bytes, Space ws → read (ws ++ bytes) = read bytes) :
    Complete (Field item) (readField read) := by
  rintro _ _ rest ⟨hname, ha, hz, hv⟩ hrest
  rename_i name a z bs cs v
  show readField read (0x22 :: ((name ++ 0x22 :: (a ++ 0x3A :: (z ++ bs))) ++ rest)) = _
  simp only [List.append_assoc, List.cons_append]
  unfold readField
  dsimp only
  rw [if_neg (by decide), readString_append hname]
  simp only [bind, Except.bind]
  rw [skipSpace_append_cons ha (by decide)]
  dsimp only
  rw [if_neg (by decide), hspace z _ hz, hread bs v rest hv hrest]
  rfl

theorem Field.starts {text : List UInt8} {f : String × Value} (h : Field item text f) :
    Starts text := by
  cases h
  exact .cons (by decide)

theorem readObject_append (hread : Complete item read)
    (hspace : ∀ ws bytes, Space ws → read (ws ++ bytes) = read bytes)
    {text : List UInt8} {fs : List (String × Value)} (h : Items (Field item) text fs)
    (rest : List UInt8) :
    readObject read (text ++ 0x7D :: rest) = .ok (.object (Keyed.ofList fs), rest) := by
  have hfuel : fs.length ≤ (text ++ 0x7D :: rest).length + 1 := by
    have hle := h.length_le
    simp only [List.length_append]
    omega
  obtain ⟨a, c, tail, hbytes, ha, hc, hne, hall⟩ :=
    (series_fields read).append (.inr rfl) (complete_readField hread hspace)
      (fun _ _ => Field.starts) h hfuel rest
  rw [hbytes] at hall ⊢
  unfold readObject
  rw [skipSpace_append_cons ha hc]
  dsimp only
  rw [if_neg hne, hall]
  rfl

end nested

/-- A byte that is a digit is none that is not. -/
theorem ne_of_digit? {b c : UInt8} (hb : (digit? b).isSome) (hc : digit? c = none) : b ≠ c := by
  rintro rfl
  rw [hc] at hb
  cases hb

/-- A scalar is told from a list and from an object by its first byte. -/
theorem starts_of_scalar {text : List UInt8} {v : Value} (h : Scalar ExactLiteral text v) :
    ∃ b tail, text = b :: tail ∧ isSpace b = false ∧ b ≠ 0x5D ∧ b ≠ 0x7D ∧ b ≠ 0x5B ∧ b ≠ 0x7B := by
  cases h with
  | null => exact ⟨_, _, rfl, by decide⟩
  | true => exact ⟨_, _, rfl, by decide⟩
  | false => exact ⟨_, _, rfl, by decide⟩
  | string => exact ⟨_, _, rfl, by decide⟩
  | number h =>
    obtain ⟨negative, ds, hds, rfl, -⟩ := h
    cases negative with
    | true => exact ⟨_, _, rfl, by decide⟩
    | false =>
      cases ds with
      | nil => exact absurd rfl hds.nonempty
      | cons d ds =>
        have hd := (List.forall_mem_cons.mp hds.decimal).1
        interval_cases d <;> exact ⟨_, _, rfl, by decide⟩

theorem readScalar_append {text : List UInt8} {v : Value} (h : Scalar ExactLiteral text v)
    {rest : List UInt8} (hrest : Ends rest) : readScalar (text ++ rest) = .ok (v, rest) := by
  cases h with
  | null => exact readLiteral_append .null [0x75, 0x6C, 0x6C] rest
  | true => exact readLiteral_append (.bool true) [0x72, 0x75, 0x65] rest
  | false => exact readLiteral_append (.bool false) [0x61, 0x6C, 0x73, 0x65] rest
  | @string bs cs hcs =>
    show (readString ((bs ++ [0x22]) ++ rest)).map _ = _
    rw [List.append_assoc, List.singleton_append, readString_append hcs]
    rfl
  | number h =>
    obtain ⟨negative, ds, hds, rfl, hzero, hword, rfl⟩ := h
    have hread := readUnsigned_append hds (le_of_isWord hword) negative hrest
    rw [wholeNumber_eq hzero hword] at hread
    cases negative with
    | true =>
      show (readUnsigned true (digitsText ds ++ rest)).map _ = _
      rw [hread]
      rfl
    | false =>
      cases ds with
      | nil => exact absurd rfl hds.nonempty
      | cons d ds =>
        have hb : (digit? (UInt8.ofNat (0x30 + d))).isSome := by
          rw [digit?_ofNat (List.forall_mem_cons.mp hds.decimal).1]
          rfl
        show readScalar (UInt8.ofNat (0x30 + d) :: (digitsText ds ++ rest)) = _
        unfold readScalar
        dsimp only
        rw [if_neg (ne_of_digit? hb (by decide)), if_neg (ne_of_digit? hb (by decide)),
          if_neg (ne_of_digit? hb (by decide)), if_neg (ne_of_digit? hb (by decide)),
          if_neg (ne_of_digit? hb (by decide)), if_pos hb]
        show (readUnsigned false (digitsText (d :: ds) ++ rest)).map _ = _
        rw [hread]
        rfl

/-- White space in front of a value is skipped. -/
theorem readValue_space (depth : Nat) (ws bytes : List UInt8) (hws : Space ws) :
    readValue depth (ws ++ bytes) = readValue depth bytes := by
  cases depth <;> unfold readValue <;> rw [skipSpace_append hws]

theorem readValue_scalar {text : List UInt8} {v : Value} (h : Scalar ExactLiteral text v)
    {rest : List UInt8} (hrest : Ends rest) (depth : Nat) :
    readValue depth (text ++ rest) = .ok (v, rest) := by
  have hread := readScalar_append h hrest
  obtain ⟨b, tail, rfl, hspace, -, -, hbracket, hbrace⟩ := starts_of_scalar h
  rw [List.cons_append] at hread ⊢
  cases depth with
  | zero =>
    unfold readValue
    rw [skipSpace_cons hspace]
    dsimp only
    rw [if_neg (not_or.mpr ⟨hbracket, hbrace⟩), hread]
  | succ depth =>
    unfold readValue
    rw [skipSpace_cons hspace]
    dsimp only
    rw [if_neg hbracket, if_neg hbrace, hread]

theorem starts_of_written {depth : Nat} {text : List UInt8} {v : Value}
    (h : Written ExactLiteral depth text v) : Starts text := by
  have hscalar (h : Scalar ExactLiteral text v) : Starts text := by
    obtain ⟨b, tail, rfl, hspace, hbracket, hbrace, -⟩ := starts_of_scalar h
    exact .cons ⟨hspace, hbracket, hbrace⟩
  cases depth with
  | zero => exact hscalar h
  | succ depth =>
    rcases h with h | h
    · exact hscalar h
    · cases h <;> exact .cons (by decide)

/-- The reader of values takes every value. -/
theorem complete_readValue (depth : Nat) :
    Complete (Written ExactLiteral depth) (readValue depth) := by
  induction depth with
  | zero => exact fun text v rest h hrest => readValue_scalar h hrest 0
  | succ depth ih =>
    rintro text v rest (h | h) hrest
    · exact readValue_scalar h hrest _
    · cases h with
      | @emptyList ws hws =>
        show readList _ ((ws ++ [0x5D]) ++ rest) = _
        unfold readList
        rw [List.append_assoc, List.singleton_append, skipSpace_append_cons hws (by decide)]
        rfl
      | @list bs vs hvs =>
        show readList _ ((bs ++ [0x5D]) ++ rest) = _
        rw [List.append_assoc, List.singleton_append,
          readList_append ih (fun _ _ => starts_of_written) hvs]
      | @emptyObject ws hws =>
        show readObject _ ((ws ++ [0x7D]) ++ rest) = _
        unfold readObject
        rw [List.append_assoc, List.singleton_append, skipSpace_append_cons hws (by decide)]
        rfl
      | @object bs fs m hfs hm =>
        show readObject _ ((bs ++ [0x7D]) ++ rest) = _
        rw [List.append_assoc, List.singleton_append,
          readObject_append ih (readValue_space depth) hfs, hm.eq_ofList]

/-- A text is read as what it denotes. -/
theorem parse_of_isText {bytes : List UInt8} {v : Value}
    (h : IsText ExactLiteral depthLimit bytes v) : parse bytes = .ok v := by
  obtain ⟨before, text, behind, rfl, hbefore, hbehind, htext⟩ := h
  have hends : Ends behind := by
    rw [← List.append_nil behind]
    exact ends_nil.space hbehind
  have hskip : skipSpace behind = [] := by
    rw [← List.append_nil behind, skipSpace_append hbehind]
    rfl
  unfold parse
  rw [readValue_space _ _ _ hbefore, complete_readValue depthLimit text v behind htext hends]
  dsimp only
  rw [hskip]

end CacheWarden.Json
