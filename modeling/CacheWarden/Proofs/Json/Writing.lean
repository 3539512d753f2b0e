import CacheWarden.Json.Writer
import CacheWarden.Proofs.Json.Completeness
import CacheWarden.Proofs.Json.Tree
/-!
What is written is read back.

The text of a value whose numbers are integers of 64 bits is in the grammar, without
white space (`written_text`), so it is read back as the value (`parse_text`).  A text that
nests too deep is none that the reader takes: it would be read the same with more depth,
as what was written (`parse_text_deep`).
-/

namespace CacheWarden.Json

open Text

/-! ### Numbers -/

theorem utf8_digits {ds : List Nat} (h : ∀ d ∈ ds, d < 10) :
    utf8 (ds.map digitChar) = digitsText ds := by
  induction ds with
  | nil => rfl
  | cons d ds ih =>
    obtain ⟨hd, hds⟩ := List.forall_mem_cons.mp h
    rw [List.map_cons, utf8_cons, utf8EncodeChar_of_lt (by rw [toNat_digitChar hd]; omega),
      toNat_digitChar hd, ih hds]
    rfl

theorem utf8_decimal (n : Nat) : utf8 (decimal n) = digitsText (bigDigits 10 n) := by
  rw [decimal_eq, utf8_digits fun d hd => lt_of_mem_bigDigits (by decide) hd]

theorem whole_bigDigits (n : Nat) : Whole (bigDigits 10 n) where
  nonempty := bigDigits_ne_nil 10 n
  decimal _ hd := lt_of_mem_bigDigits (by decide) hd
  leading h := by
    rw [eq_zero_of_head?_bigDigits h]
    rfl

/-- An integer of 64 bits is written as a literal of it. -/
theorem exactLiteral_signedDecimal {i : Int} (h : IsWord i) :
    ExactLiteral (utf8 (signedDecimal i)) (.int i) := by
  have hplace (n : Nat) : place 10 0 (bigDigits 10 n) = n := place_bigDigits n
  cases i with
  | ofNat n =>
    refine ⟨false, bigDigits 10 n, whole_bigDigits n, utf8_decimal n, by simp, ?_, ?_⟩
    · rw [hplace]
      exact h
    · rw [hplace]
      rfl
  | negSucc n =>
    refine ⟨true, bigDigits 10 (n + 1), whole_bigDigits (n + 1), ?_, ?_, ?_, ?_⟩
    · show utf8 ('-' :: decimal (n + 1)) = _
      rw [utf8_cons, utf8_decimal]
      rfl
    · rw [hplace]
      exact fun _ => Nat.succ_ne_zero n
    · rw [hplace]
      exact h
    · rw [hplace]
      rfl

/-! ### Strings -/

theorem hexDigit_digitChar {d : Nat} (h : d < 16) :
    ∃ b, String.utf8EncodeChar (digitChar d) = [b] ∧ HexDigit b d := by
  by_cases hd : d < 10
  · refine ⟨UInt8.ofNat (0x30 + d), ?_, .digit hd⟩
    interval_cases d <;> rfl
  · refine ⟨UInt8.ofNat (0x57 + d), ?_, .lower (by omega) h⟩
    interval_cases d <;> rfl

/-- A control character is written by its code unit. -/
theorem chars_control {c : Char} (hc : c.toNat < 0x20) {bs : List UInt8} {cs : List Char}
    (h : Chars bs cs) :
    Chars (utf8 ['\\', 'u', '0', '0', digitChar (c.toNat / 16), digitChar (c.toNat % 16)] ++ bs)
      (c :: cs) := by
  obtain ⟨a, ha, hhigh⟩ := hexDigit_digitChar (d := c.toNat / 16) (by omega)
  obtain ⟨b, hb, hlow⟩ := hexDigit_digitChar (d := c.toNat % 16) (by omega)
  have hzero : HexDigit 0x30 0 := HexDigit.digit (n := 0) (by decide)
  have hvalue : 0 * 4096 + 0 * 256 + c.toNat / 16 * 16 + c.toNat % 16 = c.toNat := by omega
  have hunit := Chars.unit (.mk hzero hzero hhigh hlow) (by omega) h
  rw [hvalue, Char.ofNat_toNat] at hunit
  have htext : utf8 ['\\', 'u', '0', '0', digitChar (c.toNat / 16), digitChar (c.toNat % 16)]
      = [0x5C, 0x75, 0x30, 0x30, a, b] := by
    simp only [utf8, List.flatMap_cons, List.flatMap_nil, ha, hb]
    rfl
  rw [htext]
  exact hunit

/-- A character is written as itself or as an escape of it. -/
theorem chars_escapeChar (c : Char) {bs : List UInt8} {cs : List Char} (h : Chars bs cs) :
    Chars (utf8 (escapeChar c) ++ bs) (c :: cs) := by
  unfold escapeChar
  iterate 7
    split
    · rename_i hc
      rw [hc]
      exact .escape (by decide) h
  split
  · rename_i hc
    exact chars_control hc h
  · rename_i hquote hbackslash _ _ _ _ _ hcontrol
    show Chars ((String.utf8EncodeChar c ++ []) ++ bs) _
    rw [List.append_nil]
    exact .plain (by omega) hquote hbackslash h

theorem chars_escaped (cs : List Char) : Chars (utf8 (cs.flatMap escapeChar)) cs := by
  induction cs with
  | nil => exact .nil
  | cons c cs ih =>
    rw [List.flatMap_cons, utf8_append]
    exact chars_escapeChar c ih

theorem utf8_stringText (s : String) :
    utf8 (stringText s) = 0x22 :: (utf8 (s.toList.flatMap escapeChar) ++ [0x22]) := by
  unfold stringText
  rw [utf8_append, utf8_append]
  rfl

/-! ### Values -/

section items

variable {α : Type} {item : List UInt8 → α → Prop} {textAll : List α → List Char}

/-- Texts with commas between them are a series. -/
theorem items_of_texts (text : α → List Char) (hone : ∀ x, textAll [x] = text x)
    (hmore : ∀ x y xs, textAll (x :: y :: xs) = text x ++ [','] ++ textAll (y :: xs)) {x : α}
    {xs : List α} (h : ∀ y ∈ x :: xs, item (utf8 (text y)) y) :
    Items item (utf8 (textAll (x :: xs))) (x :: xs) := by
  induction xs generalizing x with
  | nil =>
    rw [hone]
    have hlast := Items.last space_nil (h x List.mem_cons_self) space_nil
    rw [List.append_nil] at hlast
    exact hlast
  | cons y xs ih =>
    obtain ⟨hx, hxs⟩ := List.forall_mem_cons.mp h
    rw [hmore, utf8_append, utf8_append, List.append_assoc]
    exact .more space_nil hx space_nil (ih hxs)

end items

/-- A field, as it is written. -/
def fieldText (f : String × Value) : List Char := stringText f.1 ++ [':'] ++ f.2.text

theorem field_of_text {item : List UInt8 → Value → Prop} {f : String × Value}
    (h : item (utf8 f.2.text) f.2) : Field item (utf8 (fieldText f)) f := by
  have hfield := Field.mk (chars_escaped f.1.toList) space_nil space_nil h
  rw [String.ofList_toList] at hfield
  have htext : utf8 (fieldText f) = 0x22 :: (utf8 (f.1.toList.flatMap escapeChar) ++
      0x22 :: ([] ++ 0x3A :: ([] ++ utf8 f.2.text))) := by
    unfold fieldText
    rw [utf8_append, utf8_append, utf8_stringText]
    simp only [List.cons_append, List.append_assoc, List.nil_append]
    rfl
  rw [htext]
  exact hfield

theorem written_of_scalar {number : List UInt8 → Number → Prop} {bs : List UInt8} {v : Value}
    (h : Scalar number bs v) (depth : Nat) : Written number depth bs v := by
  cases depth with
  | zero => exact h
  | succ depth => exact .inl h

/-- A value with integers of 64 bits is written as a text of it. -/
theorem written_text {v : Value} (h : Throughout (fun w => InOrder w ∧ IsWhole w) v) {depth : Nat}
    (hdepth : v.nesting ≤ depth) : Written ExactLiteral depth (utf8 v.text) v := by
  induction h generalizing depth with
  | @mk v hv _ ih =>
    cases v with
    | null => exact written_of_scalar .null depth
    | bool b =>
      cases b with
      | true => exact written_of_scalar .true depth
      | false => exact written_of_scalar .false depth
    | number n =>
      obtain ⟨i, rfl, hi⟩ := hv.2 n rfl
      exact written_of_scalar (.number (exactLiteral_signedDecimal hi)) depth
    | string s =>
      have hstring : Scalar ExactLiteral _ _ := .string (chars_escaped s.toList)
      rw [String.ofList_toList, ← utf8_stringText] at hstring
      exact written_of_scalar hstring depth
    | list items =>
      rw [Value.nesting] at hdepth
      obtain ⟨depth, rfl⟩ := Nat.exists_eq_succ_of_ne_zero (Nat.ne_zero_of_lt hdepth)
      have hinside := itemsNesting_le_iff.mp (Nat.le_of_succ_le_succ hdepth)
      have htext : utf8 (Value.list items).text = 0x5B :: (utf8 (itemsText items) ++ [0x5D]) := by
        rw [Value.text, utf8_append, utf8_append]
        rfl
      rw [htext]
      cases items with
      | nil => exact .inr (.emptyList space_nil)
      | cons v vs =>
        refine .inr (.list (items_of_texts Value.text ?_ ?_ ?_))
        · exact fun x => by rw [itemsText]
        · exact fun x y xs => by rw [itemsText]
        · exact fun w hw => ih w hw (hinside w hw)
    | object fields =>
      rw [Value.nesting] at hdepth
      obtain ⟨depth, rfl⟩ := Nat.exists_eq_succ_of_ne_zero (Nat.ne_zero_of_lt hdepth)
      have hinside := fieldsNesting_le_iff.mp (Nat.le_of_succ_le_succ hdepth)
      have htext : utf8 (Value.object fields).text
          = 0x7B :: (utf8 (fieldsText fields) ++ [0x7D]) := by
        rw [Value.text, utf8_append, utf8_append]
        rfl
      rw [htext]
      cases fields with
      | nil => exact .inr (.emptyObject space_nil)
      | cons f fs =>
        refine .inr (.object (items_of_texts fieldText ?_ ?_ ?_)
          (.of_sorted (hv.1 _ rfl)))
        · exact fun x => by rw [fieldsText, fieldText]
        · exact fun x y xs => by rw [fieldsText, fieldText]
        · exact fun g hg => field_of_text (ih g.2 (List.mem_map_of_mem hg) (hinside g hg))

/-- Values under names, in whatever order they are written, are a text of the object that holds the
last of each name. -/
theorem written_members {f : String × Value} {fs : List (String × Value)} {depth : Nat}
    (h : ∀ g ∈ f :: fs, Written ExactLiteral depth (utf8 g.2.text) g.2) :
    Written ExactLiteral (depth + 1) (utf8 (membersText ((f :: fs).map fun g => (g.1, g.2.text))))
      (.object (Keyed.ofList (f :: fs))) := by
  let textAll (gs : List (String × Value)) : List Char :=
    ((gs.map fieldText).intersperse [',']).flatten
  have hitems :
      Items (Field (Written ExactLiteral depth)) (utf8 (textAll (f :: fs))) (f :: fs) := by
    refine items_of_texts fieldText ?_ ?_ ?_
    · exact fun x => List.append_nil _
    · exact fun x y xs => by simp [textAll]
    · exact fun g hg => field_of_text (h g hg)
  have htext : utf8 (membersText ((f :: fs).map fun g => (g.1, g.2.text)))
      = 0x7B :: (utf8 (textAll (f :: fs)) ++ [0x7D]) := by
    have hfields : ((f :: fs).map fun g => (g.1, g.2.text)).map
        (fun m => stringText m.1 ++ ':' :: m.2) = (f :: fs).map fieldText := by
      simp [fieldText]
    unfold membersText
    dsimp only
    rw [hfields, List.cons_append, utf8_cons, utf8_append]
    rfl
  rw [htext]
  exact .inr (.object hitems (Keyed.latest_ofList _))

/-! ### Depth -/

/-- What one reader takes, the other takes as well. -/
def Within {α : Type} (read read' : Reader α) : Prop :=
  ∀ bytes r, read bytes = .ok r → read' bytes = .ok r

theorem Series.within {α : Type} {read read' : Reader α} {close : UInt8}
    {readAll readAll' : Nat → Reader (List α)} (h : Series read close readAll)
    (h' : Series read' close readAll') (hread : Within read read') (fuel : Nat) :
    Within (readAll fuel) (readAll' fuel) := by
  induction fuel with
  | zero => exact fun bytes r hr => absurd hr (h.zero bytes r)
  | succ fuel ih =>
    rintro bytes ⟨xs, rest⟩ hr
    apply (h'.succ fuel bytes xs rest).mpr
    rcases (h.succ fuel bytes xs rest).mp hr with ⟨hx, hz⟩ | ⟨hx, hz, ha, hc, hne, hrest⟩
    · exact .last (hread _ _ hx) hz
    · exact .more (hread _ _ hx) hz ha hc hne (ih _ _ hrest)

section within

variable {read read' : Reader Value}

theorem within_readField (h : Within read read') : Within (readField read) (readField read') := by
  intro bytes r hr
  unfold readField at hr ⊢
  split at hr
  · cases hr
  · split at hr
    · cases hr
    · rename_i hb
      obtain ⟨⟨name, left⟩, hname, hnext⟩ := exists_of_bind_ok hr
      rw [if_neg hb, hname]
      simp only [bind, Except.bind]
      dsimp only at hnext
      split at hnext
      · cases hnext
      · split at hnext
        · cases hnext
        · rename_i hskip hc
          obtain ⟨r', hitem, hlast⟩ := exists_of_bind_ok hnext
          rw [if_neg hc, h _ _ hitem]
          exact hlast

theorem within_readList (h : Within read read') : Within (readList read) (readList read') := by
  intro bytes r hr
  unfold readList at hr ⊢
  split at hr
  · cases hr
  · split at hr
    · rename_i hb
      rw [if_pos hb, hr]
    · rename_i hb
      obtain ⟨r', hitems, hlast⟩ := exists_of_bind_ok hr
      rw [if_neg hb, (series_items read).within (series_items read') h _ _ _ hitems]
      exact hlast

theorem within_readObject (h : Within read read') :
    Within (readObject read) (readObject read') := by
  intro bytes r hr
  unfold readObject at hr ⊢
  split at hr
  · cases hr
  · split at hr
    · rename_i hb
      rw [if_pos hb, hr]
    · rename_i hb
      obtain ⟨r', hfields, hlast⟩ := exists_of_bind_ok hr
      rw [if_neg hb,
        (series_fields read).within (series_fields read') (within_readField h) _ _ _ hfields]
      exact hlast

end within

/-- With one level more everything is read as before. -/
theorem within_readValue (depth : Nat) : Within (readValue depth) (readValue (depth + 1)) := by
  induction depth with
  | zero =>
    intro bytes r hr
    unfold readValue at hr ⊢
    split at hr
    · split at hr
      · cases hr
      · rename_i hopen
        obtain ⟨hbracket, hbrace⟩ := not_or.mp hopen
        rw [if_neg hbracket, if_neg hbrace, hr]
    · exact hr
  | succ depth ih =>
    intro bytes r hr
    unfold readValue at hr ⊢
    split at hr
    · split at hr
      · rename_i hb
        rw [if_pos hb, within_readList ih _ _ hr]
      · rename_i hbracket
        split at hr
        · rename_i hb
          rw [if_neg hbracket, if_pos hb, within_readObject ih _ _ hr]
        · rename_i hbrace
          rw [if_neg hbracket, if_neg hbrace, hr]
    · exact hr

theorem within_readValue_le {depth depth' : Nat} (h : depth ≤ depth') :
    Within (readValue depth) (readValue depth') := by
  induction h with
  | refl => exact fun _ _ hr => hr
  | step _ ih => exact fun bytes r hr => within_readValue _ bytes r (ih bytes r hr)

/-! ### Reading what is written -/

section text

variable {text : List UInt8} {depth : Nat} {v : Value}

/-- A text in the grammar is read as what it denotes, up to the limit of depth. -/
theorem parse_of_written (h : Written ExactLiteral depthLimit text v) : parse text = .ok v :=
  parse_of_isText ⟨[], text, [], by simp, space_nil, space_nil, h⟩

/-- What nests deeper is not read. -/
theorem parse_of_written_deep (h : Written ExactLiteral depth text v)
    (hdepth : depthLimit < v.nesting) : ∃ e, parse text = .error e := by
  rcases hparse : parse text with e | w
  · exact ⟨e, rfl⟩
  · exfalso
    unfold parse at hparse
    split at hparse
    · cases hparse
    · rename_i u left hread
      -- with more depth the text is the value, and the value is too deep for what was read
      have hle : depthLimit ≤ depth := (Nat.le_of_lt hdepth).trans (nesting_le_of_written h)
      have hmore := within_readValue_le hle _ _ hread
      have hwritten := complete_readValue depth _ v [] h ends_nil
      rw [List.append_nil, hmore] at hwritten
      obtain ⟨rfl, -⟩ := Prod.mk.inj (Except.ok.inj hwritten)
      obtain ⟨ws, bs, -, hbs, -⟩ := sound_readValue depthLimit _ _ _ hread
      exact absurd (nesting_le_of_written hbs) (Nat.not_le_of_lt hdepth)

variable (h : Throughout (fun w => InOrder w ∧ IsWhole w) v)

include h

/-- What is written is read back. -/
theorem parse_text (hdepth : v.nesting ≤ depthLimit) : parse (utf8 v.text) = .ok v :=
  parse_of_written (written_text h hdepth)

/-- What nests too deep is not read. -/
theorem parse_text_deep (hdepth : depthLimit < v.nesting) : ∃ e, parse (utf8 v.text) = .error e :=
  parse_of_written_deep (written_text h (Nat.le_refl _)) hdepth

end text

end CacheWarden.Json
