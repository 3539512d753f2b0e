import CacheWarden.Event.Ingest
import CacheWarden.Proofs.Event.Decoding
import CacheWarden.Proofs.Json.Writing
/-!
The body written out is the body received.

The payload of a failure is told as JSON text.  That text is taken for the very document
again (`echo`), as long as it nests no deeper than what is read at all, and texts tell
documents apart.  A document that was received nests no deeper and has its names in order,
so for such a document nothing but its numbers matters: doubles are left out here.
-/

namespace CacheWarden

open Json Text

namespace Document

variable {d : Document}

/-- The bytes of the text of a document. -/
def bytes (d : Document) : List UInt8 := utf8 d.text.toList

/-- How many lists and objects stand inside one another, the document itself counted. -/
def nesting (d : Document) : Nat := (Value.object d).nesting

/-- The document, and every object in it, has its names in order, and each once. -/
def IsOrdered (d : Document) : Prop := Throughout InOrder (.object d)

/-- Every number in the document is an integer of 64 bits. -/
def HasWholes (d : Document) : Prop := Throughout IsWhole (.object d)

theorem bytes_eq (d : Document) : bytes d = utf8 (Value.object d).text := by
  unfold bytes text Value.render
  rw [String.toList_ofList]

/-! ### Documents that were received -/

/-- The text that a document came from, in the grammar. -/
theorem exists_written {raw : List UInt8} (h : parse raw = .ok d) :
    ∃ bs, Written AnyLiteral 127 bs (.object d) := by
  obtain ⟨_, bs, _, -, -, -, hbs⟩ := (decoding raw).object d h
  exact ⟨bs, hbs⟩

theorem isOrdered_of_parse {raw : List UInt8} (h : parse raw = .ok d) : IsOrdered d := by
  obtain ⟨bs, hbs⟩ := exists_written h
  exact inOrder_of_written hbs

theorem nesting_le_of_parse {raw : List UInt8} (h : parse raw = .ok d) : nesting d ≤ 127 := by
  obtain ⟨bs, hbs⟩ := exists_written h
  exact nesting_le_of_written hbs

/-! ### Round trip -/

theorem parse_bytes (hd : IsOrdered d) (hn : HasWholes d) (hdepth : nesting d ≤ 127) :
    parse (bytes d) = .ok d := by
  rw [bytes_eq]
  exact parse_of_object (parse_text (hd.and hn) hdepth)

theorem parse_bytes_deep (hd : IsOrdered d) (hn : HasWholes d) (hdepth : 127 < nesting d) :
    ∃ e, parse (bytes d) = .error (.malformed e) := by
  obtain ⟨e, he⟩ := parse_text_deep (hd.and hn) hdepth
  rw [bytes_eq]
  exact ⟨e, parse_of_error he⟩

/-- The text of a received document is taken for it again. -/
theorem parse_bytes_of_parse {raw : List UInt8} (h : parse raw = .ok d) (hn : HasWholes d) :
    parse (bytes d) = .ok d :=
  parse_bytes (isOrdered_of_parse h) hn (nesting_le_of_parse h)

/-- The payloads told in a log. -/
def payloadTexts (log : List Notice) : List String :=
  log.filterMap fun
    | .failedPayload t => some t
    | _ => none

/-- Behind a failure its payload is told once, as text. -/
theorem payloadTexts_deadLetter (i : Ingestor) (now : Int) {f : EventFailure} {p : Payload}
    (h : f.payload = some p) (s : Intake) :
    payloadTexts (i.deadLetter now f s).2.2 = [p.document.text] := by
  have hnotices : payloadTexts (Ingestor.failureNotices f) = [p.document.text] := by
    unfold Ingestor.failureNotices
    rw [h]
    rfl
  have happend (log : List Notice) (n : Notice) (hn : payloadTexts [n] = []) :
      payloadTexts (log ++ [n]) = payloadTexts log := by
    unfold payloadTexts at hn ⊢
    rw [List.filterMap_append, hn, List.append_nil]
  unfold Ingestor.deadLetter
  dsimp only
  split
  · exact (happend _ _ rfl).trans hnotices
  · exact (happend _ _ rfl).trans hnotices

/-- What the text of a document says about it. -/
structure Echoed (d : Document) : Prop where
  /-- The text is what is told of a failure with this payload. -/
  told : ∀ (i : Ingestor) (now : Int) (f : EventFailure) (p : Payload) (s : Intake),
    f.payload = some p → p.document = d → payloadTexts (i.deadLetter now f s).2.2 = [d.text]
  /-- It is taken for the document again. -/
  shallow : IsOrdered d → nesting d ≤ 127 → parse (bytes d) = .ok d
  /-- It is malformed if it nests too deep. -/
  deep : IsOrdered d → 127 < nesting d → ∃ e, parse (bytes d) = .error (.malformed e)
  /-- A document that was received comes back, whatever it is. -/
  received : ∀ raw, parse raw = .ok d → parse (bytes d) = .ok d
  /-- Received documents have the same text only if they are the same. -/
  distinct : ∀ raw raw' d', parse raw = .ok d → parse raw' = .ok d' → HasWholes d' →
    (d.text = d'.text ↔ d = d')

/-- **The body written out is the body received.**  For every document whose numbers are integers
of 64 bits, the text that is told as the payload of a failure is taken for this document again, and
for no other; a document of more than 127 levels, which nothing received has, is malformed. -/
theorem echo (d : Document) (hn : HasWholes d) : Echoed d where
  told i now f p s hp hd := by
    rw [payloadTexts_deadLetter i now hp s, hd]
  shallow hd hdepth := parse_bytes hd hn hdepth
  deep hd hdepth := parse_bytes_deep hd hn hdepth
  received raw h := parse_bytes_of_parse h hn
  distinct raw raw' d' h h' hn' := by
    constructor
    · intro htext
      have hback := parse_bytes_of_parse h hn
      have hback' := parse_bytes_of_parse h' hn'
      have hbytes : bytes d = bytes d' := by
        unfold bytes
        rw [htext]
      rw [hbytes, hback'] at hback
      exact (Except.ok.inj hback).symm
    · intro heq
      rw [heq]

/-- A document with a list of a number in it is written out as it was received. -/
theorem echo_nested :
    HasWholes [("id", .string "a\n"), ("items", .list [.number (.int (-7))])] ∧
      Echoed [("id", .string "a\n"), ("items", .list [.number (.int (-7))])] := by
  have hnumber : Throughout IsWhole (.number (.int (-7))) := by
    refine .mk ?_ (fun _ h => absurd h List.not_mem_nil)
    rintro _ ⟨⟩
    exact ⟨-7, rfl, by decide, by decide⟩
  have hlist : Throughout IsWhole (.list [.number (.int (-7))]) :=
    .mk (fun _ h => by cases h) (List.forall_mem_singleton.mpr hnumber)
  have hstring : Throughout IsWhole (.string "a\n") :=
    .mk (fun _ h => by cases h) fun _ h => absurd h List.not_mem_nil
  have hn : HasWholes [("id", .string "a\n"), ("items", .list [.number (.int (-7))])] :=
    .mk (fun _ h => by cases h)
      (List.forall_mem_cons.mpr ⟨hstring, List.forall_mem_singleton.mpr hlist⟩)
  exact ⟨hn, echo _ hn⟩

end Document

end CacheWarden
