import CacheWarden.Event.DeadLetter
import CacheWarden.Proofs.Event.Echo
/-!
A dead letter can be read back.

An entry puts its payload one level deeper than the payload stood as a body.  So its text
is a document again exactly if the payload leaves room for that level, and then the
message, the payload and the instant are in it as they were (`resubmission`).  A body may
nest as deep as a document may at all; these bodies, and no others that were received,
give entries that cannot be read back.  Doubles are left out, as they are for bodies.
-/

namespace CacheWarden

open Json Text

namespace DeadLetter

/-! ### Entries as documents -/

/-- A payload as a value; null stands for none. -/
def payloadValue : Option Payload → Value
  | none => .null
  | some p => .object p.document

/-- The values of an entry in the order in which they are written. -/
def members (e : DeadLetter) : List (String × Value) :=
  [("message", .string e.message), ("payload", payloadValue e.payload),
    ("failed_at", .number (.int e.failedAt))]

/-- The document that an entry stands for. -/
def document (e : DeadLetter) : Document :=
  [("failed_at", .number (.int e.failedAt)), ("message", .string e.message),
    ("payload", payloadValue e.payload)]

/-- The bytes of the text of an entry. -/
def bytes (e : DeadLetter) : List UInt8 := utf8 e.text.toList

variable {e : DeadLetter}

theorem bytes_eq (e : DeadLetter) :
    e.bytes = utf8 (membersText (e.members.map fun m => (m.1, m.2.text))) := by
  unfold bytes text
  rw [String.toList_ofList]
  obtain ⟨message, payload, failedAt⟩ := e
  cases payload with
  | none => rfl
  | some p => rfl

theorem document_eq (e : DeadLetter) : e.document = Keyed.ofList e.members := by
  refine Keyed.Latest.eq_ofList ⟨?_, ?_⟩
  · have hfirst : "failed_at" < "message" := by decide
    have hlast : "message" < "payload" := by decide
    refine List.pairwise_cons.mpr ⟨?_, List.pairwise_pair.mpr hlast⟩
    exact List.forall_mem_cons.mpr ⟨hfirst, List.forall_mem_singleton.mpr (lt_trans hfirst hlast)⟩
  · intro name
    simp only [document, members, List.reverse_cons, List.reverse_nil, List.nil_append,
      List.cons_append, Keyed.get?_cons, Keyed.get?_nil]
    -- no name comes twice, so it is all the same in which order they are asked for
    split
    · rfl
    · split
      · rename_i hname
        rw [if_neg (hname ▸ by decide)]
      · rfl

/-- An entry nests one level deeper than its payload. -/
theorem nesting_document (e : DeadLetter) :
    Document.nesting e.document = (payloadValue e.payload).nesting + 1 := by
  unfold Document.nesting
  simp [document, Value.nesting, fieldsNesting]

/-! ### What is kept -/

/-- An entry whose payload and instant are written exactly: the numbers in the payload are integers
of 64 bits, and so is the instant. -/
structure IsExact (e : DeadLetter) : Prop where
  ordered : ∀ p ∈ e.payload, p.document.IsOrdered
  wholes : ∀ p ∈ e.payload, p.document.HasWholes
  instant : IsWord e.failedAt

/-- The text of an entry is a text of its document, as deep as that is. -/
theorem IsExact.written (h : e.IsExact) {depth : Nat}
    (hdepth : (payloadValue e.payload).nesting ≤ depth) :
    Written ExactLiteral (depth + 1) e.bytes (.object e.document) := by
  have hstring : Written ExactLiteral depth (utf8 (Value.string e.message).text)
      (.string e.message) := by
    have hchars : Scalar ExactLiteral _ _ := .string (chars_escaped e.message.toList)
    rw [String.ofList_toList, ← utf8_stringText] at hchars
    exact written_of_scalar hchars depth
  have hpayload : Written ExactLiteral depth (utf8 (payloadValue e.payload).text)
      (payloadValue e.payload) := by
    rcases hp : e.payload with - | p
    · exact written_of_scalar .null depth
    · rw [hp] at hdepth
      exact written_text ((h.ordered p hp).and (h.wholes p hp)) hdepth
  have hinstant : Written ExactLiteral depth (utf8 (Value.number (.int e.failedAt)).text)
      (.number (.int e.failedAt)) :=
    written_of_scalar (.number (exactLiteral_signedDecimal h.instant)) depth
  rw [bytes_eq, document_eq]
  refine written_members ?_
  intro m hm
  rcases List.mem_cons.mp hm with rfl | hm
  · exact hstring
  · rcases List.mem_cons.mp hm with rfl | hm
    · exact hpayload
    · obtain rfl := List.mem_singleton.mp hm
      exact hinstant

/-! ### Reading back -/

/-- The payload, if there is one, leaves room for one level around it. -/
def HasRoom (e : DeadLetter) : Prop := ∀ p ∈ e.payload, p.document.nesting ≤ 126

theorem hasRoom_iff : e.HasRoom ↔ (payloadValue e.payload).nesting ≤ 126 := by
  unfold HasRoom
  rcases e.payload with - | p <;> simp [payloadValue, Document.nesting, Value.nesting]

theorem parse_bytes (h : e.IsExact) (room : e.HasRoom) :
    Document.parse e.bytes = .ok e.document :=
  Document.parse_of_object (parse_of_written (h.written (hasRoom_iff.mp room)))

theorem parse_bytes_deep (h : e.IsExact) (full : ¬e.HasRoom) :
    ∃ fault, Document.parse e.bytes = .error (.malformed fault) := by
  have hdeep : depthLimit < Document.nesting e.document := by
    rw [nesting_document]
    exact Nat.succ_lt_succ (Nat.lt_of_not_le (mt hasRoom_iff.mpr full))
  obtain ⟨fault, hfault⟩ := parse_of_written_deep (h.written (Nat.le_refl _)) hdeep
  exact ⟨fault, Document.parse_of_error hfault⟩

end DeadLetter

end CacheWarden
