import CacheWarden.Proofs.Yaml.Scalar
import CacheWarden.Yaml.Token.Reader
/-!
The tokens of a compact document.

Inside of a flow collection the reader of tokens only has to know how deep it is
(`Inside`).  Keys that may have started around the collections are not required, so they
may go stale while the line goes on, and none of them is left over.  Each token is one
step (`Scans`), and the steps of a text give its tokens (`tokens_text`).
-/

namespace CacheWarden.Yaml

open Json

/-! ### Steps -/

/-- From one state to another in as many rounds as characters are left behind, or fewer, however
many tokens were handed on so far. -/
def Scans (s s' : Lexer) : Prop :=
  ∃ n, s'.cursor.rest.length + n ≤ s.cursor.rest.length ∧
    ∀ fuel count, ∃ count', s.run (n + fuel) count = s'.run fuel count'

theorem Scans.refl (s : Lexer) : Scans s s :=
  ⟨0, Nat.le_refl _, fun fuel count => ⟨count, by rw [Nat.zero_add]⟩⟩

theorem Scans.trans {s t u : Lexer} (h : Scans s t) (h' : Scans t u) : Scans s u := by
  obtain ⟨n, hn, hrun⟩ := h
  obtain ⟨n', hn', hrun'⟩ := h'
  refine ⟨n + n', by omega, ?_⟩
  intro fuel count
  obtain ⟨count', hcount⟩ := hrun (n' + fuel) count
  obtain ⟨count'', hcount'⟩ := hrun' fuel count'
  exact ⟨count'', by rw [Nat.add_assoc, hcount, hcount']⟩

/-- A pending key that need not be one. -/
def Calm (k : Option PendingKey) : Prop := ∀ p, k = some p → p.required = false

/-- A pending key at a place, unless it is stale there. -/
def settle (m : Mark) : Option PendingKey → Option PendingKey
  | none => none
  | some p => if p.isStale m then none else some p

theorem calm_none : Calm none := fun _ h => by cases h

theorem Calm.settle {k : Option PendingKey} (h : Calm k) (m : Mark) : Calm (settle m k) := by
  cases k with
  | none => exact calm_none
  | some p =>
    show Calm (if p.isStale m then none else some p)
    split
    · exact calm_none
    · exact h

theorem refresh_calm {k : Option PendingKey} (h : Calm k) (m : Mark) :
    refresh m k = .ok (settle m k) := by
  cases k with
  | none => rfl
  | some p =>
    unfold refresh settle giveUp
    dsimp only
    rw [h p rfl]
    split <;> rfl

/-- Stale keys given up. -/
def Lexer.settled (s : Lexer) : Lexer :=
  { s with outer := s.outer.map (settle s.mark), pending := settle s.mark s.pending }

theorem dropStale_calm {s : Lexer} (houter : ∀ k ∈ s.outer, Calm k) (hpending : Calm s.pending) :
    s.dropStale = .ok s.settled := by
  have hmap (ks : List (Option PendingKey)) (h : ∀ k ∈ ks, Calm k) :
      ks.mapM (refresh s.mark) = .ok (ks.map (settle s.mark)) := by
    induction ks with
    | nil => rfl
    | cons k ks ih =>
      obtain ⟨hk, hks⟩ := List.forall_mem_cons.mp h
      rw [List.mapM_cons, refresh_calm hk, ih hks]
      rfl
  unfold Lexer.dropStale
  rw [hmap _ houter, refresh_calm hpending]
  rfl

/-- A character that a token starts with. -/
def startsToken (c : Char) : Bool := !isBlank c && !isBreak c && c != '#' && c != '\ufeff'

theorem skip_of_startsToken {s : Lexer} {c : Char} {cs : List Char}
    (hrest : s.cursor.rest = c :: cs) (hc : startsToken c = true) : s.skip = s := by
  obtain ⟨⟨rest, m⟩, tokens, pending, outer, indent, indents, keyAllowed⟩ := s
  have hc' : ((isBlank c = false ∧ isBreak c = false) ∧ c ≠ '#') ∧ c ≠ '\ufeff' := by
    simpa [startsToken] using hc
  obtain ⟨⟨⟨hblank, hbreak⟩, hhash⟩, hbom⟩ := hc'
  have hspace : c ≠ ' ' ∧ c ≠ '\t' := by simpa [isBlank] using hblank
  dsimp only at hrest
  subst hrest
  unfold Lexer.skip
  dsimp only
  rw [skipGap, if_neg (by simp [hbreak]), if_neg (by simp [hspace, hbom]), if_neg hhash]
  rfl

theorem unroll_of_indents {s : Lexer} (h : s.indents = []) (column : Int) :
    s.unroll column = s := by
  obtain ⟨cursor, tokens, pending, outer, indent, indents, keyAllowed⟩ := s
  dsimp only at h
  subst h
  unfold Lexer.unroll
  split
  · rfl
  · rfl

/-- Where no key is required and no block is open, only stale keys are given up in front of a
token. -/
theorem fetch_calm {s : Lexer} (hskip : s.skip = s) (houter : ∀ k ∈ s.outer, Calm k)
    (hpending : Calm s.pending) (hindents : s.indents = []) :
    s.fetch = match s.cursor.rest with
      | [] => s.settled.finish
      | c :: rest => s.settled.token c rest := by
  have hunroll : s.settled.unroll s.settled.mark.column = s.settled :=
    unroll_of_indents (s := s.settled) hindents _
  unfold Lexer.fetch
  rw [hskip, dropStale_calm houter hpending]
  simp only [bind, Except.bind, hunroll]
  rfl

/-- A token that leaves characters behind is a step. -/
theorem scans_of_token {s s' : Lexer} {c : Char} {cs : List Char} (hrest : s.cursor.rest = c :: cs)
    (hc : startsToken c = true) (houter : ∀ k ∈ s.outer, Calm k) (hpending : Calm s.pending)
    (hindents : s.indents = []) (htoken : s.settled.token c cs = .ok s')
    (hlength : s'.cursor.rest.length ≤ cs.length) : Scans s s' := by
  have hskip := skip_of_startsToken hrest hc
  have hfetch : s.fetch = .ok s' := by
    rw [fetch_calm hskip houter hpending hindents, hrest]
    exact htoken
  have hend : s.atEnd = false := by
    unfold Lexer.atEnd
    rw [hskip, hrest]
    rfl
  refine ⟨1, ?_, ?_⟩
  · rw [hrest, List.length_cons]
    omega
  · intro fuel count
    refine ⟨s.settledCount count, ?_⟩
    rw [Nat.add_comm, Lexer.run, hfetch]
    show (if s.atEnd = true then _ else _) = _
    rw [hend]
    rfl

/-! ### Which token comes -/

theorem atIndicator_of_ne {c x : Char} (h : x ≠ c) (rest : List Char) :
    atIndicator c (x :: rest) = false := by
  unfold atIndicator
  split
  · rename_i heq
    cases heq
    simp [h]
  · rfl

section token

variable (s : Lexer) (rest : List Char)

theorem token_open : s.token '\x7b' rest = s.openFlow .flowMapping := by
  simp [Lexer.token, atIndicator_of_ne]

theorem token_close : s.token '\x7d' rest = s.closeFlow .flowMappingEnd := by
  simp [Lexer.token, atIndicator_of_ne]

theorem token_comma : s.token ',' rest = s.flowEntry := by
  simp [Lexer.token, atIndicator_of_ne]

theorem token_colon (h : s.inFlow = true) : s.token ':' rest = s.colon := by
  simp [Lexer.token, atIndicator_of_ne, h]

theorem token_quote : s.token '"' rest = s.quotedScalar false := by
  simp [Lexer.token, atIndicator_of_ne]

theorem token_letter {c : Char} (hc : c = 'n' ∨ c = 't' ∨ c = 'f') :
    s.token c rest = s.plainScalar := by
  rcases hc with rfl | rfl | rfl <;> simp [Lexer.token, atIndicator_of_ne, startsPlain, isBlank]

end token

theorem closeFlow_eq {s : Lexer} {k : Option PendingKey} {outer : List (Option PendingKey)}
    (hpending : s.pending = none) (houter : s.outer = k :: outer) (kind : TokenKind) :
    s.closeFlow kind = .ok (({ s with pending := k, outer }).indicator kind false) := by
  obtain ⟨cursor, tokens, pending, outer', indent, indents, keyAllowed⟩ := s
  dsimp only at hpending houter
  subst hpending houter
  rfl

theorem plainScalar_eq {s : Lexer} {text : List Char} {gap : Gap} {behind : Cursor}
    (hkey : s.keyAllowed = false)
    (hread : readPlain s.inFlow (s.indent + 1).toNat s.cursor.rest s.mark [] .nothing =
      .ok (text, gap, behind)) :
    s.plainScalar = .ok { s.emit (.scalar (String.ofList text.reverse) .plain) behind with
      keyAllowed := gap.hasBreak } := by
  unfold Lexer.plainScalar Lexer.saveKey
  rw [hkey]
  show (readPlain s.inFlow (s.indent + 1).toNat s.cursor.rest s.mark [] .nothing >>= fun r =>
    Except.ok { s.emit (.scalar (String.ofList r.1.reverse) .plain) r.2.2 with
      keyAllowed := r.2.1.hasBreak }) = _
  rw [hread]
  rfl

/-! ### Inside of mappings -/

/-- The reader is inside of one mapping and `depth` mappings in it.  No key is pending around the
inner ones, because they are values. -/
structure Around (s : Lexer) (depth : Nat) : Prop where
  outer : ∃ k, Calm k ∧ s.outer = List.replicate depth none ++ [k]
  indents : s.indents = []

namespace Around

variable {s : Lexer} {depth : Nat}

theorem calm (h : Around s depth) : ∀ k ∈ s.outer, Calm k := by
  obtain ⟨k, hk, houter⟩ := h.outer
  rw [houter]
  intro k' hk'
  rcases List.mem_append.mp hk' with hk' | hk'
  · rw [(List.mem_replicate.mp hk').2]
    exact calm_none
  · rw [List.mem_singleton.mp hk']
    exact hk

theorem inFlow (h : Around s depth) : s.inFlow = true := by
  obtain ⟨k, -, houter⟩ := h.outer
  unfold Lexer.inFlow
  rw [houter]
  simp

/-- Giving up stale keys leaves it so. -/
theorem settled (h : Around s depth) : Around s.settled depth where
  outer := by
    obtain ⟨k, hk, houter⟩ := h.outer
    refine ⟨settle s.mark k, hk.settle s.mark, ?_⟩
    show s.outer.map (settle s.mark) = _
    rw [houter, List.map_append, List.map_replicate]
    rfl
  indents := h.indents

/-- One token inside of a mapping. -/
theorem scans {P : Lexer → Prop} {s' : Lexer} {c : Char} {cs : List Char} (h : Around s depth)
    (hrest : s.cursor.rest = c :: cs) (hpending : Calm s.pending) (hc : startsToken c = true)
    (htoken : s.settled.token c cs = .ok s') (hlength : s'.cursor.rest.length ≤ cs.length)
    (hs' : P s') : ∃ s', Scans s s' ∧ P s' :=
  ⟨s', scans_of_token hrest hc h.calm hpending h.indents htoken hlength, hs'⟩

end Around

/-- The reader is inside of mappings with no key pending, in front of `rest`, behind tokens of these
kinds, latest first. -/
structure Inside (s : Lexer) (depth : Nat) (kinds : List TokenKind) (rest : List Char)
    (keyAllowed : Bool) : Prop extends Around s depth where
  rest : s.cursor.rest = rest
  kinds : s.tokens.map Token.kind = kinds
  pending : s.pending = none
  keyAllowed : s.keyAllowed = keyAllowed

/-- The reader is inside of mappings, behind a name and in front of the colon that makes it a
key. -/
structure AtColon (s : Lexer) (depth : Nat) (name : String) (kinds : List TokenKind)
    (rest : List Char) : Prop extends Around s depth where
  rest : s.cursor.rest = ':' :: rest
  key : ∃ k last tokens, s.pending = some k ∧ k.required = false ∧ k.isStale s.mark = false ∧
    s.tokens = last :: tokens ∧ k.number = tokens.length ∧ last.kind = .scalar name .double ∧
      tokens.map Token.kind = kinds

namespace Inside

variable {s s' : Lexer} {depth : Nat} {kinds : List TokenKind} {rest cs : List Char} {c : Char}
  {b : Bool}

/-- Giving up stale keys changes nothing that matters. -/
theorem settled (h : Inside s depth kinds rest b) : Inside s.settled depth kinds rest b where
  toAround := h.toAround.settled
  rest := h.rest
  kinds := h.kinds
  pending := by
    show settle s.mark s.pending = none
    rw [h.pending]
    rfl
  keyAllowed := h.keyAllowed

theorem calm_pending (h : Inside s depth kinds rest b) : Calm s.pending := by
  rw [h.pending]
  exact calm_none

theorem next_rest {k : Cursor} (h : k.rest = c :: cs) : k.next.rest = cs := by
  unfold Cursor.next
  rw [h]

/-- A brace opens a mapping. -/
theorem step_open (h : Inside s depth kinds ('\x7b' :: cs) false) :
    ∃ s', Scans s s' ∧ Inside s' (depth + 1) (.flowMapping :: kinds) cs true := by
  have ht := h.settled
  have hnext : s.settled.cursor.next.rest = cs := next_rest ht.rest
  have htoken : s.settled.token '\x7b' cs = .ok
      (({ s.settled with outer := s.settled.pending :: s.settled.outer, pending := none }).indicator
        .flowMapping true) := by
    rw [token_open]
    unfold Lexer.openFlow Lexer.saveKey
    rw [ht.keyAllowed]
    rfl
  refine h.scans h.rest h.calm_pending (by decide) htoken (Nat.le_of_eq (congrArg _ hnext)) ?_
  exact {
    rest := hnext
    kinds := congrArg (TokenKind.flowMapping :: ·) ht.kinds
    pending := rfl
    outer := by
      obtain ⟨k, hk, houter⟩ := ht.outer
      refine ⟨k, hk, ?_⟩
      show s.settled.pending :: s.settled.outer = _
      rw [ht.pending, houter]
      rfl
    indents := ht.indents
    keyAllowed := rfl }

/-- A brace closes the innermost mapping. -/
theorem step_close (h : Inside s (depth + 1) kinds ('\x7d' :: cs) b) :
    ∃ s', Scans s s' ∧ Inside s' depth (.flowMappingEnd :: kinds) cs false := by
  have ht := h.settled
  have hnext : s.settled.cursor.next.rest = cs := next_rest ht.rest
  obtain ⟨k, hk, houter⟩ := ht.outer
  have htoken : s.settled.token '\x7d' cs = .ok
      (({ s.settled with pending := none, outer := List.replicate depth none ++ [k] }).indicator
        .flowMappingEnd false) := by
    rw [token_close, closeFlow_eq ht.pending houter]
    rfl
  refine h.scans h.rest h.calm_pending (by decide) htoken (Nat.le_of_eq (congrArg _ hnext)) ?_
  exact {
    rest := hnext
    kinds := congrArg (TokenKind.flowMappingEnd :: ·) ht.kinds
    pending := rfl
    outer := ⟨k, hk, rfl⟩
    indents := ht.indents
    keyAllowed := rfl }

/-- A comma lets the next key start. -/
theorem step_comma (h : Inside s depth kinds (',' :: cs) b) :
    ∃ s', Scans s s' ∧ Inside s' depth (.flowEntry :: kinds) cs true := by
  have ht := h.settled
  have hnext : s.settled.cursor.next.rest = cs := next_rest ht.rest
  have htoken : s.settled.token ',' cs =
      .ok (({ s.settled with pending := none }).indicator .flowEntry true) := by
    rw [token_comma]
    unfold Lexer.flowEntry Lexer.dropKey
    rw [ht.pending]
    rfl
  refine h.scans h.rest h.calm_pending (by decide) htoken (Nat.le_of_eq (congrArg _ hnext)) ?_
  exact {
    rest := hnext
    kinds := congrArg (TokenKind.flowEntry :: ·) ht.kinds
    pending := rfl
    outer := ht.outer
    indents := ht.indents
    keyAllowed := rfl }

/-- A word as a value. -/
theorem step_word {w : String} (hw : w ∈ Compact.words) (hrest : EndsValue rest)
    (h : Inside s depth kinds (w.toList ++ rest) false) :
    ∃ s', Scans s s' ∧ Inside s' depth (.scalar w .plain :: kinds) rest false := by
  have ht := h.settled
  have hwords : w = "null" ∨ w = "true" ∨ w = "false" := by simpa [Compact.words] using hw
  obtain ⟨c, cs, hcs, hletter⟩ : ∃ c cs, w.toList = c :: cs ∧ (c = 'n' ∨ c = 't' ∨ c = 'f') := by
    rcases hwords with rfl | rfl | rfl
    · exact ⟨_, _, rfl, .inl rfl⟩
    · exact ⟨_, _, rfl, .inr (.inl rfl)⟩
    · exact ⟨_, _, rfl, .inr (.inr rfl)⟩
  have hstart : startsToken c = true := by rcases hletter with rfl | rfl | rfl <;> rfl
  have hread := readPlain_word hw hrest (s.settled.indent + 1).toNat s.settled.mark
  have htoken : s.settled.token c (cs ++ rest) = .ok
      { s.settled.emit (.scalar w .plain) ⟨rest, s.settled.mark.along w.toList.length⟩ with
        keyAllowed := false } := by
    have hplain := plainScalar_eq ht.keyAllowed (by rw [ht.inFlow, ht.rest]; exact hread)
    rw [List.reverse_reverse, String.ofList_toList] at hplain
    rw [token_letter _ _ hletter]
    exact hplain
  rw [hcs] at h
  refine h.scans h.rest h.calm_pending hstart htoken ?_ ?_
  · show rest.length ≤ (cs ++ rest).length
    rw [List.length_append]
    exact Nat.le_add_left _ _
  · exact {
      rest := rfl
      kinds := congrArg (TokenKind.scalar w .plain :: ·) ht.kinds
      pending := ht.pending
      outer := ht.outer
      indents := ht.indents
      keyAllowed := rfl }

theorem stringText_append (t : String) (rest : List Char) :
    stringText t ++ rest = '"' :: (t.toList.flatMap escapeChar ++ '"' :: rest) := by
  unfold stringText
  simp

/-- The token of a quoted scalar, from its quote on. -/
def quotedToken (k : Cursor) : Except Fault (TokenKind × Cursor) :=
  (readQuoted false 0 k.next.rest k.next.mark [] .nothing).map fun r =>
    (.scalar (String.ofList r.1.reverse) .double, r.2)

theorem quotedScalar_eq (s : Lexer) : s.quotedScalar false = s.keyPart quotedToken := rfl

/-- A quoted scalar is read as the text it is written for. -/
theorem quotedToken_eq {k : Cursor} {t : String} (ht : Printable t.toList)
    (hk : k.rest = stringText t ++ rest) :
    quotedToken k = .ok (.scalar t .double, ⟨rest, k.mark.along (stringText t).length⟩) := by
  have hnext : k.next = ⟨t.toList.flatMap escapeChar ++ '"' :: rest, k.mark.along 1⟩ := by
    rw [stringText_append] at hk
    unfold Cursor.next
    rw [hk]
    show Cursor.mk _ (k.mark.step '"') = _
    rw [step_eq_along (by decide)]
  have hlength : (stringText t).length = 1 + ((t.toList.flatMap escapeChar).length + 1) := by
    unfold stringText
    simp
    omega
  have hcolumn : (k.mark.along 1).column ≠ 0 := Nat.succ_ne_zero _
  unfold quotedToken
  rw [hnext, readQuoted_escaped hcolumn ht .nothing, along_along, ← hlength]
  show Except.ok (TokenKind.scalar (String.ofList (t.toList.reverse ++ []).reverse) .double, _) = _
  rw [List.append_nil, List.reverse_reverse, String.ofList_toList]

/-- A quoted text as a value. -/
theorem step_quoted {t : String} (ht : Printable t.toList)
    (h : Inside s depth kinds (stringText t ++ rest) false) :
    ∃ s', Scans s s' ∧ Inside s' depth (.scalar t .double :: kinds) rest false := by
  have hs := h.settled
  have htoken : s.settled.token '"' (t.toList.flatMap escapeChar ++ '"' :: rest) = .ok
      { s.settled.emit (.scalar t .double) ⟨rest, s.settled.cursor.mark.along (stringText t).length⟩
        with keyAllowed := false } := by
    rw [token_quote, quotedScalar_eq]
    unfold Lexer.keyPart Lexer.saveKey
    rw [hs.keyAllowed]
    show (quotedToken s.settled.cursor >>= fun r =>
      pure { s.settled.emit r.1 r.2 with keyAllowed := false }) = _
    rw [quotedToken_eq ht hs.rest]
    rfl
  rw [stringText_append] at h
  refine h.scans h.rest h.calm_pending (by decide) htoken ?_ ?_
  · show rest.length ≤ _
    simp only [List.length_append, List.length_cons]
    omega
  · exact {
      rest := rfl
      kinds := congrArg (TokenKind.scalar t .double :: ·) hs.kinds
      pending := hs.pending
      outer := hs.outer
      indents := hs.indents
      keyAllowed := rfl }

/-- Where a key may start, it is kept in mind. -/
theorem saveKey_eq (h : Inside s depth kinds rest true) :
    s.saveKey = .ok { s with pending := some ⟨false, s.tokens.length, s.mark⟩ } := by
  have hflow := h.inFlow
  have hpending := h.pending
  have hallowed := h.keyAllowed
  obtain ⟨cursor, tokens, pending, outer, indent, indents, keyAllowed⟩ := s
  dsimp only at hpending hallowed
  subst hpending hallowed
  unfold Lexer.saveKey
  show Except.ok (Lexer.mk cursor tokens (some ⟨!(Lexer.inFlow _) && _, _, _⟩) outer indent indents
    true) = _
  rw [hflow]
  rfl

/-- A token put in front of the latest one. -/
theorem insert_eq {t : Lexer} {last : Token} {tokens : List Token}
    (htokens : t.tokens = last :: tokens) (kind : TokenKind) (mark : Mark) :
    t.insert kind tokens.length mark =
      { t with tokens := last :: ⟨kind, mark, mark⟩ :: tokens } := by
  unfold Lexer.insert
  dsimp only
  rw [htokens, List.length_cons, Nat.add_sub_cancel_left]
  rfl

/-- A quoted name, which may be a key. -/
theorem step_name {name : String} (hname : Compact.IsKey name)
    (h : Inside s depth kinds (stringText name ++ ':' :: cs) true) :
    ∃ s', Scans s s' ∧ AtColon s' depth name kinds cs := by
  have hs := h.settled
  have htoken : s.settled.token '"' (name.toList.flatMap escapeChar ++ '"' :: ':' :: cs) = .ok
      { ({ s.settled with
          pending := some ⟨false, s.settled.tokens.length, s.settled.mark⟩ }).emit
            (.scalar name .double)
            ⟨':' :: cs, s.settled.cursor.mark.along (stringText name).length⟩ with
        keyAllowed := false } := by
    rw [token_quote, quotedScalar_eq]
    unfold Lexer.keyPart
    rw [hs.saveKey_eq]
    show (quotedToken s.settled.cursor >>= fun r => pure { Lexer.emit _ r.1 r.2 with
      keyAllowed := false }) = _
    rw [quotedToken_eq hname.1 hs.rest]
    rfl
  rw [stringText_append] at h
  refine h.scans h.rest h.calm_pending (by decide) htoken ?_ ?_
  · show (':' :: cs).length ≤ _
    simp only [List.length_append, List.length_cons]
    omega
  · -- a name of so few characters is not stale behind them
    have hfresh : PendingKey.isStale ⟨false, s.settled.tokens.length, s.settled.mark⟩
        (s.settled.mark.along (stringText name).length) = false := by
      have hlength := hname.2
      unfold PendingKey.isStale Mark.along
      simp only [Bool.or_eq_false_iff, decide_eq_false_iff_not]
      exact ⟨Nat.lt_irrefl _, by show ¬(_ + 1024 < _ + _); omega⟩
    exact {
      outer := hs.outer
      indents := hs.indents
      rest := rfl
      key := ⟨_, _, _, rfl, rfl, hfresh, rfl, rfl, rfl, hs.kinds⟩ }

end Inside

/-- The colon behind a name makes it a key. -/
theorem AtColon.step_colon {s : Lexer} {depth : Nat} {name : String} {kinds : List TokenKind}
    {cs : List Char} (h : AtColon s depth name kinds cs) :
    ∃ s', Scans s s' ∧
      Inside s' depth (.value :: .scalar name .double :: .key :: kinds) cs false := by
  obtain ⟨k, last, tokens, hpending, hrequired, hfresh, htokens, hnumber, hlast, hkinds⟩ := h.key
  have hcalm : Calm s.pending := by
    rw [hpending]
    rintro _ ⟨⟩
    exact hrequired
  have hs := h.toAround.settled
  have hkey : s.settled.pending = some k := by
    show settle s.mark s.pending = _
    rw [hpending]
    show (if k.isStale s.mark then none else some k) = _
    rw [hfresh]
    rfl
  have htoken : s.settled.token ':' cs = .ok (({ s.settled with
      pending := none
      tokens := last :: ⟨.key, k.mark, k.mark⟩ :: tokens }).indicator .value false) := by
    rw [token_colon _ _ hs.inFlow]
    unfold Lexer.colon
    rw [hkey]
    dsimp only
    rw [hnumber, Inside.insert_eq (t := s.settled) htokens]
    unfold Lexer.roll
    rw [if_pos]
    show (s.settled.inFlow || _) = true
    rw [hs.inFlow]
    rfl
  have hnext : s.settled.cursor.next.rest = cs := Inside.next_rest h.rest
  refine h.scans h.rest hcalm (by decide) htoken (Nat.le_of_eq (congrArg _ hnext)) ?_
  exact {
    outer := hs.outer
    indents := hs.indents
    rest := hnext
    kinds := by
      show TokenKind.value :: last.kind :: TokenKind.key :: tokens.map Token.kind = _
      rw [hlast, hkinds]
    pending := rfl
    keyAllowed := rfl }

/-! ### Values and entries -/

/-- The reader goes over a value. -/
def ScansValue (f : Compact) : Prop :=
  ∀ s depth kinds rest, EndsValue rest → Inside s depth kinds (f.text ++ rest) false →
    ∃ s', Scans s s' ∧ Inside s' depth (f.kinds.reverse ++ kinds) rest false

/-- A key and its value. -/
theorem scan_entry {name : String} {f : Compact} (hname : Compact.IsKey name) (hf : ScansValue f)
    {s : Lexer} {depth : Nat} {kinds : List TokenKind} {rest : List Char} (hrest : EndsValue rest)
    (h : Inside s depth kinds (stringText name ++ ':' :: (f.text ++ rest)) true) :
    ∃ s', Scans s s' ∧ Inside s' depth
      ((.key :: .scalar name .double :: .value :: f.kinds).reverse ++ kinds) rest false := by
  obtain ⟨t, hst, ht⟩ := h.step_name hname
  obtain ⟨u, htu, hu⟩ := ht.step_colon
  obtain ⟨v, huv, hv⟩ := hf u depth _ rest hrest hu
  refine ⟨v, hst.trans (htu.trans huv), ?_⟩
  simpa only [List.reverse_cons, List.append_assoc, List.singleton_append, List.cons_append,
    List.nil_append] using hv

/-- All entries of a mapping, up to its closing brace. -/
theorem scan_entries {es : List (String × Compact)} (hkeys : ∀ e ∈ es, Compact.IsKey e.1)
    (hvalues : ∀ e ∈ es, ScansValue e.2) {s : Lexer} {depth : Nat} {kinds : List TokenKind}
    {rest : List Char} (h : Inside s depth kinds (Compact.entriesText es ++ '\x7d' :: rest) true) :
    ∃ s' b, Scans s s' ∧
      Inside s' depth ((Compact.entriesKinds es).reverse ++ kinds) ('\x7d' :: rest) b := by
  induction es generalizing s kinds with
  | nil => exact ⟨s, true, .refl s, h⟩
  | cons e es ih =>
    obtain ⟨name, f⟩ := e
    obtain ⟨hname, hkeys'⟩ := List.forall_mem_cons.mp hkeys
    obtain ⟨hf, hvalues'⟩ := List.forall_mem_cons.mp hvalues
    cases es with
    | nil =>
      rw [Compact.entriesText, List.append_assoc, List.cons_append] at h
      obtain ⟨t, hst, ht⟩ := scan_entry hname hf ⟨rest, .inr rfl⟩ h
      exact ⟨t, false, hst, ht⟩
    | cons e es =>
      rw [Compact.entriesText, List.append_assoc, List.cons_append, List.append_assoc,
        List.cons_append] at h
      obtain ⟨t, hst, ht⟩ := scan_entry hname hf ⟨_, .inl rfl⟩ h
      obtain ⟨u, htu, hu⟩ := ht.step_comma
      obtain ⟨v, b, huv, hv⟩ := ih hkeys' hvalues' hu
      refine ⟨v, b, hst.trans (htu.trans huv), ?_⟩
      rw [Compact.entriesKinds]
      simpa only [List.reverse_cons, List.reverse_append, List.append_assoc, List.singleton_append,
        List.cons_append, List.nil_append] using hv

/-- Every value is gone over. -/
theorem scansValue {f : Compact} (hf : f.Fits) : ScansValue f := by
  induction hf with
  | word hw =>
    intro s depth kinds rest hrest h
    exact h.step_word hw hrest
  | quoted ht =>
    intro s depth kinds rest hrest h
    exact h.step_quoted ht
  | @mapping es hkeys _ ih =>
    intro s depth kinds rest hrest h
    rw [Compact.text, List.cons_append, List.append_assoc, List.singleton_append] at h
    obtain ⟨t, hst, ht⟩ := h.step_open
    obtain ⟨u, b, htu, hu⟩ := scan_entries hkeys ih ht
    obtain ⟨v, huv, hv⟩ := hu.step_close
    refine ⟨v, hst.trans (htu.trans huv), ?_⟩
    rw [Compact.kinds]
    simpa only [List.reverse_cons, List.reverse_append, List.append_assoc, List.singleton_append,
      List.cons_append, List.nil_append, List.reverse_nil] using hv

/-! ### The whole text -/

/-- The brace that the text starts with. -/
theorem start_open (cs : List Char) :
    ∃ s', Scans (.start ('\x7b' :: cs)) s' ∧ Inside s' 0 [.flowMapping] cs true := by
  have htoken : (Lexer.start ('\x7b' :: cs)).settled.token '\x7b' cs = .ok
      (({ Lexer.start ('\x7b' :: cs) with
        outer := [some ⟨false, 0, .start⟩] }).indicator .flowMapping true) := by
    rw [token_open]
    rfl
  refine ⟨_, scans_of_token rfl (by decide) (fun _ hk => absurd hk List.not_mem_nil) calm_none rfl
    htoken (Nat.le_refl _), ?_⟩
  exact {
    outer := ⟨some ⟨false, 0, .start⟩, by rintro _ ⟨⟩; rfl, rfl⟩
    indents := rfl
    rest := rfl
    kinds := rfl
    pending := rfl
    keyAllowed := rfl }

/-- The reader is behind the text. -/
structure Behind (s : Lexer) (kinds : List TokenKind) : Prop where
  rest : s.cursor.rest = []
  kinds : s.tokens.map Token.kind = kinds
  outer : s.outer = []
  pending : Calm s.pending
  indents : s.indents = []

/-- The brace that the text ends with. -/
theorem Inside.step_last {s : Lexer} {kinds : List TokenKind} {b : Bool}
    (h : Inside s 0 kinds ['\x7d'] b) :
    ∃ s', Scans s s' ∧ Behind s' (.flowMappingEnd :: kinds) := by
  have ht := h.settled
  have hnext : s.settled.cursor.next.rest = [] := next_rest ht.rest
  obtain ⟨k, hk, houter⟩ := ht.outer
  have htoken : s.settled.token '\x7d' [] = .ok
      (({ s.settled with pending := k, outer := [] }).indicator .flowMappingEnd false) := by
    rw [token_close, closeFlow_eq ht.pending houter]
  refine h.scans h.rest h.calm_pending (by decide) htoken (Nat.le_of_eq (congrArg _ hnext)) ?_
  exact {
    rest := hnext
    kinds := congrArg (TokenKind.flowMappingEnd :: ·) ht.kinds
    outer := rfl
    pending := hk
    indents := ht.indents }

theorem giveUp_calm {k : Option PendingKey} (h : Calm k) : giveUp k = .ok () := by
  cases k with
  | none => rfl
  | some p =>
    unfold giveUp
    dsimp only
    rw [h p rfl]
    rfl

theorem skip_of_nil {s : Lexer} (h : s.cursor.rest = []) : s.skip = s := by
  obtain ⟨⟨rest, m⟩, tokens, pending, outer, indent, indents, keyAllowed⟩ := s
  dsimp only at h
  subst h
  rfl

/-- Behind the text the tokens end. -/
theorem Behind.finish {s : Lexer} {kinds : List TokenKind} (h : Behind s kinds) :
    ∃ s', s.finish = .ok s' ∧ s'.tokens.map Token.kind = .streamEnd :: kinds := by
  -- the end stands on a line of its own, which changes its place only
  have hend {t : Lexer} (htokens : t.tokens = s.tokens) (hpending : t.pending = s.pending)
      (hindents : t.indents = s.indents) :
      ∃ s', (do
        let t ← (t.unroll (-1)).dropKey
        pure (t.emit .streamEnd t.cursor)) = Except.ok (ε := Fault) s' ∧
          s'.tokens.map Token.kind = .streamEnd :: kinds := by
    rw [unroll_of_indents (hindents.trans h.indents)]
    unfold Lexer.dropKey
    rw [giveUp_calm (hpending ▸ h.pending)]
    refine ⟨_, rfl, ?_⟩
    show TokenKind.streamEnd :: t.tokens.map Token.kind = _
    rw [htokens, h.kinds]
  unfold Lexer.finish
  dsimp only
  split
  · exact hend rfl rfl rfl
  · exact hend rfl rfl rfl

theorem Behind.run {s : Lexer} {kinds : List TokenKind} (h : Behind s kinds) (fuel count : Nat) :
    ∃ s', s.run (fuel + 1) count = .ok s' ∧ s'.tokens.map Token.kind = .streamEnd :: kinds := by
  have houter : ∀ k ∈ s.outer, Calm k := by
    rw [h.outer]
    exact fun _ hk => absurd hk List.not_mem_nil
  have hsettled : Behind s.settled kinds := {
    rest := h.rest
    kinds := h.kinds
    outer := by
      show s.outer.map _ = []
      rw [h.outer]
      rfl
    pending := h.pending.settle s.mark
    indents := h.indents }
  obtain ⟨s', hfinish, hkinds⟩ := hsettled.finish
  have hskip := skip_of_nil h.rest
  have hfetch : s.fetch = .ok s' := by
    rw [fetch_calm hskip houter h.pending h.indents, h.rest]
    exact hfinish
  have hend : s.atEnd = true := by
    unfold Lexer.atEnd
    rw [hskip, h.rest]
    rfl
  refine ⟨s', ?_, hkinds⟩
  rw [Lexer.run, hfetch]
  show (if s.atEnd = true then _ else _) = _
  rw [hend]
  rfl

/-! ### Characters of a text -/

section printable

variable {cs : List Char} (h : Printable cs)

include h

theorem firstForbidden?_printable (m : Mark) : firstForbidden? cs m = none := by
  induction cs generalizing m with
  | nil => rfl
  | cons c cs ih =>
    obtain ⟨hc, hcs⟩ := List.forall_mem_cons.mp h
    have hallowed : isAllowed c = true := by
      obtain ⟨hlow, hhigh⟩ := hc
      unfold isAllowed
      simp [hlow, hhigh]
    rw [firstForbidden?, if_pos hallowed]
    exact ih hcs _

theorem unifyBreaks_printable : unifyBreaks cs = cs := by
  induction cs with
  | nil => rfl
  | cons c cs ih =>
    obtain ⟨hc, hcs⟩ := List.forall_mem_cons.mp h
    have hreturn : c ≠ '\r' := by
      rintro rfl
      exact absurd hc.1 (by decide)
    have hnext : c ≠ '\u0085' := by
      rintro rfl
      exact absurd hc.2 (by decide)
    rw [unifyBreaks]
    · rw [if_neg (not_or.mpr ⟨hreturn, hnext⟩), ih hcs]
    · rintro _ rfl
      exact absurd rfl hreturn

end printable

theorem printable_word {w : String} (hw : w ∈ Compact.words) : Printable w.toList := by
  have hwords : w = "null" ∨ w = "true" ∨ w = "false" := by simpa [Compact.words] using hw
  rcases hwords with rfl | rfl | rfl <;> decide

theorem printable_entriesText {es : List (String × Compact)}
    (hkeys : ∀ e ∈ es, Compact.IsKey e.1) (hvalues : ∀ e ∈ es, Printable e.2.text) :
    Printable (Compact.entriesText es) := by
  induction es with
  | nil => exact printable_nil
  | cons e es ih =>
    obtain ⟨name, f⟩ := e
    obtain ⟨hname, hkeys'⟩ := List.forall_mem_cons.mp hkeys
    obtain ⟨hf, hvalues'⟩ := List.forall_mem_cons.mp hvalues
    have hentry {rest : List Char} (hrest : Printable rest) :
        Printable (stringText name ++ ':' :: rest) :=
      printable_append (printable_stringText hname.1) (printable_cons (by decide) hrest)
    cases es with
    | nil => exact hentry hf
    | cons e es =>
      exact hentry (printable_append hf (printable_cons (by decide) (ih hkeys' hvalues')))

theorem printable_text {f : Compact} (hf : f.Fits) : Printable f.text := by
  induction hf with
  | word hw => exact printable_word hw
  | quoted ht => exact printable_stringText ht
  | mapping hkeys _ ih =>
    exact printable_cons (by decide)
      (printable_append (printable_entriesText hkeys ih) (by decide))

/-- The tokens of a compact document. -/
theorem tokens_text {es : List (String × Compact)} (hf : (Compact.mapping es).Fits) :
    ∃ ts, tokens (String.ofList (Compact.mapping es).text) = .ok ts ∧
      ts.map Token.kind = (Compact.mapping es).kinds ++ [.streamEnd] := by
  have hprintable := printable_text hf
  cases hf with
  | mapping hkeys hvalues =>
    obtain ⟨s, hstart, hs⟩ := start_open (Compact.entriesText es ++ ['\x7d'])
    obtain ⟨t, b, hst, ht⟩ := scan_entries hkeys (fun e he => scansValue (hvalues e he)) hs
    obtain ⟨u, htu, hu⟩ := ht.step_last
    obtain ⟨n, hn, hrun⟩ := hstart.trans (hst.trans htu)
    rw [hu.rest] at hn
    obtain ⟨count, hcount⟩ := hrun ((Compact.mapping es).text.length - n + 1) 0
    obtain ⟨v, hv, hkinds⟩ := hu.run ((Compact.mapping es).text.length - n) count
    have hall : (Lexer.start (Compact.mapping es).text).run
        ((Compact.mapping es).text.length + 1) 0 = .ok v := by
      have hn' : n ≤ (Compact.mapping es).text.length := by
        rw [Compact.text]
        simpa [Lexer.start] using hn
      have hfuel : (Compact.mapping es).text.length + 1 =
          n + ((Compact.mapping es).text.length - n + 1) := by omega
      rw [hfuel]
      exact hcount.trans hv
    refine ⟨v.tokens.reverse, ?_, ?_⟩
    · unfold tokens
      rw [String.toList_ofList, firstForbidden?_printable hprintable,
        unifyBreaks_printable hprintable]
      dsimp only
      rw [hall]
      rfl
    · rw [List.map_reverse, hkinds, Compact.kinds]
      simp

end CacheWarden.Yaml
