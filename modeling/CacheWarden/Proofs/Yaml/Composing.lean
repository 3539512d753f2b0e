import CacheWarden.Proofs.Yaml.Scanning
/-!
The nodes of a compact document.

Its tokens have no anchors, no aliases and no tags, so a node takes its own tokens off the
front and leaves all else as it was (`readsNode`).  A text has room for its document: four
readers at most are at work between two tokens, and the fuel is five for each token.
-/

namespace CacheWarden.Yaml

variable {s : Composer} {start stop : Mark} {first : Token} {stops : List TokenKind}
  {ts more : List Token}

/-- What is known in front of some tokens: only these are left, all else is as in `s`. -/
def Composer.before (s : Composer) (ts : List Token) : Composer := { s with tokens := ts }

/-! ### Single tokens -/

theorem readNode_scalar (s : Composer) (ts : List Token) (text : String) (style : Style)
    (block indentless : Bool) (fuel : Nat) :
    readNode block indentless (fuel + 2) (s.before (⟨.scalar text style, start, stop⟩ :: ts)) =
      (.scalar start none text style, s.before ts) := by
  rw [readNode]
  rfl

theorem readNode_mapping {fuel : Nat} {es : List (Node × Node)} {s' : Composer}
    (hes : readFlowMapping true fuel (s.before ts) = (es, s')) (block indentless : Bool) :
    readNode block indentless (fuel + 2) (s.before (⟨.flowMapping, start, stop⟩ :: ts)) =
      (.mapping start es, s') := by
  rw [readNode]
  show readContent block indentless start false none (fuel + 1)
    (s.before (⟨.flowMapping, start, stop⟩ :: ts)) = _
  rw [readContent]
  show (Node.mapping start (readFlowMapping true fuel (s.before ts)).1,
    (readFlowMapping true fuel (s.before ts)).2) = _
  rw [hes]

theorem readNodeUnless_of_not (hstops : stops.contains first.kind = false) (s : Composer)
    (ts : List Token) (block indentless : Bool) (mark : Mark) (fuel : Nat) :
    readNodeUnless block indentless stops mark (fuel + 1) (s.before (first :: ts)) =
      readNode block indentless fuel (s.before (first :: ts)) := by
  rw [readNodeUnless]
  show (if stops.contains first.kind = true then (pure (emptyNode mark) : Compose Node)
    else readNode block indentless fuel) _ = _
  rw [hstops]
  rfl

theorem readFlowValue_value (hstops : stops.contains first.kind = false) (s : Composer)
    (ts : List Token) (fuel : Nat) :
    readFlowValue stops (fuel + 2) (s.before (⟨.value, start, stop⟩ :: first :: ts)) =
      readNode false false fuel (s.before (first :: ts)) := by
  rw [readFlowValue]
  apply readNodeUnless_of_not hstops

theorem readFlowMapping_end (s : Composer) (ts : List Token) (isFirst : Bool) (fuel : Nat) :
    readFlowMapping isFirst (fuel + 1) (s.before (⟨.flowMappingEnd, start, stop⟩ :: ts)) =
      ([], s.before ts) := by
  rw [readFlowMapping]
  rfl

/-- Behind a comma the entries go on as from the first one. -/
theorem readFlowMapping_comma {begin' end' : Mark} (s : Composer) (ts : List Token) (fuel : Nat) :
    readFlowMapping false (fuel + 1)
        (s.before (⟨.flowEntry, start, stop⟩ :: ⟨.key, begin', end'⟩ :: ts)) =
      readFlowMapping true (fuel + 1) (s.before (⟨.key, begin', end'⟩ :: ts)) := by
  rw [readFlowMapping, readFlowMapping]
  rfl

/-- A key has a node, then comes the value, and then the other entries. -/
theorem readFlowMapping_key (s : Composer) (ts : List Token) (fuel : Nat) :
    readFlowMapping true (fuel + 1) (s.before (⟨.key, start, stop⟩ :: first :: ts)) =
      (let k := readNodeUnless false false [.value, .flowEntry, .flowMappingEnd] first.start fuel
          (s.before (first :: ts))
        let v := readFlowValue [.flowEntry, .flowMappingEnd] fuel k.2
        let r := readFlowMapping false fuel v.2
        ((k.1, v.1) :: r.1, r.2)) := by
  rw [readFlowMapping]
  rfl

/-! ### Nodes -/

theorem tokens_of_kinds {k : TokenKind} {ks : List TokenKind}
    (h : ts.map Token.kind = k :: ks) :
    ∃ start stop ts', ts = ⟨k, start, stop⟩ :: ts' ∧ ts'.map Token.kind = ks := by
  obtain ⟨⟨_, start, stop⟩, ts', rfl, rfl, hts⟩ := List.map_eq_cons_iff.mp h
  exact ⟨start, stop, ts', rfl, hts⟩

namespace Compact

/-- The tokens of a document are read as a node that shows it. -/
def ReadsNode (f : Compact) : Prop :=
  ∀ (block indentless : Bool) (s : Composer) (ts more : List Token) (fuel : Nat),
    ts.map Token.kind = f.kinds → 5 * ts.length ≤ fuel →
      ∃ n, f.Shows n ∧
        readNode block indentless fuel (s.before (ts ++ more)) = (n, s.before more)

/-- No document begins with a token that leaves a value out. -/
theorem kinds_begin (f : Compact) :
    ∃ k ks, f.kinds = k :: ks ∧
      [TokenKind.flowEntry, TokenKind.flowMappingEnd].contains k = false := by
  cases f with
  | word w => exact ⟨_, _, rfl, rfl⟩
  | quoted t => exact ⟨_, _, rfl, rfl⟩
  | mapping es => exact ⟨_, _, rfl, rfl⟩

/-- Every entry begins with its key. -/
theorem entriesKinds_begin (e : String × Compact) (es : List (String × Compact)) :
    ∃ ks, entriesKinds (e :: es) = .key :: ks := by
  cases es with
  | nil => exact ⟨_, rfl⟩
  | cons e' es => exact ⟨_, rfl⟩

variable {f : Compact} {name : String} {es : List (String × Compact)} {fuel : Nat}

theorem readFlowMapping_entry (hf : f.ReadsNode)
    (hts : ts.map Token.kind = .key :: .scalar name .double :: .value :: f.kinds)
    (hfuel : 5 * ts.length ≤ fuel) (s : Composer) (more : List Token) :
    ∃ m n, f.Shows n ∧ readFlowMapping true (fuel + 1) (s.before (ts ++ more)) =
      ((.scalar m none name .double, n) :: (readFlowMapping false fuel (s.before more)).1,
        (readFlowMapping false fuel (s.before more)).2) := by
  obtain ⟨start₁, stop₁, ts, rfl, hname⟩ := tokens_of_kinds hts
  obtain ⟨start₂, stop₂, ts, rfl, hcolon⟩ := tokens_of_kinds hname
  obtain ⟨start₃, stop₃, ts, rfl, hvalue⟩ := tokens_of_kinds hcolon
  simp only [List.length_cons] at hfuel
  obtain ⟨fuel, rfl⟩ := Nat.exists_eq_add_of_le' (show 3 ≤ fuel by omega)
  obtain ⟨n, hn, hread⟩ := hf false false s ts more (fuel + 1) hvalue (by omega)
  -- the value has a first token, which starts a node
  obtain ⟨k, ks, hk, hstops⟩ := f.kinds_begin
  obtain ⟨start₄, stop₄, ts, rfl, -⟩ := tokens_of_kinds (hvalue.trans hk)
  refine ⟨start₂, n, hn, ?_⟩
  simp only [List.cons_append] at hread ⊢
  rw [readFlowMapping_key, readNodeUnless_of_not rfl, readNode_scalar]
  dsimp only
  rw [readFlowValue_value hstops, hread]

/-- The entries in front of a closing brace. -/
theorem readFlowMapping_entries (hes : ∀ e ∈ es, e.2.ReadsNode)
    (hts : ts.map Token.kind = entriesKinds es) (hfuel : 5 * ts.length < fuel) (s : Composer)
    (start stop : Mark) (more : List Token) :
    ∃ ns, EntriesShow es ns ∧
      readFlowMapping true fuel (s.before (ts ++ ⟨.flowMappingEnd, start, stop⟩ :: more)) =
        (ns, s.before more) := by
  obtain ⟨fuel, rfl⟩ := Nat.exists_eq_add_of_le' (show 1 ≤ fuel by omega)
  induction es generalizing ts fuel with
  | nil =>
    obtain rfl := List.map_eq_nil_iff.mp hts
    exact ⟨[], rfl, readFlowMapping_end s more true fuel⟩
  | cons e es ih =>
    obtain ⟨name, f⟩ := e
    have hf := hes _ List.mem_cons_self
    cases es with
    | nil =>
      obtain ⟨m, n, hn, hread⟩ := readFlowMapping_entry hf hts (Nat.lt_succ_iff.mp hfuel) s
        (⟨.flowMappingEnd, start, stop⟩ :: more)
      obtain ⟨start₁, stop₁, ts, rfl, -⟩ := tokens_of_kinds hts
      simp only [List.length_cons] at hfuel
      obtain ⟨fuel, rfl⟩ := Nat.exists_eq_add_of_le' (show 1 ≤ fuel by omega)
      refine ⟨[(.scalar m none name .double, n)], ⟨m, n, [], rfl, hn, rfl⟩, ?_⟩
      rw [hread, readFlowMapping_end]
    | cons e es =>
      -- a comma, and the key of the next entry behind it
      have hsplit : ts.map Token.kind = (.key :: .scalar name .double :: .value :: f.kinds) ++
        .flowEntry :: entriesKinds (e :: es) := hts
      obtain ⟨ts₁, ts₂, rfl, hts₁, hts₂⟩ := List.map_eq_append_iff.mp hsplit
      obtain ⟨start₁, stop₁, ts₂, rfl, hrest⟩ := tokens_of_kinds hts₂
      simp only [List.length_append, List.length_cons] at hfuel
      obtain ⟨fuel, rfl⟩ := Nat.exists_eq_add_of_le' (show 1 ≤ fuel by omega)
      obtain ⟨m, n, hn, hread⟩ := readFlowMapping_entry hf hts₁
        (show 5 * ts₁.length ≤ fuel + 1 by omega) s
        (⟨.flowEntry, start₁, stop₁⟩ :: (ts₂ ++ ⟨.flowMappingEnd, start, stop⟩ :: more))
      obtain ⟨ns, hns, hread'⟩ :=
        ih (fun e he => hes e (List.mem_cons_of_mem _ he)) hrest fuel (by omega)
      obtain ⟨ks, hks⟩ := entriesKinds_begin e es
      obtain ⟨start₂, stop₂, ts₂, rfl, -⟩ := tokens_of_kinds (hrest.trans hks)
      refine ⟨(.scalar m none name .double, n) :: ns, ⟨m, n, ns, rfl, hn, hns⟩, ?_⟩
      simp only [List.cons_append, List.append_assoc] at hread hread' ⊢
      rw [hread, readFlowMapping_comma, hread']

/-- A document of one token. -/
theorem readsNode_scalar {text : String} {style : Style} (hkinds : f.kinds = [.scalar text style])
    (hshows : ∀ m, f.Shows (.scalar m none text style)) : f.ReadsNode := by
  intro block indentless s ts more fuel hts hfuel
  obtain ⟨start, stop, ts, rfl, hnil⟩ := tokens_of_kinds (hts.trans hkinds)
  obtain rfl := List.map_eq_nil_iff.mp hnil
  simp only [List.length_singleton] at hfuel
  obtain ⟨fuel, rfl⟩ := Nat.exists_eq_add_of_le' (show 2 ≤ fuel by omega)
  exact ⟨_, hshows start, readNode_scalar s more text style block indentless fuel⟩

/-- Every document that fits is read. -/
theorem readsNode (hf : f.Fits) : f.ReadsNode := by
  induction hf with
  | word hw => exact readsNode_scalar rfl fun m => ⟨m, rfl⟩
  | quoted ht => exact readsNode_scalar rfl fun m => ⟨m, rfl⟩
  | mapping hkeys hes ih =>
    intro block indentless s ts more fuel hts hfuel
    obtain ⟨start, stop, ts, rfl, hinner⟩ := tokens_of_kinds hts
    obtain ⟨ts, last, rfl, hentries, hlast⟩ := List.map_eq_append_iff.mp hinner
    obtain ⟨start', stop', last, rfl, hnil⟩ := tokens_of_kinds hlast
    obtain rfl := List.map_eq_nil_iff.mp hnil
    simp only [List.length_cons, List.length_append] at hfuel
    obtain ⟨fuel, rfl⟩ := Nat.exists_eq_add_of_le' (show 2 ≤ fuel by omega)
    obtain ⟨ns, hns, hread⟩ := readFlowMapping_entries ih hentries
      (show 5 * ts.length < fuel by omega) s start' stop' more
    refine ⟨.mapping start ns, ⟨start, ns, rfl, hns⟩, ?_⟩
    simp only [List.cons_append, List.append_assoc, List.nil_append]
    apply readNode_mapping hread

end Compact

/-! ### Documents -/

variable {es : List (String × Compact)}

/-- No directive and no mark stands in front of the root. -/
theorem ofTokens_mapping {all : List Token} (h : all = ⟨.flowMapping, start, stop⟩ :: ts) :
    Document.ofTokens all =
      let r := readNode true false (5 * all.length + 8) (.start [] all)
      r.2.document r.1 := by
  subst h
  rw [Document.ofTokens]
  show (if (decide (ts.length + 1 = ts.length + 1) && true) = true then _ else _) = _
  rw [decide_eq_true rfl]
  rfl

/-- The text of a document is read, and its root shows the document. -/
theorem parse_text (hf : (Compact.mapping es).Fits) :
    ∃ d, parse (String.ofList (Compact.mapping es).text) = .ok d ∧
      (Compact.mapping es).Shows d.root := by
  obtain ⟨all, htokens, hall⟩ := tokens_text hf
  obtain ⟨ts, last, hsplit, hts, hlast⟩ := List.map_eq_append_iff.mp hall
  obtain ⟨start, stop, last, rfl, hnil⟩ := tokens_of_kinds hlast
  obtain rfl := List.map_eq_nil_iff.mp hnil
  have hfuel : 5 * ts.length ≤ 5 * all.length + 8 := by
    rw [hsplit, List.length_append]
    omega
  obtain ⟨n, hn, hread⟩ := Compact.readsNode hf true false (.start [] all) ts
    [⟨.streamEnd, start, stop⟩] _ hts hfuel
  rw [← hsplit] at hread
  obtain ⟨start', stop', ts', rfl, -⟩ := tokens_of_kinds hts
  refine ⟨⟨n, []⟩, ?_, hn⟩
  rw [parse, htokens]
  show Document.ofTokens all = _
  rw [ofTokens_mapping hsplit]
  have hread' : readNode true false (5 * all.length + 8) (.start [] all) = _ := hread
  rw [hread']
  rfl

end CacheWarden.Yaml
