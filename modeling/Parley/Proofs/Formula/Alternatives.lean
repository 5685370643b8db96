import Parley.Proofs.Formula.Completeness

/-!
# Which alternative is taken

The alternatives of a rule begin with different characters, so that at most one of them gets
further than its first one. The exception is a sign: a signed numeral is a value, and a sign
before a numeral is an operator as well.

- `Word`, `readsWord_wordOrNumber`: the words that are read as values.
- `valueOver_of_paren` and the lemmas after it: values by their beginning.
- `memberAfter_of_point`, `memberOver_missing`: what is tried behind a value.
- `Kind.Quiet`: the places where a tree of a kind has ended for good.
-/

namespace Parley.Formula

open Rule

/-! ## Words -/

/-- The text begins with a word for what is yielded, up to `rest`. -/
inductive Word : (text : List Char) → Yield → (rest : List Char) → Prop where
  | keyword (keyword : Keyword) {rest : List Char} (ends : startsInWord rest = false) :
    Word (keyword.text ++ rest) keyword.yielded rest
  | numeral (n : Numeral) {rest : List Char} (ends : ∀ ch ∈ rest.head?, ch.isDigit = false) :
    Word (n.text ++ rest) (.fresh (.integer n.integer)) rest

section Words

variable {c : Cursor} {s : ObjectId} {rest : List Char} {yielded : Yield}

theorem wordOrNumber_of_word (h : Word c.rest yielded rest) (s : ObjectId) :
    wordOrNumber c s = (.found (yielded.settle s).1, c.seek rest, (yielded.settle s).2) := by
  generalize hc : c.rest = text at h
  cases h with
  | keyword keyword ends => exact wordOrNumber_keyword keyword hc ends
  | numeral n ends => exact wordOrNumber_digits n hc ends

/-- The rule finds the word that comes next, or it gives up. -/
def ReadsWord (rule : GrammarRule) (c : Cursor) : Prop :=
  (∃ yielded rest, Word c.rest yielded rest ∧ ∀ s,
    rule c s = (.found (yielded.settle s).1, c.seek rest, (yielded.settle s).2)) ∨
  rule.GivesUp c

theorem ReadsWord.constant_orElse {word : String} {second : GrammarRule} (keyword : Keyword)
    (hword : word.toList = keyword.text) (h : ReadsWord second c) :
    ReadsWord (constant word keyword.yielded <|> second) c := by
  rcases hk : c.keyword word.toList with ⟨_ | _, c₁⟩
  · have hsecond : ∀ s, (constant word keyword.yielded <|> second) c s = second c s :=
      fun s => orElse_of_missing (constant_of_no_keyword keyword.yielded hk)
    rcases h with ⟨yielded, rest, hrest, hr⟩ | hgives
    · exact .inl ⟨yielded, rest, hrest, fun s => (hsecond s).trans (hr s)⟩
    · refine .inr fun s => ?_
      rw [hsecond]
      exact hgives s
  · obtain ⟨hrest, hend⟩ := Cursor.keyword_found hk
    rw [hword] at hrest
    refine .inl ⟨keyword.yielded, c₁.rest, hrest ▸ .keyword keyword hend, fun s => ?_⟩
    exact constant_orElse_of_text (hword ▸ hrest) hend

theorem readsWord_number (c : Cursor) :
    ReadsWord (do settle (.fresh (.integer (← .read Cursor.integer)))) c := by
  rcases hi : c.integer with ⟨_ | value, c₁⟩
  · right
    have hread : (Rule.read Cursor.integer : Rule ObjectId Fault Int64).GivesUp c := by
      intro s
      rw [Rule.read, hi]
      exact ⟨c₁, rfl⟩
    exact hread.bind _
  · left
    obtain ⟨n, hrest, rfl⟩ := Cursor.exists_numeral hi
    have hend := Cursor.not_isDigit_of_integer hi
    exact ⟨_, c₁.rest, hrest ▸ Word.numeral n hend, fun s => number_of_digits n hrest hend⟩

theorem readsWord_wordOrNumber (c : Cursor) : ReadsWord wordOrNumber c :=
  ReadsWord.constant_orElse .null rfl <|
  ReadsWord.constant_orElse .newobj rfl <|
  ReadsWord.constant_orElse .allobj rfl <|
  ReadsWord.constant_orElse (.boolean true) rfl <|
  ReadsWord.constant_orElse (.boolean false) rfl <|
  readsWord_number c

/-- The only words that begin with a sign are signed numerals. -/
theorem Word.exists_numeral {sign : Sign} {text input : List Char} (h : Word text yielded rest)
    (htext : text = sign.symbol :: input) :
    ∃ n : Numeral, n.sign = some sign ∧ input = n.digits ++ rest ∧
      (∀ ch ∈ rest.head?, ch.isDigit = false) ∧ yielded = .fresh (.integer n.integer) := by
  cases h with
  | keyword keyword ends =>
    rcases keyword with - | - | - | - | - <;> cases sign <;>
      exact absurd (List.cons.inj htext).1 (by decide)
  | numeral n ends =>
    rw [Numeral.text] at htext
    rcases hs : n.sign with - | sign' <;> rw [hs] at htext
    · obtain ⟨d, ds, hd⟩ := List.exists_cons_of_ne_nil n.digits_ne_nil
      have hdigit : d.isDigit = true := n.isDigit_of_mem d (by simp [hd])
      rw [hd] at htext
      rw [(List.cons.inj htext).1, Cursor.isDigit_symbol] at hdigit
      cases hdigit
    · obtain ⟨hsymbol, hinput⟩ := List.cons.inj htext
      obtain rfl : sign' = sign := by
        cases sign' <;> cases sign <;> first | rfl | exact absurd hsymbol (by decide)
      exact ⟨n, hs, hinput.symm, ends, rfl⟩

/-- Digits that stand for too large a number begin no word. -/
theorem wordOrNumber_givesUp_of_digits {digits : List Char} (hne : digits ≠ [])
    (hdigits : ∀ ch ∈ digits, ch.isDigit = true) (hend : ∀ ch ∈ rest.head?, ch.isDigit = false)
    (hlarge : ¬ decimal none digits < 0x8000000000000000) (h : c.rest = digits ++ rest) :
    wordOrNumber.GivesUp c := by
  obtain ⟨d, ds, rfl⟩ := List.exists_cons_of_ne_nil hne
  have hd : d.isDigit = true := hdigits d List.mem_cons_self
  have hnone : Cursor.integerAt c.rest = none := by
    rw [Cursor.integerAt, h, Cursor.splitSign_of_none (by simp [Cursor.ofChar?_of_isDigit hd]),
      (Cursor.span_digits hdigits hend).1]
    rcases hv : Cursor.integerOf? none (d :: ds) with - | value
    · rfl
    · exact absurd (Cursor.integerOf?_eq_some_iff.1 hv).2.2.1 hlarge
  intro s
  rw [wordOrNumber_of_not_isAlpha (by rw [h]; rintro _ ⟨⟩; exact isAlpha_of_isDigit hd)]
  have hread : (Rule.read Cursor.integer : Rule ObjectId Fault Int64).GivesUp c := by
    intro s
    rw [Rule.read, Cursor.integer_eq, hnone]
    exact ⟨c, rfl⟩
  exact hread.bind _ s

/-- A word is read in the same way if the text ends somewhere behind it. -/
theorem Word.cut {text x y tail : List Char} (h : Word text yielded rest) (htext : text = x ++ tail)
    (hrest : rest = y ++ tail) : Word x yielded y := by
  cases h with
  | keyword keyword ends =>
    rw [hrest, ← List.append_assoc] at htext
    obtain rfl := List.append_cancel_right htext
    refine .keyword keyword ?_
    cases y with
    | nil => rfl
    | cons ch y => exact (congrArg startsInWord hrest).symm.trans ends
  | numeral n ends =>
    rw [hrest, ← List.append_assoc] at htext
    obtain rfl := List.append_cancel_right htext
    refine .numeral n fun ch hch => ends ch ?_
    rw [hrest, List.head?_append, Option.mem_def.1 hch]
    rfl

end Words

/-! ## Values -/

section Values

variable {expression : List Object → GrammarRule} {held : List Object} {c c' : Cursor}
  {s s' : ObjectId} {input rest digits : List Char} {base : Object}

theorem valueOver_of_paren (hb : ∀ held, (expression held).Balanced)
    (h : skipBlank c.rest = '(' :: input) :
    Alike (valueOver expression held c s) (nested (parenthesized expression held) c s) := by
  refine orElse_alike fun c' s' hr s => ?_
  obtain ⟨rfl, -⟩ := restores_nested (parenthesized_balanced hb held) hr
  rw [literalOver_eq_wordOrNumber held s hb (by rw [h]; simp), h]
  exact wordOrNumber_givesUp_of_mem (by decide) s

theorem valueOver_of_bracket (hb : ∀ held, (expression held).Balanced)
    (h : skipBlank c.rest = '[' :: input) :
    Alike (valueOver expression held c s)
      (nested (array expression held) (c.seek ('[' :: input)) s) := by
  rw [valueOver_eq_literalOver held s hb (by rw [h]; simp), literalOver_eq, h]
  refine orElse_alike fun c' s' hr => ?_
  obtain ⟨rfl, -⟩ := restores_nested (array_balanced hb held) hr
  exact wordOrNumber_givesUp_of_mem (by decide)

/-- Digits are read as one number, unless that is too large. -/
theorem valueOver_digits (hb : ∀ held, (expression held).Balanced) (hne : digits ≠ [])
    (hdigits : ∀ ch ∈ digits, ch.isDigit = true) (hend : ∀ ch ∈ rest.head?, ch.isDigit = false)
    (h : c.rest = digits ++ rest) :
    (∃ n : Numeral, n.sign = none ∧ n.digits = digits ∧ ∀ held s,
      valueOver expression held c s = (.found (.integer s n.integer), c.seek rest, s + 1)) ∨
    ∀ held, (valueOver expression held).GivesUp c := by
  obtain ⟨d, ds, rfl⟩ := List.exists_cons_of_ne_nil hne
  have hd : d.isDigit = true := hdigits d List.mem_cons_self
  have hskip : skipBlank c.rest = d :: (ds ++ rest) := by
    rw [h]
    exact skipBlank_cons (isSpace_of_isDigit hd) _
  have hparen : d ≠ '(' := by rintro rfl; exact absurd hd (by decide)
  have hbracket : d ≠ '[' := by rintro rfl; exact absurd hd (by decide)
  by_cases hfits : decimal none (d :: ds) < 0x8000000000000000
  · have hsmall : -0x8000000000000000 ≤ decimal none (d :: ds) :=
      Int.le_trans (by decide) (Numeral.decimal_nonneg _)
    refine .inl ⟨⟨none, d :: ds, hne, hdigits, hsmall, hfits⟩, rfl, rfl, fun held s => ?_⟩
    rw [valueOver_eq_wordOrNumber held s hb hskip hparen hbracket]
    exact wordOrNumber_digits (c := c.seek (d :: (ds ++ rest))) _ rfl hend
  · exact .inr fun held => valueOver_givesUp hb hskip hparen hbracket
      (wordOrNumber_givesUp_of_digits (c := c.seek (d :: (ds ++ rest))) hne hdigits hend hfits rfl)

theorem prefix_of_digits (hne : digits ≠ []) (hdigits : ∀ ch ∈ digits, ch.isDigit = true)
    (h : c.rest = digits ++ rest) :
    ∀ ch ∈ (skipBlank c.rest).head?, Sign.ofChar? ch = none ∧ ch ≠ '!' := by
  obtain ⟨d, ds, rfl⟩ := List.exists_cons_of_ne_nil hne
  have hd : d.isDigit = true := hdigits d List.mem_cons_self
  rw [h, List.cons_append, skipBlank_cons (isSpace_of_isDigit hd)]
  rintro _ ⟨⟩
  refine ⟨Cursor.ofChar?_of_isDigit hd, ?_⟩
  rintro rfl
  exact absurd hd (by decide)

/-- The only values that begin with a sign are signed numerals. -/
theorem valueOver_of_sign {sign : Sign} (hb : ∀ held, (expression held).Balanced)
    (h : skipBlank c.rest = sign.symbol :: input) :
    (∃ (n : Numeral) (rest : List Char), n.sign = some sign ∧ input = n.digits ++ rest ∧
      (∀ ch ∈ rest.head?, ch.isDigit = false) ∧ ∀ held s,
        valueOver expression held c s = (.found (.integer s n.integer), c.seek rest, s + 1)) ∨
    ∀ held, (valueOver expression held).GivesUp c := by
  have heq := fun held s => valueOver_eq_wordOrNumber held s hb h (by cases sign <;> decide)
    (by cases sign <;> decide)
  rcases readsWord_wordOrNumber (c.seek (sign.symbol :: input)) with
    ⟨yielded, rest, hword, hr⟩ | hgives
  · left
    obtain ⟨n, hsign, hinput, hend, rfl⟩ := hword.exists_numeral rfl
    refine ⟨n, rest, hsign, hinput, hend, fun held s => ?_⟩
    rw [heq, hr]
    rfl
  · right
    intro held s
    rw [heq]
    exact hgives s

/-! ### Members -/

theorem memberAfter_of_point (hb : ∀ held, (expression held).Balanced)
    (h : skipBlank c.rest = '.' :: input) :
    memberAfter expression held base c s =
      match valueOver expression (base :: held) (c.beginScope.seek input) s with
      | (.found member, c', s') => (.ofOption (base.member held member), c'.endScope false, s')
      | (.missing, _, s') => (.found base, c, s')
      | (.fault cause, c', s') => (.fault cause, c'.endScope true, s') := by
  have hpoint : (do
      skipSpaces; expectChar '.'; valueOver expression (base :: held) : GrammarRule)
        c.beginScope s = valueOver expression (base :: held) (c.beginScope.seek input) s :=
    skip_expect_of_head h
  have hbalanced := (point_value_balanced hb (base :: held) c.beginScope s).1
  show Rule.bind (Rule.optional (Rule.attempt _)) _ c s = _
  rcases hr : valueOver expression (base :: held) (c.beginScope.seek input) s with
    ⟨member | - | cause, c', s'⟩ <;> rw [hpoint, hr] at hbalanced <;>
    simp only [Rule.bind, Rule.optional, Rule.attempt, hpoint, hr]
  · rfl
  · -- without a member, the point is left unread
    exact congrArg (fun c' => (Outcome.found base, c', s')) hbalanced.endScope_true
  · rfl

/-- A value with a member behind it that is none, or no value at all. -/
theorem memberOver_missing (hb : ∀ held, (expression held).Balanced)
    (h : memberOver expression held c s = (.missing, c', s')) :
    valueOver expression held c s = (.missing, c', s') ∨
      ∃ base rest s₁ input member rest',
        valueOver expression held c s = (.found base, c.seek rest, s₁) ∧
        skipBlank rest = '.' :: input ∧
        valueOver expression (base :: held) ((c.seek rest).beginScope.seek input) s₁ =
          (.found member, (c.seek rest).beginScope.seek rest', s') ∧
        base.member held member = none := by
  have hvalue := valueOver_balanced hb
  replace h : Rule.bind (valueOver expression held) (memberAfter expression held) c s = _ := h
  obtain ⟨⟨rest, -, hc⟩, -⟩ := hvalue held c s
  rcases hr : valueOver expression held c s with ⟨base | - | cause, c₁, s₁⟩ <;>
    simp only [Rule.bind, hr] at h hc
  · obtain rfl : c₁ = c.seek rest := hc
    right
    by_cases hpoint : (skipBlank rest).head? = some '.'
    · obtain ⟨input, hinput⟩ := List.head?_eq_some_iff.1 hpoint
      obtain ⟨⟨rest', -, hc'⟩, -⟩ := hvalue (base :: held) ((c.seek rest).beginScope.seek input) s₁
      rw [memberAfter_of_point (c := c.seek rest) hb hinput] at h
      rcases hm : valueOver expression (base :: held) ((c.seek rest).beginScope.seek input) s₁ with
        ⟨member | - | cause, c₂, s₂⟩ <;> rw [hm] at h hc'
      · obtain rfl : c₂ = (c.seek rest).beginScope.seek rest' := hc'
        simp only [Prod.mk.injEq] at h
        obtain ⟨hnone, -, rfl⟩ := h
        refine ⟨base, rest, s₁, input, member, rest', rfl, hinput, hm, ?_⟩
        cases hmember : base.member held member with
        | none => rfl
        | some object => simp [hmember, Outcome.ofOption] at hnone
      · simp at h
      · simp at h
    · rw [memberAfter_of_no_point (c := c.seek rest) hb base hpoint] at h
      cases h
  · exact .inl h
  · cases h

/-- An operand that begins with digits is a number. -/
theorem unary_digits_found {levels : Nat} {v : Object} (hne : digits ≠ [])
    (hdigits : ∀ ch ∈ digits, ch.isDigit = true) (hend : ∀ ch ∈ rest.head?, ch.isDigit = false)
    (h : c.rest = digits ++ rest) (hr : unary levels held c s = (.found v, c', s')) :
    ∃ n : Numeral, n.sign = none ∧ n.digits = digits ∧ v = .integer s n.integer ∧
      c' = c.seek rest := by
  cases levels with
  | zero => cases hr
  | succ levels =>
    have hb := expressionOver_balanced (unary_balanced levels)
    have hattempt := ((unary_of_head (prefix_of_digits hne hdigits h)).found_iff _ _ _).1 hr
    obtain ⟨r, hmember, rfl⟩ := attempt_found (memberOver_balanced hb held) hattempt
    rw [memberOver_eq] at hmember
    rcases valueOver_digits (c := c.beginScope) hb hne hdigits hend h with
      ⟨n, hsign, hn, hvalue⟩ | hgives
    · rw [bind_of_found (hvalue held s)] at hmember
      suffices hfound : v = .integer s n.integer ∧ r = rest by
        obtain ⟨rfl, rfl⟩ := hfound
        exact ⟨n, hsign, hn, rfl, rfl⟩
      by_cases hpoint : (skipBlank rest).head? = some '.'
      · obtain ⟨input, hc⟩ := List.head?_eq_some_iff.1 hpoint
        rw [memberAfter_of_point (c := c.beginScope.seek rest) hb hc] at hmember
        -- no integer has a member
        rcases hm : valueOver (expressionOver (unary levels)) (.integer s n.integer :: held)
          ((c.beginScope.seek rest).beginScope.seek input) (s + 1) with
          ⟨member | - | cause, c₁, s₁⟩ <;> rw [hm] at hmember
        · exact nomatch congrArg Prod.fst hmember
        · simp only [Prod.mk.injEq, Outcome.found.injEq] at hmember
          exact ⟨hmember.1.symm, (congrArg Cursor.rest hmember.2.1).symm⟩
        · exact nomatch congrArg Prod.fst hmember
      · rw [memberAfter_of_no_point (c := c.beginScope.seek rest) hb _ hpoint] at hmember
        simp only [Prod.mk.injEq, Outcome.found.injEq] at hmember
        exact ⟨hmember.1.symm, (congrArg Cursor.rest hmember.2.1).symm⟩
    · obtain ⟨c₁, hmissing⟩ := (hgives held).bind
        (memberAfter (expressionOver (unary levels)) held) s
      exact nomatch hmissing.symm.trans hmember

end Values

/-! ## Quiet places -/

/-- Nothing comes next that a rule for the kind looks at: neither a point nor an operator by
which a tree of the kind could go on. -/
def Kind.Quiet (k : Kind) (rest : List Char) : Prop :=
  ∀ ch ∈ (skipBlank rest).head?, ch ≠ '.' ∧ ¬ k.Continues ch

namespace Kind.Quiet

variable {k : Kind} {l : Level} {op : BinaryOp} {rest more : List Char} {ch : Char}

theorem of_blank (h : skipBlank rest = []) : k.Quiet rest := by
  intro ch hch
  rw [h] at hch
  cases hch

theorem of_closing (h : skipBlank rest = ch :: more) (hch : ch ∈ closing) : k.Quiet rest := by
  intro ch' hhead
  rw [h] at hhead
  cases hhead
  refine ⟨?_, fun hop => hop.not_mem_closing hch⟩
  rintro rfl
  exact absurd hch (by decide)

theorem operand (h : (Kind.chain l).Quiet rest) : l.operand.Quiet rest :=
  fun ch hch => ⟨(h ch hch).1, fun hop => (h ch hch).2 hop.of_operand⟩

/-- An operand has ended for good before an operator of its chain. -/
theorem of_operator (hop : op.level = l) (h : skipBlank rest = op.symbol :: more) :
    l.operand.Quiet rest := by
  intro ch hch
  rw [h] at hch
  cases hch
  refine ⟨by cases op <;> decide, fun hcontinues => ?_⟩
  have hnone := hcontinues.operator?_eq_none
  rw [Level.operator?_eq_some_iff.2 ⟨hop, rfl⟩] at hnone
  cases hnone

theorem not_of_operator (hop : op.level = l) (h : skipBlank rest = op.symbol :: more) :
    ¬ (Kind.chain l).Quiet rest := by
  intro hquiet
  refine (hquiet op.symbol (by rw [h]; rfl)).2 ⟨op, rfl, ?_⟩
  exact Nat.le_of_eq (congrArg Level.rank hop.symm)

/-- No operator of the chain comes next. -/
theorem operator?_eq_none (h : (Kind.chain l).Quiet rest) :
    ∀ ch ∈ (skipBlank rest).head?, l.operator? ch = none := by
  intro ch hch
  cases ho : l.operator? ch with
  | none => rfl
  | some op =>
    obtain ⟨hlevel, rfl⟩ := Level.operator?_eq_some_iff.1 ho
    obtain ⟨more, hrest⟩ := List.head?_eq_some_iff.1 hch
    exact absurd h (not_of_operator hlevel hrest)

end Kind.Quiet

/-- A chain goes no further where its last operand has not ended for good. -/
theorem chainFrom_of_not_quiet {l : Level} {operand : List Object → GrammarRule}
    {held : List Object} {room : List Char} {left : Object} {c : Cursor} {s : ObjectId}
    (h : ¬ l.operand.Quiet c.rest) :
    ∃ rest, chainFrom l.operator? operand held room left c s = (.found left, c.seek rest, s) ∧
      skipBlank rest = skipBlank c.rest := by
  cases room with
  | nil => exact ⟨c.rest, rfl, rfl⟩
  | cons a room =>
    refine ⟨skipBlank c.rest, chainFrom_stop (fun ch hch => ?_) nofun, skipBlank_skipBlank _⟩
    -- neither a point nor an operator that binds tighter is one of the chain
    by_contra hop
    refine h fun ch' hch' => ?_
    obtain rfl : ch = ch' := Option.some.inj (hch.symm.trans hch')
    refine ⟨?_, fun hcontinues => hop hcontinues.operator?_eq_none⟩
    rintro rfl
    exact hop (by cases l <;> rfl)

end Parley.Formula
