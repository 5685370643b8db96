import Parley.Proofs.Formula.Chains
import Parley.Proofs.Formula.Operands

/-!
# Every tree is read as what it stands for

On the text of a tree without member access, the rule for its kind comes to the
value of the tree, however blanks are placed and whatever else is alive.

- `Tree.exists_head`: the first character of a tree.
- `Numeral.withSign`: a sign right before a numeral is read as part of it.
- `ruleFor`: the rule that reads a kind of tree.
- `Tree.meets`: it comes to what is expected, by induction on trees.
- `parse_text`: the text of a statement is evaluated to its value.
-/

namespace Parley.Formula

open Rule

/-! ## First characters -/

section Heads

variable {access : Bool}

/-- A tree begins with a blank and a character that is none and no bracket to the
right. -/
theorem Tree.exists_head : ∀ {k : Kind} (t : Tree access k) (rest : List Char),
    ∃ (b : Blank) (ch : Char) (more : List Char),
      t.spell rest = b.chars ++ ch :: more ∧ isSpace ch = false ∧ ch ≠ ']'
  | _, .chain first tail, rest => first.exists_head (tail.spell rest)
  | _, .plain value, rest => value.exists_head rest
  | _, .member _ base before name, rest => base.exists_head (before.chars ++ '.' :: name.spell rest)
  | _, .signed before sign _, _ =>
    ⟨before, sign.symbol, _, rfl, by cases sign <;> rfl, by cases sign <;> decide⟩
  | _, .negated before _, _ => ⟨before, '!', _, rfl, rfl, by decide⟩
  | _, .parens before _ _, _ => ⟨before, '(', _, rfl, rfl, by decide⟩
  | _, .emptyArray before _, _ => ⟨before, '[', _, rfl, rfl, by decide⟩
  | _, .array before _, _ => ⟨before, '[', _, rfl, rfl, by decide⟩
  | _, .word before keyword, rest => by
    obtain ⟨ch, more, htext, hspace, -, -, -, hbracket⟩ := keyword.exists_cons
    exact ⟨before, ch, more ++ rest, by rw [Tree.spell, htext]; rfl, hspace, hbracket⟩
  | _, .number before numeral, rest => by
    obtain ⟨ch, more, htext, hspace, -, -, -, hbracket⟩ := numeral.exists_cons
    exact ⟨before, ch, more ++ rest, by rw [Tree.spell, htext]; rfl, hspace, hbracket⟩

theorem Tree.head_ne_bracket {k : Kind} (t : Tree access k) (rest : List Char) :
    (skipBlank (t.spell rest)).head? ≠ some ']' := by
  obtain ⟨b, ch, more, htext, hspace, hbracket⟩ := t.exists_head rest
  rw [htext, b.skipBlank_append, skipBlank_cons hspace]
  simpa using hbracket

/-- Where a digit comes first there is no blank, and the digit belongs to what
stands after it. -/
theorem Blank.eq_nil_of_isDigit (b : Blank) {text : List Char} {d : Char}
    (hd : (b.chars ++ text).head? = some d) (hdigit : d.isDigit = true) :
    b.chars = [] ∧ text.head? = some d := by
  cases hb : b.chars with
  | nil => exact ⟨rfl, by rwa [hb] at hd⟩
  | cons blank blanks =>
    rw [hb] at hd
    cases hd
    have hspace : isSpace d = true := b.isSpace_of_mem d (by simp [hb])
    simp [isDigit_of_not_isIdentChar (isIdentChar_of_isSpace hspace)] at hdigit

theorem Items.head_ne_bracket (items : Items access) (rest : List Char) :
    (skipBlank (items.spell rest)).head? ≠ some ']' := by
  cases items with
  | last item _ => exact item.head_ne_bracket _
  | cons item _ _ => exact item.head_ne_bracket _

theorem Items.length_pos (items : Items access) {text rest : List Char}
    (h : skipBlank text = skipBlank (items.spell rest)) : 0 < text.length := by
  obtain ⟨b, ch, more, htext, hspace, -⟩ : ∃ (b : Blank) (ch : Char) (more : List Char),
      items.spell rest = b.chars ++ ch :: more ∧ isSpace ch = false ∧ ch ≠ ']' := by
    cases items with
    | last item _ => exact item.exists_head _
    | cons item _ _ => exact item.exists_head _
  rw [htext, b.skipBlank_append_cons hspace] at h
  exact Nat.zero_lt_of_lt (length_lt_of_skipBlank h)

/-- Only a number without a sign begins with a digit. -/
theorem Tree.eq_number_of_isDigit (t : Tree false .unary) {rest : List Char} {d : Char}
    (hd : (t.spell rest).head? = some d) (hdigit : d.isDigit = true) :
    ∃ (b : Blank) (n : Numeral), t = .plain (.number b n) ∧ b.chars = [] ∧ n.sign = none := by
  have hno : ∀ (b : Blank) {ch : Char} {more : List Char}, ch.isDigit = false →
      (b.chars ++ ch :: more).head? ≠ some d := by
    rintro b ch more hch hd
    obtain ⟨-, ⟨⟩⟩ := b.eq_nil_of_isDigit hd hdigit
    rw [hch] at hdigit
    cases hdigit
  match t, hd with
  | .signed before sign _, hd => exact absurd hd (hno before (Cursor.isDigit_symbol sign))
  | .negated before _, hd => exact absurd hd (hno before rfl)
  | .plain (.parens before _ _), hd => exact absurd hd (hno before rfl)
  | .plain (.emptyArray before _), hd => exact absurd hd (hno before rfl)
  | .plain (.array before _), hd => exact absurd hd (hno before rfl)
  | .plain (.word before keyword), hd =>
    obtain ⟨ch, more, htext, -, hch, -⟩ := keyword.exists_cons
    rw [Tree.spell, Tree.spell, htext] at hd
    exact absurd hd (hno before hch)
  | .plain (.number before n), hd =>
    obtain ⟨hblank, htext⟩ := before.eq_nil_of_isDigit hd hdigit
    refine ⟨before, n, rfl, hblank, ?_⟩
    rcases hs : n.sign with - | sign
    · rfl
    · rw [Numeral.text, hs] at htext
      exact absurd htext (hno .none (Cursor.isDigit_symbol sign))

/-- Only what is in parentheses or an array may have no value. -/
theorem Tree.head_of_mismatch (t : Tree false .value) (h : t.value = .error .mismatch)
    (rest : List Char) :
    ∃ ch more, skipBlank (t.spell rest) = ch :: more ∧ ch ∈ ['(', '['] := by
  cases t with
  | parens before inner after =>
    exact ⟨'(', _, (before.skipBlank_append _).trans (skipBlank_cons rfl _), by decide⟩
  | array before items =>
    exact ⟨'[', _, (before.skipBlank_append _).trans (skipBlank_cons rfl _), by decide⟩
  | emptyArray _ _ | word _ _ | number _ _ => simp [Tree.value] at h

end Heads

/-! ## Signed numerals -/

namespace Numeral

theorem decimal_nonneg (digits : List Char) : 0 ≤ decimal none digits :=
  Int.natCast_nonneg _

/-- The numeral that a sign and a numeral without one are read as. -/
def withSign (sign : Sign) (n : Numeral) (h : n.sign = none) : Numeral where
  sign := some sign
  digits := n.digits
  digits_ne_nil := n.digits_ne_nil
  isDigit_of_mem := n.isDigit_of_mem
  le_decimal := by
    have hhi := n.decimal_lt
    have hlo := decimal_nonneg n.digits
    rw [h] at hhi
    cases sign
    · exact Int.le_trans (by decide) hlo
    · show _ ≤ -decimal none n.digits
      omega
  decimal_lt := by
    have hhi := n.decimal_lt
    have hlo := decimal_nonneg n.digits
    rw [h] at hhi
    cases sign
    · exact hhi
    · show -decimal none n.digits < _
      omega

theorem text_withSign (sign : Sign) (n : Numeral) (h : n.sign = none) :
    (n.withSign sign h).text = sign.symbol :: n.text := by
  simp [text, withSign, signText, h]

/-- It stands for what the sign makes of the numeral. -/
theorem signed_integer (sign : Sign) (n : Numeral) (h : n.sign = none) :
    Shape.signed sign (.integer n.integer) = .ok (.integer (n.withSign sign h).integer) := by
  have htoInt : n.integer.toInt = decimal none n.digits := by
    rw [← h]
    exact Int64.toInt_ofInt_of_le n.le_decimal n.decimal_lt
  cases sign
  · rw [Shape.signed, integer, h]
    rfl
  · rw [Shape.signed, htoInt]
    rfl

end Numeral

/-! ## Trees -/

/-- The rule that reads a kind of tree where `levels` levels of nesting are left. -/
def ruleFor (levels : Nat) : Kind → List Object → GrammarRule
  | .value => valueOver (expressionOver (unary levels))
  | .unary => unary (levels + 1)
  | .chain .multiplicative => chain multiplicativeOperator? (unary (levels + 1))
  | .chain .additive =>
    chain additiveOperator? (chain multiplicativeOperator? (unary (levels + 1)))
  | .chain .logical => expressionOver (unary (levels + 1))

theorem ruleFor_chain (levels : Nat) (l : Level) :
    ruleFor levels (.chain l) = chain l.operator? (ruleFor levels l.operand) := by
  cases l <;> rfl

theorem ruleFor_operand_balanced (levels : Nat) (l : Level) (held : List Object) :
    (ruleFor levels l.operand held).Balanced := by
  have hb := unary_balanced (levels + 1)
  cases l with
  | multiplicative => exact hb held
  | additive => exact chain_balanced hb held
  | logical => exact chain_balanced (chain_balanced hb) held

/-- A tree that opens a level of nesting takes it from those that are left. -/
theorem Cursor.exists_level {c : Cursor} {levels n : Nat} (hl : c.levels = levels)
    (hn : n + 1 ≤ levels) :
    ∃ m, levels = m + 1 ∧ c.nesting < maxNesting ∧ c.deeper.beginScope.levels = m ∧ n ≤ m := by
  have hlt : c.nesting < maxNesting := by
    unfold Cursor.levels at hl
    omega
  have hdeeper := levels_deeper hlt
  exact ⟨_, hl.symm.trans hdeeper.symm, hlt, rfl, by omega⟩

mutual

/-- On the text of a tree the rule for its kind comes to its value. -/
theorem Tree.meets : ∀ {k : Kind} (t : Tree false k) {levels : Nat} {held : List Object}
    {c : Cursor} {s : ObjectId} {rest : List Char}, skipBlank c.rest = skipBlank (t.spell rest) →
      Follows k rest → c.levels = levels → t.nesting ≤ levels →
        k.Reads c rest t.value (ruleFor levels k held c s)
  | .chain l, .chain first tail, levels, held, c, s, rest, hc, hf, hl, hn => by
    obtain ⟨hfirst, htail⟩ := Nat.max_le.1 hn
    rw [ruleFor_chain]
    refine chain_meets (first.meets hc (tail.follows hf) hl hfirst) fun left s' => ?_
    refine tail.meets (Nat.le_refl _) ?_ hf hl htail
    cases l <;> first | rfl | exact skipBlank_skipBlank _
  | .unary, .plain value, levels, held, c, s, rest, hc, hf, hl, hn =>
    unary_plain hf (value.meets hc (hf.mono (Nat.le_refl _)) hl hn) fun h => by
      rw [hc]
      exact value.head_of_mismatch h rest
  | .unary, .signed before sign operand, levels, held, c, s, rest, hc, hf, hl, hn => by
    have hc' : skipBlank c.rest = sign.symbol :: operand.spell rest :=
      hc.trans (before.skipBlank_append_cons (by cases sign <;> rfl))
    by_cases hdigit : ∀ d ∈ (operand.spell rest).head?, d.isDigit = false
    · obtain ⟨levels, rfl, hlt, hl', hn'⟩ := Cursor.exists_level hl hn
      exact unary_signed hlt hc' hdigit fun s' => operand.meets rfl hf hl' hn'
    · -- the sign belongs to a numeral, which opens no level of nesting
      obtain ⟨d, hd, hdigit⟩ : ∃ d ∈ (operand.spell rest).head?, d.isDigit = true := by
        simpa using hdigit
      obtain ⟨b, n, rfl, hb, hs⟩ := operand.eq_number_of_isDigit hd hdigit
      have htext : skipBlank c.rest = (n.withSign sign hs).text ++ rest := by
        rw [hc', Numeral.text_withSign, Tree.spell, Tree.spell, hb]
        rfl
      show Kind.unary.Reads c rest (Shape.signed sign (.integer n.integer)) _
      rw [n.signed_integer sign hs]
      exact unary_plain hf (valueOver_numeral (expressionOver_balanced (unary_balanced levels))
        (n.withSign sign hs) htext hf.startsInWord_eq) nofun
  | .unary, .negated before operand, levels, held, c, s, rest, hc, hf, hl, hn => by
    obtain ⟨levels, rfl, hlt, hl', hn'⟩ := Cursor.exists_level hl hn
    exact unary_negated hlt (hc.trans (before.skipBlank_append_cons rfl)) fun s' =>
      operand.meets rfl hf hl' hn'
  | .value, .parens before inner after, levels, held, c, s, rest, hc, hf, hl, hn => by
    obtain ⟨levels, rfl, hlt, hl', hn'⟩ := Cursor.exists_level hl hn
    exact valueOver_parens (expressionOver_balanced (unary_balanced _)) hlt
      (hc.trans (before.skipBlank_append_cons rfl))
      (inner.meets rfl (.of_closing after (by decide)) hl' hn')
  | .value, .emptyArray before inside, levels, held, c, s, rest, hc, hf, hl, hn => by
    obtain ⟨levels, rfl, hlt, hl', hn'⟩ := Cursor.exists_level hl hn
    exact valueOver_array (expressionOver_balanced (unary_balanced _)) hlt
      (hc.trans (before.skipBlank_append_cons rfl)) fun s' =>
        array_empty rfl (skipBlank_closing inside (by decide))
  | .value, .array before items, levels, held, c, s, rest, hc, hf, hl, hn => by
    obtain ⟨levels, rfl, hlt, hl', hn'⟩ := Cursor.exists_level hl hn
    exact valueOver_array (expressionOver_balanced (unary_balanced _)) hlt
      (hc.trans (before.skipBlank_append_cons rfl)) fun s' =>
        array_items rfl (items.head_ne_bracket rest)
          (items.meets (Nat.le_refl _) (skipBlank_skipBlank _) hl' hn')
  | .value, .word before keyword, levels, held, c, s, rest, hc, hf, hl, hn => by
    obtain ⟨ch, more, htext, hspace, -⟩ := keyword.exists_cons
    refine valueOver_keyword (expressionOver_balanced (unary_balanced _)) keyword (hc.trans ?_)
      hf.startsInWord_eq
    rw [Tree.spell, htext]
    exact before.skipBlank_append_cons hspace
  | .value, .number before numeral, levels, held, c, s, rest, hc, hf, hl, hn => by
    obtain ⟨ch, more, htext, hspace, -⟩ := numeral.exists_cons
    refine valueOver_numeral (expressionOver_balanced (unary_balanced _)) numeral (hc.trans ?_)
      hf.startsInWord_eq
    rw [Tree.spell, htext]
    exact before.skipBlank_append_cons hspace

theorem Tail.meets : ∀ {l : Level} (t : Tail false l) {levels : Nat} {held : List Object}
    {room : List Char} {left : Object} {c : Cursor} {s : ObjectId} {rest : List Char},
      c.rest.length ≤ room.length → skipBlank c.rest = skipBlank (t.spell rest) →
        Follows (.chain l) rest → c.levels = levels → t.nesting ≤ levels →
          (Kind.chain l).Reads c rest (t.value left.shape)
            (chainFrom l.operator? (ruleFor levels l.operand) held room left c s)
  | l, .nil, levels, held, room, left, c, s, rest, hroom, hc, hf, hl, hn =>
    chainFrom_nil hc hf hroom
  | l, .cons before op level_eq operand tail, levels, held, room, left, c, s, rest, hroom, hc, hf,
      hl, hn => by
    have hc' : skipBlank c.rest = op.symbol :: operand.spell (tail.spell rest) :=
      hc.trans (before.skipBlank_append_cons op.isSpace_symbol)
    obtain ⟨hoperand, htail⟩ := Nat.max_le.1 hn
    obtain ⟨a, room, rfl⟩ := List.exists_cons_of_length_pos
      (Nat.zero_lt_of_lt (Nat.lt_of_lt_of_le (length_lt_of_skipBlank hc') hroom))
    refine chainFrom_cons (ruleFor_operand_balanced levels l) level_eq hc'
      (operand.meets rfl (tail.follows hf) hl hoperand) fun left' s' hlength => ?_
    -- the operator that was read takes one character of `room`
    refine tail.meets (Nat.le_of_lt_succ (Nat.lt_of_lt_of_le hlength hroom)) ?_ hf hl htail
    cases l <;> first | rfl | exact skipBlank_skipBlank _

theorem Items.meets : ∀ (t : Items false) {levels : Nat} {held items : List Object}
    {room : List Char} {c : Cursor} {s : ObjectId} {rest : List Char},
      c.rest.length ≤ room.length → skipBlank c.rest = skipBlank (t.spell rest) →
        c.levels = levels → t.nesting ≤ levels →
          MeetsItems items rest c t.values
            (itemsFrom (ruleFor levels .expression) held room items c s)
  | .last item after, levels, held, items, room, c, s, rest, hroom, hc, hl, hn => by
    obtain ⟨a, room, rfl⟩ :=
      List.exists_cons_of_length_pos (Nat.lt_of_lt_of_le (Items.length_pos _ hc) hroom)
    exact itemsFrom_last (item.meets hc (.of_closing after (by decide)) hl hn)
  | .cons item after tail, levels, held, items, room, c, s, rest, hroom, hc, hl, hn => by
    obtain ⟨hitem, htail⟩ := Nat.max_le.1 hn
    obtain ⟨a, room, rfl⟩ :=
      List.exists_cons_of_length_pos (Nat.lt_of_lt_of_le (Items.length_pos _ hc) hroom)
    exact itemsFrom_cons (expressionOver_balanced (unary_balanced _))
      (item.meets hc (.of_closing after (by decide)) hl hitem) fun v s' hlength =>
        tail.meets (Nat.le_of_lt_succ (Nat.lt_of_lt_of_le hlength hroom)) rfl hl htail

end

/-! ## Whole texts -/

theorem Statement.follows (e : Statement false) : Follows .expression e.ending := by
  unfold ending
  cases e.semicolon with
  | none => exact .of_blank e.after
  | some before => exact .of_closing before (by decide)

/-- After an expression that was read as a whole, no more than a blank is left. -/
theorem statement_meets (e : Statement false) (held : List Object) {c : Cursor} (s : ObjectId)
    (hc : c.rest = e.body.spell e.ending) (hl : c.levels = maxNesting)
    (hn : e.nesting ≤ maxNesting) :
    ∃ stop, skipBlank stop = [] ∧
      Meets Object.shape stop Kind.expression.Continues c e.value (statement held c s) := by
  have hx : Kind.expression.Reads c.beginScope e.ending e.value (expression held c.beginScope s) :=
    e.body.meets (congrArg skipBlank hc) e.follows hl hn
  obtain ⟨stop, hstop, hread⟩ : ∃ stop, skipBlank stop = [] ∧ ∀ v s',
      (do skipSpaces; let _ ← acceptChar ';'; pure v : GrammarRule)
        (c.beginScope.seek (skipBlank e.ending)) s' = (.found v, c.beginScope.seek stop, s') := by
    have hafter : skipBlank e.after.chars = [] := e.after.skipBlank_chars
    rw [Statement.ending]
    cases e.semicolon with
    | none =>
      refine ⟨[], rfl, fun v s' => ?_⟩
      rw [hafter, bind_of_found (skipSpaces_of_skipBlank (show skipBlank [] = [] from rfl)),
        bind_of_found (acceptChar_of_not_head (by simp))]
      rfl
    | some before =>
      refine ⟨e.after.chars, hafter, fun v s' => ?_⟩
      rw [skipBlank_closing before (by decide),
        bind_of_found (skipSpaces_of_skipBlank (skipBlank_cons rfl _)),
        bind_of_found (acceptChar_of_head rfl)]
      rfl
  refine ⟨stop, hstop, Meets.attempt ?_⟩
  rw [← bind_pure e.value]
  refine hx.bind (fun v s' _ _ => ⟨v, s', hread v s', rfl⟩) fun v ch more s' _ hch =>
    .inr ⟨v, ch, more, s', ?_, hch⟩
  -- the operator at which the expression is stuck is no semicolon
  have hsemicolon : (ch :: more).head? ≠ some ';' := by
    rintro ⟨⟩
    exact hch.not_mem_closing (by decide)
  rw [bind_of_found (skipSpaces_of_skipBlank (skipBlank_cons hch.isSpace_eq more)),
    bind_of_found (acceptChar_of_not_head hsemicolon)]
  rfl

theorem parse_of_value (held : List Object) (next : ObjectId) (e : Statement false)
    (h : e.nesting ≤ maxNesting) {shape : Shape} (hv : e.value = .ok shape) :
    ∃ v, (parse held e.text next).1 = .ok v ∧ v.shape = shape := by
  have hc : (Cursor.ofText e.text.toList).rest = e.body.spell e.ending := String.toList_ofList
  obtain ⟨stop, hstop, hmeets⟩ := statement_meets e held next hc rfl h
  rw [hv] at hmeets
  obtain ⟨v, s', hr, hshape⟩ := hmeets
  have hend : ((Cursor.ofText e.text.toList).seek stop).skipSpaces.isAtEnd = true := by
    rw [Cursor.skipSpaces_eq, Cursor.isAtEnd, Cursor.rest_seek, Cursor.rest_seek, hstop]
    rfl
  refine ⟨v, ?_, hshape⟩
  simp only [parse, hr, hend, if_true]

/-- The text of a statement is evaluated to the value of the statement, whatever
is alive and whichever identifier is next. Where the first operation that has no
result divides by zero, so does the evaluation; where its operands do not go
together, the text is not accepted. -/
theorem parse_text (held : List Object) (next : ObjectId) (e : Statement false)
    (h : e.nesting ≤ maxNesting) :
    match e.value with
    | .ok shape => ∃ v, (parse held e.text next).1 = .ok v ∧ v.shape = shape
    | .error .divisionByZero => (parse held e.text next).1 = .error .divisionByZero
    | .error .mismatch =>
      ∃ remaining, (parse held e.text next).1 = .error (.notAFormula remaining) := by
  have hc : (Cursor.ofText e.text.toList).rest = e.body.spell e.ending := String.toList_ofList
  obtain ⟨stop, -, hmeets⟩ := statement_meets e held next hc rfl h
  rcases hr : statement held (.ofText e.text.toList) next with ⟨outcome, c', s'⟩
  rw [hr] at hmeets
  match hv : e.value with
  | .ok shape => exact parse_of_value held next e h hv
  | .error .divisionByZero =>
    rw [hv] at hmeets
    obtain rfl : outcome = .fault .divisionByZero := hmeets
    simp only [parse, hr]
  | .error .mismatch =>
    rw [hv] at hmeets
    rcases hmeets with hmissing | ⟨v, ch, more, s₁, heq, hch⟩
    · obtain rfl : outcome = .missing := hmissing
      exact ⟨String.ofList c'.skipSpaces.rest, by simp only [parse, hr]⟩
    · cases heq
      -- the operator that could not be applied is left unread
      have hskip : ((Cursor.ofText e.text.toList).seek (ch :: more)).skipSpaces.rest = ch :: more :=
        skipBlank_cons hch.isSpace_eq more
      refine ⟨String.ofList (ch :: more), ?_⟩
      simp only [parse, hr, Cursor.isAtEnd, hskip, List.isEmpty_cons]
      rfl

theorem parse_text_negation : ∃ e : Statement false, e.text = "!(true&false);" ∧
    e.nesting ≤ maxNesting ∧ ∃ v, (parse [] e.text 4).1 = .ok v ∧ v.shape = .boolean true := by
  let left : Tree false (.chain .additive) :=
    .chain (.chain (.plain (.word .none (.boolean true))) .nil) .nil
  let right : Tree false (.chain .additive) :=
    .chain (.chain (.plain (.word .none (.boolean false))) .nil) .nil
  let operand : Tree false .unary :=
    .plain (.parens .none (.chain left (.cons .none .and rfl right .nil)) .none)
  let e : Statement false := {
    body := .chain (.chain (.chain (.negated .none operand) .nil) .nil) .nil
    semicolon := some .none
    after := .none }
  exact ⟨e, rfl, by decide, parse_text [] 4 e (by decide)⟩

end Parley.Formula
