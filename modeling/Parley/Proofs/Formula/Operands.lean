import Parley.Proofs.Formula.Expected

/-!
# Reading operands

The alternatives among which the rules for operands choose, told by the character
that comes first. Each of them comes to what is expected of it if the rules
inside it do.

- `valueOver_keyword`, `valueOver_numeral`: words.
- `valueOver_parens`, `valueOver_array`: what is put in brackets.
- `itemsFrom_last`, `itemsFrom_cons`: the items of an array.
- `unary_plain`, `unary_signed`, `unary_negated`: operands with what is before them.
-/

namespace Parley.Formula

open Rule

/-! ## Words -/

section Words

variable {c : Cursor} {s : ObjectId} {rest : List Char}

/-- The literals that are not arrays. -/
def wordOrNumber : GrammarRule :=
  constant "null" (.existing .null)
    <|> constant "newobj" (.fresh .bare)
    <|> constant "allobj" (.existing .view)
    <|> constant "true" (.existing (.boolean true))
    <|> constant "false" (.existing (.boolean false))
    <|> (do settle (.fresh (.integer (← .read Cursor.integer))))

theorem literalOver_eq (expression : List Object → GrammarRule) (held : List Object) (c : Cursor)
    (s : ObjectId) :
    literalOver expression held c s =
      (.nested (array expression held) <|> wordOrNumber : GrammarRule)
        (c.seek (skipBlank c.rest)) s :=
  rfl

theorem constant_orElse_of_absent {word : String} {yielded : Yield} {second : GrammarRule}
    (h : word.toList.isPrefixOf c.rest = false) :
    (constant word yielded <|> second) c s = second c s :=
  orElse_of_missing (constant_of_no_keyword yielded (Cursor.keyword_of_absent h))

theorem constant_orElse_of_text {word : String} {yielded : Yield} {second : GrammarRule}
    (h : c.rest = word.toList ++ rest) (hend : startsInWord rest = false) :
    (constant word yielded <|> second) c s =
      (.found (yielded.settle s).1, c.seek rest, (yielded.settle s).2) :=
  orElse_of_found (constant_of_keyword yielded (Cursor.keyword_of_text h hend))

theorem wordOrNumber_keyword (keyword : Keyword) (h : c.rest = keyword.text ++ rest)
    (hend : startsInWord rest = false) :
    wordOrNumber c s =
      (.found (keyword.yielded.settle s).1, c.seek rest, (keyword.yielded.settle s).2) := by
  -- none of the keywords that are tried before is a beginning of the text
  unfold wordOrNumber
  rcases keyword with - | - | - | - | -
  · exact constant_orElse_of_text h hend
  · rw [constant_orElse_of_absent (by rw [h]; rfl)]
    exact constant_orElse_of_text h hend
  · rw [constant_orElse_of_absent (by rw [h]; rfl),
      constant_orElse_of_absent (by rw [h]; rfl)]
    exact constant_orElse_of_text h hend
  · rw [constant_orElse_of_absent (by rw [h]; rfl),
      constant_orElse_of_absent (by rw [h]; rfl),
      constant_orElse_of_absent (by rw [h]; rfl),
      constant_orElse_of_absent (by rw [h]; rfl)]
    exact constant_orElse_of_text h hend
  · rw [constant_orElse_of_absent (by rw [h]; rfl),
      constant_orElse_of_absent (by rw [h]; rfl),
      constant_orElse_of_absent (by rw [h]; rfl)]
    exact constant_orElse_of_text h hend

theorem wordOrNumber_of_keyword (keyword : Keyword) (h : c.rest = keyword.text ++ rest)
    (hend : startsInWord rest = false) :
    ∃ v s', wordOrNumber c s = (.found v, c.seek rest, s') ∧ v.shape = keyword.shape := by
  refine ⟨_, _, wordOrNumber_keyword keyword h hend, ?_⟩
  rw [Yield.shape_settle]
  cases keyword <;> rfl

/-- No keyword begins with a character that is not a letter. -/
theorem wordOrNumber_of_not_isAlpha (h : ∀ ch ∈ c.rest.head?, ch.isAlpha = false) :
    wordOrNumber c s =
      (do settle (.fresh (.integer (← .read Cursor.integer))) : GrammarRule) c s := by
  have hskip : ∀ {word : String} {yielded : Yield} {second : GrammarRule},
      word.toList.head?.any Char.isAlpha = true →
        (constant word yielded <|> second) c s = second c s := by
    intro word yielded second hword
    refine constant_orElse_of_absent (Bool.eq_false_iff.2 fun hprefix => ?_)
    obtain ⟨more, happ⟩ := List.isPrefixOf_iff_prefix.1 hprefix
    cases hw : word.toList with
    | nil => simp [hw] at hword
    | cons first letters =>
      rw [hw] at happ hword
      have hfirst := h first (by rw [← happ]; rfl)
      simp [hfirst] at hword
  unfold wordOrNumber
  rw [hskip rfl, hskip rfl, hskip rfl, hskip rfl, hskip rfl]

/-- The first character of a keyword. -/
theorem Keyword.exists_cons (keyword : Keyword) : ∃ ch more, keyword.text = ch :: more ∧
    isSpace ch = false ∧ ch.isDigit = false ∧ ch ≠ '(' ∧ ch ≠ '[' ∧ ch ≠ ']' := by
  rcases keyword with - | - | - | - | - <;>
    exact ⟨_, _, rfl, by decide, by decide, by decide, by decide, by decide⟩

/-- The first character of a numeral. -/
theorem Numeral.exists_cons (n : Numeral) : ∃ ch more, n.text = ch :: more ∧
    isSpace ch = false ∧ ch.isAlpha = false ∧ ch ≠ '(' ∧ ch ≠ '[' ∧ ch ≠ ']' := by
  rcases hs : n.sign with - | sign
  · obtain ⟨d, ds, hd⟩ := List.exists_cons_of_ne_nil n.digits_ne_nil
    have hdigit : d.isDigit = true := n.isDigit_of_mem d (by simp [hd])
    refine ⟨d, ds, by simp [text, hs, hd, signText], isSpace_of_isDigit hdigit,
      isAlpha_of_isDigit hdigit, ?_, ?_, ?_⟩
    · rintro rfl
      exact absurd hdigit (by decide)
    · rintro rfl
      exact absurd hdigit (by decide)
    · rintro rfl
      exact absurd hdigit (by decide)
  · refine ⟨sign.symbol, n.digits, by simp [text, hs, signText], ?_⟩
    cases sign <;> decide

theorem number_of_digits (n : Numeral) (h : c.rest = n.text ++ rest)
    (hend : ∀ ch ∈ rest.head?, ch.isDigit = false) :
    (do settle (.fresh (.integer (← .read Cursor.integer))) : GrammarRule) c s =
      (.found (.integer s n.integer), c.seek rest, s + 1) := by
  have hread : (Rule.read Cursor.integer : Rule ObjectId Fault Int64) c s =
      (.found n.integer, c.seek rest, s) := by
    rw [Rule.read, Cursor.integer_of_digits n h hend]
    rfl
  rw [bind_of_found hread]
  rfl

theorem wordOrNumber_digits (n : Numeral) (h : c.rest = n.text ++ rest)
    (hend : ∀ ch ∈ rest.head?, ch.isDigit = false) :
    wordOrNumber c s = (.found (.integer s n.integer), c.seek rest, s + 1) := by
  obtain ⟨ch, more, htext, -, halpha, -⟩ := n.exists_cons
  rw [wordOrNumber_of_not_isAlpha (by rw [h, htext]; rintro _ ⟨⟩; exact halpha)]
  exact number_of_digits n h hend

theorem wordOrNumber_of_numeral (n : Numeral) (h : c.rest = n.text ++ rest)
    (hend : startsInWord rest = false) :
    ∃ v s', wordOrNumber c s = (.found v, c.seek rest, s') ∧ v.shape = .integer n.integer :=
  ⟨_, _, wordOrNumber_digits n h (Cursor.not_isDigit_of_startsInWord hend), rfl⟩

theorem wordOrNumber_givesUp (halpha : ∀ ch ∈ c.rest.head?, ch.isAlpha = false)
    (hdigit : ∀ ch ∈ (Cursor.splitSign c.rest).2.head?, ch.isDigit = false) :
    wordOrNumber.GivesUp c := by
  intro s
  have hread : (Rule.read Cursor.integer : Rule ObjectId Fault Int64).GivesUp c := by
    intro s
    rw [Rule.read, Cursor.integer_of_no_digit hdigit]
    exact ⟨c, rfl⟩
  rw [wordOrNumber_of_not_isAlpha halpha]
  exact hread.bind _ s

end Words

/-! ## Values -/

section Values

variable {expression : List Object → GrammarRule} {held : List Object} {c : Cursor} {s : ObjectId}
  {rest more : List Char} {ch : Char}

theorem expectChar_givesUp (h : c.rest.head? ≠ some ch) : (expectChar ch).GivesUp c :=
  fun _ => ⟨c, expectChar_of_not_head h⟩

/-- A character that has to come next, after a blank. -/
theorem skip_expect_of_head {α : Type} {next : Rule ObjectId Fault α}
    (h : skipBlank c.rest = ch :: more) :
    (do skipSpaces; expectChar ch; next : Rule ObjectId Fault α) c s = next (c.seek more) s :=
  bind_of_found (c := c.seek (skipBlank c.rest)) (expectChar_of_head h)

theorem skip_expect_givesUp {α : Type} {next : Rule ObjectId Fault α}
    (h : (skipBlank c.rest).head? ≠ some ch) :
    (do skipSpaces; expectChar ch; next : Rule ObjectId Fault α).GivesUp c :=
  (expectChar_givesUp (c := c.seek (skipBlank c.rest)) h).bind _

theorem valueOver_eq_literalOver (held : List Object) (s : ObjectId)
    (hb : ∀ held, (expression held).Balanced) (h : (skipBlank c.rest).head? ≠ some '(') :
    valueOver expression held c s = literalOver expression held c s :=
  orElse_of_missing <| GivesUp.nested (parenthesized_balanced hb held)
    (skip_expect_givesUp (c := c.deeper.beginScope) h) s

theorem literalOver_eq_wordOrNumber (held : List Object) (s : ObjectId)
    (hb : ∀ held, (expression held).Balanced) (h : (skipBlank c.rest).head? ≠ some '[') :
    literalOver expression held c s = wordOrNumber (c.seek (skipBlank c.rest)) s :=
  (literalOver_eq expression held c s).trans <| orElse_of_missing <|
    GivesUp.nested (array_balanced hb held)
      ((expectChar_givesUp (c := (c.seek (skipBlank c.rest)).deeper.beginScope) h).bind _) s

/-- A word that neither opens parentheses nor an array is read as such. -/
theorem valueOver_eq_wordOrNumber (held : List Object) (s : ObjectId)
    (hb : ∀ held, (expression held).Balanced)
    (hc : skipBlank c.rest = ch :: more) (hparen : ch ≠ '(') (hbracket : ch ≠ '[') :
    valueOver expression held c s = wordOrNumber (c.seek (ch :: more)) s := by
  rw [valueOver_eq_literalOver held s hb (by rw [hc]; simpa using hparen),
    literalOver_eq_wordOrNumber held s hb (by rw [hc]; simpa using hbracket), hc]

theorem valueOver_givesUp (hb : ∀ held, (expression held).Balanced)
    (hc : skipBlank c.rest = ch :: more) (hparen : ch ≠ '(') (hbracket : ch ≠ '[')
    (h : wordOrNumber.GivesUp (c.seek (ch :: more))) : (valueOver expression held).GivesUp c := by
  intro s
  rw [valueOver_eq_wordOrNumber held s hb hc hparen hbracket]
  exact h s

theorem valueOver_keyword (hb : ∀ held, (expression held).Balanced) (keyword : Keyword)
    (hc : skipBlank c.rest = keyword.text ++ rest) (hend : startsInWord rest = false) :
    Kind.value.Reads c rest (.ok keyword.shape) (valueOver expression held c s) := by
  obtain ⟨ch, more, htext, -, -, hparen, hbracket, -⟩ := keyword.exists_cons
  rw [htext] at hc
  obtain ⟨v, s', hr, hv⟩ := wordOrNumber_of_keyword (c := c.seek (ch :: (more ++ rest))) (s := s)
    keyword (by rw [htext]; rfl) hend
  exact ⟨v, s', (valueOver_eq_wordOrNumber held s hb hc hparen hbracket).trans hr, hv⟩

theorem valueOver_numeral (hb : ∀ held, (expression held).Balanced) (n : Numeral)
    (hc : skipBlank c.rest = n.text ++ rest) (hend : startsInWord rest = false) :
    Kind.value.Reads c rest (.ok (.integer n.integer)) (valueOver expression held c s) := by
  obtain ⟨ch, more, htext, -, -, hparen, hbracket, -⟩ := n.exists_cons
  rw [htext] at hc
  obtain ⟨v, s', hr, hv⟩ := wordOrNumber_of_numeral (c := c.seek (ch :: (more ++ rest))) (s := s)
    n (by rw [htext]; rfl) hend
  exact ⟨v, s', (valueOver_eq_wordOrNumber held s hb hc hparen hbracket).trans hr, hv⟩

/-- The characters that begin neither a word nor a number. -/
theorem wordOrNumber_givesUp_of_mem (hch : ch ∈ ['(', '[', '!']) :
    wordOrNumber.GivesUp (c.seek (ch :: more)) := by
  simp only [List.mem_cons, List.not_mem_nil, or_false] at hch
  refine wordOrNumber_givesUp ?_ ?_
  · rintro _ ⟨⟩
    rcases hch with rfl | rfl | rfl <;> decide
  · rcases hch with rfl | rfl | rfl <;> (rintro _ ⟨⟩; decide)

/-- A sign that no digit follows begins no number. -/
theorem wordOrNumber_givesUp_of_sign (sign : Sign)
    (hdigit : ∀ d ∈ more.head?, d.isDigit = false) :
    wordOrNumber.GivesUp (c.seek (sign.symbol :: more)) := by
  refine wordOrNumber_givesUp ?_ ?_
  · rintro _ ⟨⟩
    cases sign <;> decide
  · rw [Cursor.rest_seek, Cursor.splitSign_symbol]
    exact hdigit

/-- The closing character is found after an expression that ends before it. -/
theorem skipBlank_closing (b : Blank) (h : ch ∈ closing) :
    skipBlank (b.chars ++ ch :: rest) = ch :: rest := by
  refine b.skipBlank_append_cons ?_
  simp only [closing, List.mem_cons, List.not_mem_nil, or_false] at h
  rcases h with rfl | rfl | rfl | rfl <;> rfl

/-- No closing character comes where an expression stopped at an operator. -/
theorem head_ne_of_continues {k : Kind} {close : Char} (hch : k.Continues ch)
    (hclose : close ∈ closing) : (skipBlank (ch :: more)).head? ≠ some close := by
  rw [skipBlank_cons hch.isSpace_eq]
  rintro ⟨⟩
  exact hch.not_mem_closing hclose

theorem valueOver_parens (hb : ∀ held, (expression held).Balanced) {input : List Char}
    {after : Blank} {expected : Except Undefined Shape} (hlt : c.nesting < maxNesting)
    (hc : skipBlank c.rest = '(' :: input)
    (hx : Kind.expression.Reads (c.deeper.beginScope.seek input) (after.chars ++ ')' :: rest)
      expected (expression held (c.deeper.beginScope.seek input) s)) :
    Kind.value.Reads c rest expected (valueOver expression held c s) := by
  refine Meets.orElse (Meets.nested hlt ?_) fun c' s' _ hr => ?_
  · have hopen : parenthesized expression held c.deeper.beginScope s =
        (do let value ← expression held; skipSpaces; expectChar ')'; pure value : GrammarRule)
          (c.deeper.beginScope.seek input) s :=
      skip_expect_of_head hc
    rw [hopen, ← bind_pure expected]
    refine hx.bind (fun v s' _ _ => ⟨v, s', ?_, rfl⟩) fun v ch more s' _ hch => .inl ?_
    · refine skip_expect_of_head ?_
      rw [Kind.stop, Cursor.rest_seek, skipBlank_skipBlank]
      exact skipBlank_closing after (by decide)
    · exact (skip_expect_givesUp (head_ne_of_continues hch (by decide))).fst_eq s'
  · -- what is left is tried as a literal, which does not begin like this
    obtain ⟨rfl, -⟩ := restores_nested (parenthesized_balanced hb held) hr
    rw [literalOver_eq_wordOrNumber held s' hb (by rw [hc]; simp), hc]
    exact (wordOrNumber_givesUp_of_mem (by decide)).fst_eq s'

/-! ## Arrays -/

section Items

variable {room : List Char} {items : List Object} {a : Char} {after : Blank}
  {expected : Except Undefined Shape}

/-- What is expected of the items from `shapes` on, when `before` were read. -/
abbrev MeetsItems (before : List Object) (rest : List Char) (c : Cursor)
    (shapes : Except Undefined (List Shape))
    (result : Outcome Fault (List Object) × Cursor × ObjectId) : Prop :=
  Meets (List.map Object.shape) rest (fun _ => False) c
    (shapes.map (before.reverse.map Object.shape ++ ·)) result

/-- An item that neither a comma nor the last bracket follows ends the array. -/
theorem items_givesUp {α : Type} {next last : Rule ObjectId Fault α}
    (hcomma : (skipBlank c.rest).head? ≠ some ',')
    (hbracket : (skipBlank c.rest).head? ≠ some ']') :
    (do
      skipSpaces
      if ← acceptChar ',' then next else do expectChar ']'; last : Rule ObjectId Fault α).GivesUp
        c := by
  intro s
  rw [bind_of_found (skipSpaces_of_skipBlank rfl), bind_of_found (acceptChar_of_not_head hcomma)]
  exact (expectChar_givesUp (c := c.seek (skipBlank c.rest)) hbracket).bind _ s

theorem itemsFrom_last
    (hx : Kind.expression.Reads c (after.chars ++ ']' :: rest) expected (expression held c s)) :
    MeetsItems items rest c (expected >>= fun shape => .ok [shape])
      (itemsFrom expression held (a :: room) items c s) := by
  have hexpected : (expected >>= fun shape => .ok [shape]).map
      (items.reverse.map Object.shape ++ ·) =
        (expected >>= fun shape => .ok (items.reverse.map Object.shape ++ [shape])) := by
    cases expected <;> rfl
  rw [MeetsItems, hexpected]
  refine hx.bind (fun v s' _ _ => ?_) fun v ch more s' _ hch => .inl ?_
  · have hskip : skipBlank (skipBlank (after.chars ++ ']' :: rest)) = ']' :: rest := by
      rw [skipBlank_skipBlank]
      exact skipBlank_closing after (by decide)
    refine ⟨(v :: items).reverse, s', ?_, by simp⟩
    rw [bind_of_found (skipSpaces_of_skipBlank hskip),
      bind_of_found (acceptChar_of_not_head (by simp))]
    exact bind_of_found (expectChar_of_head rfl)
  · exact (items_givesUp (head_ne_of_continues hch (by decide))
      (head_ne_of_continues hch (by decide))).fst_eq s'

theorem itemsFrom_cons {input : List Char} {shapes : Except Undefined (List Shape)}
    (hb : ∀ held, (expression held).Balanced)
    (hx : Kind.expression.Reads c (after.chars ++ ',' :: input) expected (expression held c s))
    (htail : ∀ item s', input.length < c.rest.length →
      MeetsItems (item :: items) rest c shapes
        (itemsFrom expression (item :: held) room (item :: items) (c.seek input) s')) :
    MeetsItems items rest c (expected >>= fun shape => shapes >>= fun others => .ok (shape :: others))
      (itemsFrom expression held (a :: room) items c s) := by
  have hexpected : (expected >>= fun shape => shapes >>= fun others => .ok (shape :: others)).map
      (items.reverse.map Object.shape ++ ·) =
        (expected >>= fun shape => shapes.map (items.reverse.map Object.shape ++ [shape] ++ ·)) := by
    cases expected with
    | error _ => rfl
    | ok shape => cases shapes <;> simp [Except.map, bind, Except.bind]
  rw [MeetsItems, hexpected]
  refine hx.bind (fun v s' hfound _ => ?_) fun v ch more s' _ hch => .inl ?_
  · have hskip : skipBlank (after.chars ++ ',' :: input) = ',' :: input :=
      skipBlank_closing after (by decide)
    have hlength : input.length < c.rest.length := by
      have hle := (found_suffix (hb held) hfound).length_le
      rw [Kind.stop, hskip, List.length_cons] at hle
      exact hle
    have hnext := htail v s' hlength
    rw [MeetsItems, List.reverse_cons, List.map_append] at hnext
    rw [Kind.stop, hskip, bind_of_found (skipSpaces_of_skipBlank (skipBlank_cons (by decide) _)),
      bind_of_found (acceptChar_of_head rfl)]
    exact hnext
  · exact (items_givesUp (head_ne_of_continues hch (by decide))
      (head_ne_of_continues hch (by decide))).fst_eq s'

end Items

/-- Where a bracket opens, the array is what is read. -/
theorem valueOver_array {input : List Char} {expected : Except Undefined Shape}
    (hb : ∀ held, (expression held).Balanced) (hlt : c.nesting < maxNesting)
    (hc : skipBlank c.rest = '[' :: input)
    (harray : ∀ s', Kind.value.Reads ((c.seek ('[' :: input)).deeper.beginScope) rest expected
      (array expression held ((c.seek ('[' :: input)).deeper.beginScope) s')) :
    Kind.value.Reads c rest expected (valueOver expression held c s) := by
  rw [valueOver_eq_literalOver held s hb (by rw [hc]; simp), literalOver_eq, hc]
  refine Meets.orElse (c := c.seek ('[' :: input)) (Meets.nested hlt (harray s)) fun c' s' _ hr => ?_
  obtain ⟨rfl, -⟩ := restores_nested (array_balanced hb held) hr
  exact (wordOrNumber_givesUp_of_mem (by decide)).fst_eq s'

theorem array_of_close {input : List Char} (hc : c.rest = '[' :: input)
    (hclose : skipBlank input = ']' :: rest) :
    array expression held c s = (.found (.array s []), c.seek rest, s + 1) := by
  rw [array, bind_of_found (expectChar_of_head hc), bind_of_found (skipSpaces_of_skipBlank hclose),
    bind_of_found (acceptChar_of_head rfl)]
  rfl

theorem array_of_items {input : List Char} (hc : c.rest = '[' :: input)
    (hclose : (skipBlank input).head? ≠ some ']') :
    array expression held c s =
      (do
        let items ← itemsFrom expression held (skipBlank input) []
        settle (.fresh (.array (items.map some))) : GrammarRule) (c.seek (skipBlank input)) s := by
  rw [array, bind_of_found (expectChar_of_head hc), bind_of_found (skipSpaces_of_skipBlank rfl),
    bind_of_found (acceptChar_of_not_head hclose)]
  rfl

theorem array_empty {input : List Char} (hc : c.rest = '[' :: input)
    (hclose : skipBlank input = ']' :: rest) :
    Kind.value.Reads c rest (.ok (.array [])) (array expression held c s) :=
  ⟨_, _, array_of_close hc hclose, by simp⟩

theorem array_items {input : List Char} {shapes : Except Undefined (List Shape)}
    (hc : c.rest = '[' :: input) (hclose : (skipBlank input).head? ≠ some ']')
    (hitems : MeetsItems [] rest (c.seek (skipBlank input)) shapes
      (itemsFrom expression held (skipBlank input) [] (c.seek (skipBlank input)) s)) :
    Kind.value.Reads c rest (shapes >>= fun items => .ok (.array (items.map some)))
      (array expression held c s) := by
  have hmap : shapes.map (([] : List Object).reverse.map Object.shape ++ ·) = shapes := by
    cases shapes <;> rfl
  rw [MeetsItems, hmap] at hitems
  rw [array_of_items hc hclose]
  refine hitems.bind (fun items s' _ _ => ⟨_, _, rfl, ?_⟩) fun _ _ _ _ _ hno => hno.elim
  rw [Yield.shape_settle, Yield.shape, Content.publish, Object.shape_array, List.map_map,
    List.map_map]
  rfl

end Values

/-! ## Unary operators -/

section Unary

variable {levels : Nat} {held : List Object} {c : Cursor} {s : ObjectId}
  {rest input : List Char} {expected : Except Undefined Shape}

/-- What is tried behind a value: a point and a member. -/
def memberAfter (expression : List Object → GrammarRule) (held : List Object) (base : Object) :
    GrammarRule := do
  let member? ← Rule.optional <| .attempt do
    skipSpaces
    expectChar '.'
    valueOver expression (base :: held)
  match member? with
  | none => pure base
  | some member => Rule.ofOutcome (.ofOption (base.member held member))

theorem memberOver_eq (expression : List Object → GrammarRule) (held : List Object) :
    memberOver expression held = valueOver expression held >>= memberAfter expression held :=
  rfl

theorem point_value_balanced {expression : List Object → GrammarRule}
    (hb : ∀ held, (expression held).Balanced) (held : List Object) :
    (do skipSpaces; expectChar '.'; valueOver expression held : GrammarRule).Balanced :=
  balanced_bind skipSpaces_balanced fun _ => balanced_bind (expectChar_balanced '.') fun _ =>
    valueOver_balanced hb held

theorem memberAfter_balanced {expression : List Object → GrammarRule}
    (hb : ∀ held, (expression held).Balanced) (held : List Object) (base : Object) :
    (memberAfter expression held base).Balanced := by
  refine balanced_bind (balanced_optional (balanced_attempt (point_value_balanced hb _)))
    fun member? => ?_
  cases member? with
  | none => exact balanced_pure base
  | some member => exact balanced_ofOutcome _

theorem memberAfter_of_no_point {expression : List Object → GrammarRule}
    (hb : ∀ held, (expression held).Balanced) (base : Object)
    (h : (skipBlank c.rest).head? ≠ some '.') :
    memberAfter expression held base c s = (.found base, c, s) :=
  bind_of_found <| optional_of_missing <|
    GivesUp.attempt (point_value_balanced hb (base :: held)) (skip_expect_givesUp h) s

/-- A value that no point follows is no member access. -/
theorem memberOver_meets {expression : List Object → GrammarRule}
    (hb : ∀ held, (expression held).Balanced) (hf : Follows .unary rest)
    (hv : Kind.value.Reads c rest expected (valueOver expression held c s)) :
    Kind.unary.Reads c rest expected (memberOver expression held c s) := by
  rw [memberOver_eq, ← bind_pure expected]
  refine hv.bind (fun v s' _ _ => ?_) fun v ch more s' _ hch => ?_
  · have hpoint : (skipBlank rest).head? ≠ some '.' := fun hd => (hf.head_stops '.' hd).1 rfl
    exact ⟨v, s', memberAfter_of_no_point (c := c.seek rest) hb v hpoint, rfl⟩
  · exact absurd hch (Kind.not_continues rfl ch)

/-! ### The prefix operators -/

section Prefixes

variable {operand : List Object → GrammarRule}

theorem signed_givesUp (h : (skipBlank c.rest).head?.bind Sign.ofChar? = none) :
    (signed operand held).GivesUp c := by
  have hread : (Rule.read Cursor.sign : Rule ObjectId Fault Sign).GivesUp
      (c.seek (skipBlank c.rest)) := by
    intro s
    rw [Rule.read, Cursor.sign_eq, Cursor.rest_seek, Cursor.splitSign_of_none h]
    exact ⟨_, rfl⟩
  exact hread.bind _

theorem signed_of_sign {sign : Sign} (h : skipBlank c.rest = sign.symbol :: input) :
    signed operand held c s =
      (do
        let object ← operand held
        settle (← .ofOutcome (.ofOption (object.withSign sign))) : GrammarRule)
        (c.seek input) s := by
  have hsign : (Rule.read Cursor.sign : Rule ObjectId Fault Sign)
      (c.seek (sign.symbol :: input)) s = (.found sign, c.seek input, s) := by
    rw [Rule.read, Cursor.sign_eq, Cursor.rest_seek, Cursor.splitSign_symbol]
    rfl
  rw [signed, bind_of_found (skipSpaces_of_skipBlank h), bind_of_found hsign]
  cases sign <;> rfl

theorem negated_of_bang (h : skipBlank c.rest = '!' :: input) :
    negated operand held c s =
      (do
        let object ← operand held
        settle (← .ofOutcome (.ofOption object.negate)) : GrammarRule) (c.seek input) s :=
  skip_expect_of_head h

/-- What begins with a sign is not negated. -/
theorem prefixes_of_sign {sign : Sign} (hb : ∀ held, (operand held).Balanced)
    (h : skipBlank c.rest = sign.symbol :: input) (s : ObjectId) :
    Alike ((.nested (signed operand held) <|> .nested (negated operand held) : GrammarRule) c s)
      (nested (signed operand held) c s) := by
  refine orElse_alike fun c' s' hr s => ?_
  obtain ⟨rfl, -⟩ := restores_nested (signed_balanced hb held) hr
  have hnegated : (negated operand held).GivesUp c'.deeper.beginScope := skip_expect_givesUp (by
    rw [Cursor.rest_beginScope, Cursor.rest_deeper, h]
    cases sign <;> simp [Sign.symbol])
  exact ⟨c', hnegated.nested (negated_balanced hb held) s⟩

/-- Neither a sign nor `!` is found where none stands. -/
theorem prefixes_of_head (hb : ∀ held, (operand held).Balanced)
    (h : ∀ ch ∈ (skipBlank c.rest).head?, Sign.ofChar? ch = none ∧ ch ≠ '!') (s : ObjectId) :
    (.nested (signed operand held) <|> .nested (negated operand held) : GrammarRule) c s =
      (.missing, c, s) := by
  have hsigned : (signed operand held).GivesUp c.deeper.beginScope :=
    signed_givesUp (Option.bind_eq_none_iff.2 fun ch hch => (h ch hch).1)
  have hnegated : (negated operand held).GivesUp c.deeper.beginScope :=
    skip_expect_givesUp fun hch => (h '!' hch).2 rfl
  rw [orElse_of_missing (hsigned.nested (signed_balanced hb held) s),
    hnegated.nested (negated_balanced hb held) s]

end Prefixes

/-- Where no value is read, a sign or `!` is tried. -/
theorem unary_of_value_givesUp
    (h : (valueOver (expressionOver (unary levels)) held).GivesUp c.beginScope) :
    unary (levels + 1) held c s =
      (.nested (signed (unary levels) held) <|> .nested (negated (unary levels) held) :
        GrammarRule) c s :=
  orElse_of_missing <| (h.bind _).attempt
    (memberOver_balanced (expressionOver_balanced (unary_balanced levels)) held) s

/-- What begins neither with a sign nor with `!` can only be a value or a member of one. -/
theorem unary_of_head
    (h : ∀ ch ∈ (skipBlank c.rest).head?, Sign.ofChar? ch = none ∧ ch ≠ '!') :
    Alike (unary (levels + 1) held c s)
      (attempt (memberOver (expressionOver (unary levels)) held) c s) := by
  refine orElse_alike fun c' s' hr s => ?_
  obtain ⟨rfl, -⟩ := restores_attempt
    (memberOver_balanced (expressionOver_balanced (unary_balanced levels)) held) hr
  exact ⟨c', prefixes_of_head (unary_balanced levels) h s⟩

/-- What begins with `!` can only be negated. -/
theorem unary_of_bang (h : skipBlank c.rest = '!' :: input) :
    unary (levels + 1) held c s = nested (negated (unary levels) held) c s := by
  have hvalue : (valueOver (expressionOver (unary levels)) held).GivesUp c.beginScope :=
    valueOver_givesUp (expressionOver_balanced (unary_balanced levels)) h (by decide) (by decide)
      (wordOrNumber_givesUp_of_mem (by decide))
  have hsigned : (signed (unary levels) held).GivesUp c.deeper.beginScope := signed_givesUp (by
    rw [Cursor.rest_beginScope, Cursor.rest_deeper, h]
    rfl)
  rw [unary_of_value_givesUp hvalue,
    orElse_of_missing (hsigned.nested (signed_balanced (unary_balanced levels) held) s)]

/-! ### What is expected of an operand -/

theorem unary_plain (hf : Follows .unary rest)
    (hv : Kind.value.Reads c.beginScope rest expected
      (valueOver (expressionOver (unary levels)) held c.beginScope s))
    (hopen : expected = .error .mismatch →
      ∃ ch more, skipBlank c.rest = ch :: more ∧ ch ∈ ['(', '[']) :
    Kind.unary.Reads c rest expected (unary (levels + 1) held c s) := by
  have hb := unary_balanced levels
  have hx := expressionOver_balanced hb
  refine Meets.orElse (Meets.attempt (memberOver_meets hx hf hv)) fun c' s' hexpected hr => ?_
  obtain ⟨rfl, -⟩ := restores_attempt (memberOver_balanced hx held) hr
  -- a bracket is neither a sign nor `!`
  obtain ⟨ch, more, hc, hch⟩ := hopen hexpected
  simp only [List.mem_cons, List.not_mem_nil, or_false] at hch
  rw [prefixes_of_head hb (by
    rw [hc]
    rintro _ ⟨⟩
    rcases hch with rfl | rfl <;> decide)]

theorem unary_signed {sign : Sign} (hlt : c.nesting < maxNesting)
    (hc : skipBlank c.rest = sign.symbol :: input)
    (hdigit : ∀ d ∈ input.head?, d.isDigit = false)
    (hoperand : ∀ s', Kind.unary.Reads (c.deeper.beginScope.seek input) rest expected
      (unary levels held (c.deeper.beginScope.seek input) s')) :
    Kind.unary.Reads c rest (expected >>= Shape.signed sign) (unary (levels + 1) held c s) := by
  have hb := unary_balanced levels
  have hvalue : (valueOver (expressionOver (unary levels)) held).GivesUp c.beginScope :=
    valueOver_givesUp (expressionOver_balanced hb) hc (by cases sign <;> decide)
      (by cases sign <;> decide) (wordOrNumber_givesUp_of_sign sign hdigit)
  have hnested : Kind.unary.Reads c rest (expected >>= Shape.signed sign)
      (nested (signed (unary levels) held) c s) := by
    refine Meets.nested hlt ?_
    rw [signed_of_sign (c := c.deeper.beginScope) hc]
    exact (hoperand s).bind (fun v s' _ _ => Meets.settle (v.withSign_agrees sign))
      fun v ch more s' _ hch => absurd hch (Kind.not_continues rfl ch)
  rw [unary_of_value_givesUp hvalue]
  exact hnested.alike (prefixes_of_sign hb hc s)

theorem unary_negated (hlt : c.nesting < maxNesting) (hc : skipBlank c.rest = '!' :: input)
    (hoperand : ∀ s', Kind.unary.Reads (c.deeper.beginScope.seek input) rest expected
      (unary levels held (c.deeper.beginScope.seek input) s')) :
    Kind.unary.Reads c rest (expected >>= Shape.negated) (unary (levels + 1) held c s) := by
  rw [unary_of_bang hc]
  refine Meets.nested hlt ?_
  rw [negated_of_bang (c := c.deeper.beginScope) hc]
  exact (hoperand s).bind (fun v s' _ _ => Meets.settle v.negate_agrees) fun v ch more s' _ hch =>
    absurd hch (Kind.not_continues rfl ch)

end Unary

end Parley.Formula
