import Parley.Proofs.Formula.Balance
import Parley.Proofs.Formula.Meaning

/-!
# Whatever is accepted derives from the grammar

A rule that finds an object has read a tree of the grammar, which evaluates to
that object. What was tried before and given up has left nothing behind, so that
no text is joined wrongly and none is passed over.

- `Derived`: a text begins with a tree that evaluates to an object.
- `Sound`: a rule finds only what is derived, with the levels of nesting that are
  left. There is one lemma for each combinator.
- `chain_sound`, `literalOver_sound`, `unary_sound`: the rules.
- `parse_ok`: what `parse` accepts, with what it evaluates to.
- `exists_statement_of_parse`: every accepted text is the text of a statement.
-/

namespace Parley.Formula

open Rule

/-- The text `input` begins with a tree of at most `n` levels of nesting, up to
`rest` and a blank before it. The tree evaluates to `object`. -/
def Derived (k : Kind) (n : Nat) (held : List Object) (input : List Char) (low : ObjectId)
    (object : Object) (rest : List Char) (high : ObjectId) : Prop :=
  ∃ (t : Tree true k) (b : Blank), input = t.spell (b.chars ++ rest) ∧
    t.WordsEnd (b.chars ++ rest) ∧ t.nesting ≤ n ∧ t.Evaluates held low object high

namespace Derived

variable {k : Kind} {n : Nat} {held : List Object} {input rest : List Char}
  {low high : ObjectId} {object : Object}

theorem indent (b : Blank) (h : Derived k n held input low object rest high) :
    Derived k n held (b.chars ++ input) low object rest high := by
  obtain ⟨t, after, rfl, hend, hn, heval⟩ := h
  exact ⟨t.indent b, after, (t.spell_indent b _).symm, hend.indent b,
    (t.nesting_indent b).trans_le hn, t.evaluates_indent b heval⟩

theorem weaken {low' high' : ObjectId} (h : Derived k n held input low object rest high)
    (hl : low' ≤ low) (hh : high ≤ high') : Derived k n held input low' object rest high' := by
  obtain ⟨t, after, ht, hend, hn, heval⟩ := h
  exact ⟨t, after, ht, hend, hn, t.evaluates_weaken heval hl hh⟩

end Derived

/-! ## Sound rules -/

/-- What the rule finds is derived, and only the place has changed. -/
def Sound (k : Kind) (rule : List Object → GrammarRule) : Prop :=
  ∀ ⦃held c s v c' s'⦄, rule held c s = (.found v, c', s') →
    ∃ rest, c' = c.seek rest ∧ Derived k c.levels held c.rest s v rest s'

/-- The same for a rule that is to be run one level further in. -/
def SoundInside (k : Kind) (rule : List Object → GrammarRule) : Prop :=
  ∀ ⦃held c s v c' s'⦄, rule held c s = (.found v, c', s') →
    ∃ rest, c' = c.seek rest ∧ Derived k (c.levels + 1) held c.rest s v rest s'

section Combinators

variable {k : Kind} {rule first second : List Object → GrammarRule}

theorem Sound.attempt (hb : ∀ held, (rule held).Balanced) (h : Sound k rule) :
    Sound k fun held => (rule held).attempt := by
  intro held c s v c' s' hr
  obtain ⟨rest, hfound, rfl⟩ := attempt_found (hb held) hr
  obtain ⟨rest', hrest, hd⟩ := h hfound
  obtain rfl : rest = rest' := congrArg Cursor.rest hrest
  exact ⟨rest, rfl, hd⟩

theorem SoundInside.nested (hb : ∀ held, (rule held).Balanced) (h : SoundInside k rule) :
    Sound k fun held => (rule held).nested := by
  intro held c s v c' s' hr
  obtain ⟨hlt, rest, hfound, rfl⟩ := nested_found (hb held) hr
  obtain ⟨rest', hrest, hd⟩ := h hfound
  obtain rfl : rest = rest' := congrArg Cursor.rest hrest
  rw [Cursor.levels_deeper hlt] at hd
  exact ⟨rest, rfl, hd⟩

/-- The second alternative is run on the text that the first one was tried on. -/
theorem Sound.orElse (hrestores : ∀ held, (first held).Restores) (h₁ : Sound k first)
    (h₂ : Sound k second) : Sound k fun held => first held <|> second held := by
  intro held c s v c' s' hr
  rcases orElse_found hr with hfirst | ⟨c₁, s₁, hmissing, hsecond⟩
  · exact h₁ hfirst
  · obtain ⟨rfl, hs⟩ := hrestores held hmissing
    obtain ⟨rest, hc, hd⟩ := h₂ hsecond
    exact ⟨rest, hc, hd.weaken hs (Nat.le_refl _)⟩

end Combinators

/-! ## Words -/

section Words

variable {c c' : Cursor} {s s' : ObjectId}

theorem skipSpaces_found (h : skipSpaces c s = (.found (), c', s')) :
    ∃ (b : Blank) (rest : List Char), c.rest = b.chars ++ rest ∧ c' = c.seek rest ∧ s' = s := by
  cases h
  obtain ⟨b, hb⟩ := exists_blank c.rest
  exact ⟨b, _, hb, rfl, rfl⟩

theorem expectChar_found {ch : Char} (h : expectChar ch c s = (.found (), c', s')) :
    ∃ rest, c.rest = ch :: rest ∧ c' = c.seek rest ∧ s' = s := by
  by_cases hd : c.rest.head? = some ch
  · obtain ⟨rest, hr⟩ := List.head?_eq_some_iff.1 hd
    rw [expectChar_of_head hr] at h
    cases h
    exact ⟨rest, hr, rfl, rfl⟩
  · rw [expectChar_of_not_head hd] at h
    cases h

theorem acceptChar_found {ch : Char} {there : Bool}
    (h : acceptChar ch c s = (.found there, c', s')) :
    s' = s ∧ ∃ rest, c' = c.seek rest ∧ if there then c.rest = ch :: rest else rest = c.rest := by
  by_cases hd : c.rest.head? = some ch
  · obtain ⟨rest, hr⟩ := List.head?_eq_some_iff.1 hd
    rw [acceptChar_of_head hr] at h
    cases h
    exact ⟨rfl, rest, rfl, hr⟩
  · rw [acceptChar_of_not_head hd] at h
    cases h
    exact ⟨rfl, c.rest, rfl, rfl⟩

theorem settle_found {yielded : Yield} {v : Object}
    (h : settle yielded c s = (.found v, c', s')) : c' = c ∧ yielded.Settles s v s' := by
  cases h
  exact ⟨rfl, yielded.settles_settle s⟩

theorem sign_found {sign : Sign}
    (h : (Rule.read Cursor.sign : Rule ObjectId Fault Sign) c s = (.found sign, c', s')) :
    ∃ rest, c.rest = sign.symbol :: rest ∧ c' = c.seek rest ∧ s' = s := by
  unfold Rule.read at h
  rw [Cursor.sign_eq] at h
  have hsplit := Cursor.signText_append_splitSign c.rest
  rcases hs : Cursor.splitSign c.rest with ⟨_ | sign', rest⟩ <;> rw [hs] at h hsplit <;> cases h
  exact ⟨rest, hsplit, rfl, rfl⟩

theorem outcome_ofOption_found {α : Type} {value? : Option α} {value : α}
    (h : (Outcome.ofOption value? : Outcome Fault α) = .found value) : value? = some value := by
  cases value? <;> cases h
  rfl

theorem constant_sound {word : String} (keyword : Keyword) (hw : word.toList = keyword.text) :
    Sound .value fun _ => constant word keyword.yielded := by
  intro held c s v c' s' h
  replace h : constant word keyword.yielded c s = _ := h
  rcases hk : c.keyword word.toList with ⟨_ | _, c₁⟩
  · rw [constant_of_no_keyword _ hk] at h
    cases h
  · rw [constant_of_keyword _ hk] at h
    cases h
    obtain ⟨rest, -, hc⟩ := c.reaches_keyword word.toList
    rw [hk] at hc
    obtain rfl : c' = c.seek rest := hc
    obtain ⟨hrest, hend⟩ := Cursor.keyword_found hk
    rw [hw] at hrest
    exact ⟨rest, rfl, .word .none keyword, .none, hrest, hend, Nat.zero_le _,
      Yield.settles_settle _ s⟩

theorem number_sound :
    Sound .value fun _ => (do settle (.fresh (.integer (← .read Cursor.integer)))) := by
  intro held c s v c' s' h
  obtain ⟨value, c₁, s₁, h₁, g₁⟩ := bind_found h
  obtain ⟨rfl, hs⟩ := settle_found g₁
  unfold Rule.read at h₁
  rcases hi : c.integer with ⟨_ | value', c₂⟩ <;> rw [hi] at h₁ <;> cases h₁
  obtain ⟨rest, -, hc⟩ := c.reaches_integer
  rw [hi] at hc
  obtain rfl : c₂ = c.seek rest := hc
  obtain ⟨numeral, hrest, rfl⟩ := Cursor.exists_numeral hi
  exact ⟨rest, rfl, .number .none numeral, .none, hrest, trivial, Nat.zero_le _, hs⟩

end Words

/-! ## Chains -/

/-- The same for what follows the first operand of a chain. -/
def Continued (l : Level) (n : Nat) (held : List Object) (left : Object) (input : List Char)
    (low : ObjectId) (object : Object) (rest : List Char) (high : ObjectId) : Prop :=
  ∃ (t : Tail true l) (b : Blank), input = t.spell (b.chars ++ rest) ∧
    t.WordsEnd (b.chars ++ rest) ∧ t.nesting ≤ n ∧ t.Evaluates held left low object high

section Chains

variable {l : Level} {operand : List Object → GrammarRule}

/-- Where a chain ends, `before` is what was read of the text after its last operand. -/
theorem Continued.stop {n : Nat} {held : List Object} {left : Object} {before : Blank}
    {rest : List Char} {low high : ObjectId} (h : low ≤ high) :
    Continued l n held left (before.chars ++ rest) low left rest high :=
  ⟨.nil, before, rfl, trivial, Nat.zero_le _, rfl, h⟩

theorem Continued.step {n : Nat} {held : List Object} {left right left' object : Object}
    {yielded : Yield} {op : BinaryOp} {before : Blank} {input input' rest : List Char}
    {low mid mid' high : ObjectId} (hop : op.level = l)
    (hright : Derived l.operand n (left :: held) input low right input' mid)
    (happly : left.apply op right = .found yielded) (hs : yielded.Settles mid left' mid')
    (htail : ∀ b : Blank, Continued l n held left' (b.chars ++ input') mid' object rest high) :
    Continued l n held left (before.chars ++ op.symbol :: input) low object rest high := by
  obtain ⟨u, b, hu, huend, hun, hueval⟩ := hright
  obtain ⟨t, after, ht, htend, htn, hteval⟩ := htail b
  rw [ht] at hu huend
  refine ⟨.cons before op hop u t, after, ?_, ⟨huend, htend⟩, Nat.max_le.2 ⟨hun, htn⟩,
    right, mid, yielded, left', mid', hueval, happly, hs, hteval⟩
  rw [hu, Tail.spell]

theorem chainFrom_sound (hb : ∀ held, (operand held).Balanced) (hop : Sound l.operand operand)
    {held : List Object} {room : List Char} {left v : Object} {c c' : Cursor} {s s' : ObjectId}
    (h : chainFrom l.operator? operand held room left c s = (.found v, c', s')) :
    ∃ rest, c' = c.seek rest ∧
      ∀ before : Blank, Continued l c.levels held left (before.chars ++ c.rest) s v rest s' := by
  -- the operand that was read last may have taken the blank before the operator
  induction room generalizing left c s with
  | nil =>
    cases h
    exact ⟨_, rfl, fun before => .stop (Nat.le_refl _)⟩
  | cons _ room ih =>
    obtain ⟨⟨⟩, c₁, s₁, h₁, g₁⟩ := bind_found h
    obtain ⟨skipped, rest₁, hrest, rfl, rfl⟩ := skipSpaces_found h₁
    have happend : ∀ before : Blank,
        before.chars ++ c.rest = (before.append skipped).chars ++ rest₁ := by
      intro before
      rw [hrest, Blank.chars_append, List.append_assoc]
    obtain ⟨ch?, c₂, s₂, h₂, g₂⟩ := bind_found g₁
    cases h₂
    rcases ho : (c.seek rest₁).peek.bind l.operator? with - | op <;> simp only [ho] at g₂
    · -- no operator of the chain comes next
      cases g₂
      exact ⟨rest₁, rfl, fun before => happend before ▸ .stop (Nat.le_refl s')⟩
    · obtain ⟨ch, hch, hsym⟩ := Option.bind_eq_some_iff.1 ho
      obtain ⟨rest₂, rfl⟩ := List.head?_eq_some_iff.1 hch
      obtain ⟨hlevel, rfl⟩ := Level.operator?_eq_some_iff.1 hsym
      obtain ⟨right?, c₃, s₃, h₃, g₃⟩ := bind_found g₂
      have hstep := balanced_bind (balanced_move Cursor.reaches_advance) fun _ => hb (left :: held)
      rcases optional_found h₃ with ⟨right, rfl, hright⟩ | ⟨rfl, hright⟩
      · -- the operator is applied, and the chain goes on
        obtain ⟨rest₃, hright₃, rfl⟩ := attempt_found hstep hright
        obtain ⟨⟨⟩, c₄, s₄, h₄, g₄⟩ := bind_found hright₃
        cases h₄
        obtain ⟨rest₄, hrest₄, hderived⟩ := hop g₄
        obtain rfl : rest₃ = rest₄ := congrArg Cursor.rest hrest₄
        obtain ⟨yielded, c₅, s₅, h₅, g₅⟩ := bind_found g₃
        obtain ⟨happly, rfl, rfl⟩ := ofOutcome_found h₅
        obtain ⟨left', c₆, s₆, h₆, g₆⟩ := bind_found g₅
        obtain ⟨rfl, hsettles⟩ := settle_found h₆
        obtain ⟨rest, rfl, htail⟩ := ih g₆
        exact ⟨rest, rfl, fun before =>
          happend before ▸ .step hlevel hderived happly hsettles htail⟩
      · -- no operand follows, and the operator is left unread
        obtain ⟨rfl, hs⟩ := restores_attempt hstep hright
        cases g₃
        exact ⟨_, rfl, fun before => happend before ▸ .stop hs⟩

theorem chain_sound (hb : ∀ held, (operand held).Balanced) (hop : Sound l.operand operand) :
    Sound (.chain l) (chain l.operator? operand) := by
  refine Sound.attempt (fun held => balanced_bind (hb held) fun first =>
    balanced_bind (balanced_look _) fun room => chainFrom_balanced hb held room first) ?_
  intro held c s v c' s' h
  obtain ⟨first, c₁, s₁, h₁, g₁⟩ := bind_found h
  obtain ⟨rest₁, rfl, u, b, hu, huend, hun, hueval⟩ := hop h₁
  obtain ⟨room, c₂, s₂, h₂, g₂⟩ := bind_found g₁
  cases h₂
  obtain ⟨rest, rfl, htail⟩ := chainFrom_sound hb hop g₂
  obtain ⟨t, after, ht, htend, htn, hteval⟩ := htail b
  rw [Cursor.rest_seek] at ht
  rw [ht] at hu huend
  exact ⟨rest, rfl, .chain u t, after, hu, ⟨huend, htend⟩, Nat.max_le.2 ⟨hun, htn⟩,
    first, s₁, hueval, hteval⟩

theorem expressionOver_sound {unary : List Object → GrammarRule}
    (hb : ∀ held, (unary held).Balanced) (hu : Sound .unary unary) :
    Sound .expression (expressionOver unary) :=
  chain_sound (l := .logical) (chain_balanced (chain_balanced hb)) <|
    chain_sound (l := .additive) (chain_balanced hb) <|
      chain_sound (l := .multiplicative) hb hu

end Chains

/-! ## Values -/

section Values

variable {expression : List Object → GrammarRule}

theorem itemsFrom_sound (hx : Sound .expression expression) {held : List Object}
    {room : List Char} {items found : List Object} {c c' : Cursor} {s s' : ObjectId}
    (h : itemsFrom expression held room items c s = (.found found, c', s')) :
    ∃ rest, c' = c.seek rest ∧ ∃ (t : Items true) (others : List Object),
      found = items.reverse ++ others ∧ c.rest = t.spell rest ∧ t.WordsEnd rest ∧
        t.nesting ≤ c.levels ∧ t.Evaluates held s others s' := by
  induction room generalizing held items c s with
  | nil => cases h
  | cons _ room ih =>
    obtain ⟨item, c₁, s₁, h₁, g₁⟩ := bind_found h
    obtain ⟨rest₁, rfl, u, b, hu, huend, hun, hueval⟩ := hx h₁
    obtain ⟨⟨⟩, c₂, s₂, h₂, g₂⟩ := bind_found g₁
    obtain ⟨skipped, rest₂, hrest, rfl, rfl⟩ := skipSpaces_found h₂
    obtain ⟨more, c₃, s₃, h₃, g₃⟩ := bind_found g₂
    obtain ⟨rfl, rest₃, rfl, hmore⟩ := acceptChar_found h₃
    rw [Cursor.rest_seek] at hrest
    rw [hrest, ← List.append_assoc, ← Blank.chars_append] at hu huend
    cases more with
    | true =>
      obtain rfl : rest₂ = ',' :: rest₃ := hmore
      obtain ⟨rest, rfl, t, others, rfl, ht, htend, htn, hteval⟩ := ih g₃
      obtain rfl : rest₃ = t.spell rest := ht
      exact ⟨rest, rfl, .cons u (b.append skipped) t, item :: others, by simp, hu,
        ⟨huend, htend⟩, Nat.max_le.2 ⟨hun, htn⟩, item, s₃, others, hueval, hteval, rfl⟩
    | false =>
      obtain ⟨⟨⟩, c₄, s₄, h₄, g₄⟩ := bind_found g₃
      obtain ⟨rest, hbracket, rfl, rfl⟩ := expectChar_found h₄
      obtain rfl : rest₃ = rest₂ := hmore
      obtain rfl : rest₃ = ']' :: rest := hbracket
      cases g₄
      exact ⟨rest, rfl, .last u (b.append skipped), [item], by simp, hu, huend, hun, item,
        hueval, rfl⟩

theorem array_sound (hx : Sound .expression expression) :
    SoundInside .value (array expression) := by
  intro held c s v c' s' h
  obtain ⟨⟨⟩, c₁, s₁, h₁, g₁⟩ := bind_found h
  obtain ⟨rest₁, hbracket, rfl, rfl⟩ := expectChar_found h₁
  obtain ⟨⟨⟩, c₂, s₂, h₂, g₂⟩ := bind_found g₁
  obtain ⟨inside, rest₂, hrest, rfl, rfl⟩ := skipSpaces_found h₂
  obtain ⟨empty, c₃, s₃, h₃, g₃⟩ := bind_found g₂
  obtain ⟨rfl, rest₃, rfl, hempty⟩ := acceptChar_found h₃
  obtain rfl : rest₁ = inside.chars ++ rest₂ := hrest
  cases empty with
  | true =>
    obtain rfl : rest₂ = ']' :: rest₃ := hempty
    obtain ⟨rfl, hs⟩ := settle_found g₃
    exact ⟨rest₃, rfl, .emptyArray .none inside, .none, hbracket, trivial,
      Nat.le_add_left 1 _, hs⟩
  | false =>
    obtain rfl : rest₃ = rest₂ := hempty
    obtain ⟨room, c₄, s₄, h₄, g₄⟩ := bind_found g₃
    cases h₄
    obtain ⟨items, c₅, s₅, h₅, g₅⟩ := bind_found g₄
    obtain ⟨rest, rfl, t, others, hitems, ht, htend, htn, hteval⟩ := itemsFrom_sound hx h₅
    obtain rfl : items = others := hitems
    obtain ⟨rfl, hs⟩ := settle_found g₅
    obtain rfl : rest₃ = t.spell rest := ht
    refine ⟨rest, rfl, .array .none (t.indent inside), .none, ?_, htend.indent inside, ?_,
      items, s₅, t.evaluates_indent inside hteval, hs⟩
    · rw [hbracket]
      exact congrArg ('[' :: ·) (t.spell_indent inside rest).symm
    · show (t.indent inside).nesting + 1 ≤ c.levels + 1
      rw [t.nesting_indent]
      exact Nat.succ_le_succ htn

theorem parenthesized_sound (hx : Sound .expression expression) :
    SoundInside .value (parenthesized expression) := by
  intro held c s v c' s' h
  obtain ⟨⟨⟩, c₁, s₁, h₁, g₁⟩ := bind_found h
  obtain ⟨before, rest₁, hbefore, rfl, rfl⟩ := skipSpaces_found h₁
  obtain ⟨⟨⟩, c₂, s₂, h₂, g₂⟩ := bind_found g₁
  obtain ⟨rest₂, hopen, rfl, rfl⟩ := expectChar_found h₂
  obtain ⟨value, c₃, s₃, h₃, g₃⟩ := bind_found g₂
  obtain ⟨rest₃, rfl, t, b, ht, htend, htn, hteval⟩ := hx h₃
  obtain ⟨⟨⟩, c₄, s₄, h₄, g₄⟩ := bind_found g₃
  obtain ⟨after, rest₄, hafter, rfl, rfl⟩ := skipSpaces_found h₄
  obtain ⟨⟨⟩, c₅, s₅, h₅, g₅⟩ := bind_found g₄
  obtain ⟨rest, hclose, rfl, rfl⟩ := expectChar_found h₅
  cases g₅
  obtain rfl : rest₁ = '(' :: rest₂ := hopen
  obtain rfl : rest₄ = ')' :: rest := hclose
  obtain rfl : rest₃ = after.chars ++ ')' :: rest := hafter
  obtain rfl : rest₂ = t.spell _ := ht
  rw [← List.append_assoc, ← Blank.chars_append] at hbefore htend
  exact ⟨rest, rfl, .parens before t (b.append after), .none, hbefore, htend,
    Nat.succ_le_succ htn, hteval⟩

theorem literalOver_sound (hb : ∀ held, (expression held).Balanced)
    (hx : Sound .expression expression) : Sound .value (literalOver expression) := by
  intro held c s v c' s' h
  obtain ⟨⟨⟩, c₁, s₁, h₁, g₁⟩ := bind_found h
  obtain ⟨before, rest₁, hbefore, rfl, rfl⟩ := skipSpaces_found h₁
  have hliteral :=
    Sound.orElse (fun held => restores_nested (array_balanced hb held))
      ((array_sound hx).nested (array_balanced hb)) <|
    Sound.orElse (fun _ => restores_constant "null" _) (constant_sound .null rfl) <|
    Sound.orElse (fun _ => restores_constant "newobj" _) (constant_sound .newobj rfl) <|
    Sound.orElse (fun _ => restores_constant "allobj" _) (constant_sound .allobj rfl) <|
    Sound.orElse (fun _ => restores_constant "true" _) (constant_sound (.boolean true) rfl) <|
    Sound.orElse (fun _ => restores_constant "false" _) (constant_sound (.boolean false) rfl)
      number_sound
  obtain ⟨rest, hc, hd⟩ := hliteral g₁
  rw [hbefore]
  exact ⟨rest, hc, hd.indent before⟩

theorem valueOver_sound (hb : ∀ held, (expression held).Balanced)
    (hx : Sound .expression expression) : Sound .value (valueOver expression) :=
  .orElse (fun held => restores_nested (parenthesized_balanced hb held))
    ((parenthesized_sound hx).nested (parenthesized_balanced hb)) (literalOver_sound hb hx)

theorem memberOver_sound (hb : ∀ held, (expression held).Balanced)
    (hx : Sound .expression expression) : Sound .unary (memberOver expression) := by
  intro held c s v c' s' h
  obtain ⟨base, c₁, s₁, h₁, g₁⟩ := bind_found h
  obtain ⟨rest₁, rfl, t, b, ht, htend, htn, hteval⟩ := valueOver_sound hb hx h₁
  obtain ⟨member?, c₂, s₂, h₂, g₂⟩ := bind_found g₁
  have hmember := balanced_bind skipSpaces_balanced fun _ =>
    balanced_bind (expectChar_balanced '.') fun _ => valueOver_balanced hb (base :: held)
  rcases optional_found h₂ with ⟨key, rfl, hkey⟩ | ⟨rfl, hkey⟩
  · obtain ⟨rest, h₃, rfl⟩ := attempt_found hmember hkey
    obtain ⟨hlookup, rfl, rfl⟩ := ofOutcome_found g₂
    obtain ⟨⟨⟩, c₄, s₄, h₄, g₄⟩ := bind_found h₃
    obtain ⟨skipped, rest₂, hrest, rfl, rfl⟩ := skipSpaces_found h₄
    obtain ⟨⟨⟩, c₅, s₅, h₅, g₅⟩ := bind_found g₄
    obtain ⟨rest₃, hpoint, rfl, rfl⟩ := expectChar_found h₅
    obtain ⟨rest₄, hrest₄, u, after, hu, huend, hun, hueval⟩ := valueOver_sound hb hx g₅
    obtain rfl : rest = rest₄ := congrArg Cursor.rest hrest₄
    obtain rfl : rest₁ = skipped.chars ++ rest₂ := hrest
    obtain rfl : rest₂ = '.' :: rest₃ := hpoint
    obtain rfl : rest₃ = u.spell _ := hu
    rw [← List.append_assoc, ← Blank.chars_append] at ht htend
    exact ⟨rest, rfl, .member rfl t (b.append skipped) u, after, ht, ⟨htend, huend⟩,
      Nat.max_le.2 ⟨htn, hun⟩, base, s₅, key, hteval, hueval, outcome_ofOption_found hlookup⟩
  · -- the point, if there is one, is left unread
    obtain ⟨rfl, hs⟩ := restores_attempt hmember hkey
    cases g₂
    exact ⟨rest₁, rfl, .plain t, b, ht, htend, htn, t.evaluates_weaken hteval (Nat.le_refl _) hs⟩

end Values

/-! ## Unary operators -/

section Unary

variable {unary : List Object → GrammarRule}

theorem signed_sound (hu : Sound .unary unary) : SoundInside .unary (signed unary) := by
  intro held c s v c' s' h
  obtain ⟨⟨⟩, c₁, s₁, h₁, g₁⟩ := bind_found h
  obtain ⟨before, rest₁, hbefore, rfl, rfl⟩ := skipSpaces_found h₁
  obtain ⟨sign, c₂, s₂, h₂, g₂⟩ := bind_found g₁
  obtain ⟨rest₂, hsign, rfl, rfl⟩ := sign_found h₂
  obtain ⟨operand, c₃, s₃, h₃, g₃⟩ := bind_found g₂
  obtain ⟨rest, rfl, t, b, ht, htend, htn, hteval⟩ := hu h₃
  obtain ⟨yielded, c₄, s₄, h₄, g₄⟩ := bind_found g₃
  obtain ⟨hvalue, rfl, rfl⟩ := ofOutcome_found h₄
  obtain ⟨rfl, hs⟩ := settle_found g₄
  obtain rfl : rest₁ = sign.symbol :: rest₂ := hsign
  obtain rfl : rest₂ = t.spell _ := ht
  have hyield : operand.withSign sign = some yielded := by
    cases sign <;> exact outcome_ofOption_found hvalue
  exact ⟨rest, rfl, .signed before sign t, b, hbefore, htend, Nat.succ_le_succ htn,
    operand, s₄, yielded, hteval, hyield, hs⟩

theorem negated_sound (hu : Sound .unary unary) : SoundInside .unary (negated unary) := by
  intro held c s v c' s' h
  obtain ⟨⟨⟩, c₁, s₁, h₁, g₁⟩ := bind_found h
  obtain ⟨before, rest₁, hbefore, rfl, rfl⟩ := skipSpaces_found h₁
  obtain ⟨⟨⟩, c₂, s₂, h₂, g₂⟩ := bind_found g₁
  obtain ⟨rest₂, hbang, rfl, rfl⟩ := expectChar_found h₂
  obtain ⟨operand, c₃, s₃, h₃, g₃⟩ := bind_found g₂
  obtain ⟨rest, rfl, t, b, ht, htend, htn, hteval⟩ := hu h₃
  obtain ⟨yielded, c₄, s₄, h₄, g₄⟩ := bind_found g₃
  obtain ⟨hvalue, rfl, rfl⟩ := ofOutcome_found h₄
  obtain ⟨rfl, hs⟩ := settle_found g₄
  obtain rfl : rest₁ = '!' :: rest₂ := hbang
  obtain rfl : rest₂ = t.spell _ := ht
  exact ⟨rest, rfl, .negated before t, b, hbefore, htend, Nat.succ_le_succ htn,
    operand, s₄, yielded, hteval, outcome_ofOption_found hvalue, hs⟩

end Unary

theorem unary_sound (levels : Nat) : Sound .unary (unary levels) := by
  induction levels with
  | zero =>
    intro held c s v c' s' h
    cases h
  | succ levels ih =>
    have hb := unary_balanced levels
    have hx := expressionOver_balanced hb
    exact .orElse (fun held => restores_attempt (memberOver_balanced hx held))
      ((memberOver_sound hx (expressionOver_sound hb ih)).attempt (memberOver_balanced hx)) <|
      .orElse (fun held => restores_nested (signed_balanced hb held))
        ((signed_sound ih).nested (signed_balanced hb)) <|
        (negated_sound ih).nested (negated_balanced hb)

theorem expression_sound : Sound .expression expression :=
  expressionOver_sound (unary_balanced maxLevels) (unary_sound maxLevels)

/-! ## Whole texts -/

/-- What the rule `statement` read, up to the blank at the end. -/
theorem statement_found {held : List Object} {c c' : Cursor} {v : Object} {s s' : ObjectId}
    (h : statement held c s = (.found v, c', s')) :
    ∃ rest, c' = c.seek rest ∧ ∃ (t : Tree true .expression) (b : Blank) (ending : List Char),
      c.rest = t.spell ending ∧ t.WordsEnd ending ∧ t.nesting ≤ c.levels ∧
        t.Evaluates held s v s' ∧ (ending = b.chars ++ rest ∨ ending = b.chars ++ ';' :: rest) := by
  obtain ⟨rest, h₀, rfl⟩ :=
    attempt_found (balanced_bind (expression_balanced held) semicolon_balanced) h
  obtain ⟨value, c₁, s₁, h₁, g₁⟩ := bind_found h₀
  obtain ⟨rest₁, rfl, t, b, ht, htend, htn, hteval⟩ := expression_sound h₁
  obtain ⟨⟨⟩, c₂, s₂, h₂, g₂⟩ := bind_found g₁
  obtain ⟨skipped, rest₂, hrest, rfl, rfl⟩ := skipSpaces_found h₂
  obtain ⟨semicolon, c₃, s₃, h₃, g₃⟩ := bind_found g₂
  obtain ⟨rfl, rest₃, rfl, hsemicolon⟩ := acceptChar_found h₃
  obtain rfl : rest₁ = skipped.chars ++ rest₂ := hrest
  rw [← List.append_assoc, ← Blank.chars_append] at ht htend
  cases g₃
  refine ⟨rest, rfl, t, b.append skipped, _, ht, htend, htn, hteval, ?_⟩
  cases semicolon with
  | true => exact .inr (congrArg ((b.append skipped).chars ++ ·) hsemicolon)
  | false => exact .inl (congrArg ((b.append skipped).chars ++ ·) (Eq.symm hsemicolon))

/-- An accepted text is the text of a statement that evaluates to the result. -/
theorem parse_ok {held : List Object} {text : String} {next : ObjectId} {v : Object}
    (h : (parse held text next).1 = .ok v) :
    ∃ e : Statement true, e.text = text ∧ e.WordsEnd ∧ e.nesting ≤ maxNesting ∧
      e.body.Evaluates held next v (parse held text next).2 := by
  unfold parse at h ⊢
  rcases hs : statement held (.ofText text.toList) next with ⟨v' | - | cause, c', s'⟩ <;>
    simp only [hs] at h ⊢
  · obtain ⟨rest, rfl, t, b, ending, ht, htend, htn, hteval, hending⟩ := statement_found hs
    split at h
    case isTrue hend =>
      rw [if_pos hend]
      cases h
      obtain ⟨after, hafter⟩ := exists_blank rest
      have hempty : skipBlank rest = [] := List.isEmpty_iff.1 hend
      obtain rfl : rest = after.chars := by rw [hafter, hempty, List.append_nil]
      have htext : String.ofList (t.spell ending) = text := by
        rw [← ht]
        exact String.ofList_toList
      rcases hending with rfl | rfl
      · exact ⟨⟨t, none, b.append after⟩, htext, htend, htn, hteval⟩
      · exact ⟨⟨t, some b, after⟩, htext, htend, htn, hteval⟩
    case isFalse => cases h
  · cases h
  · cases h

/-- The text of whatever is accepted derives from the grammar, with no keyword
running on into an identifier character, integers that fit 64 bits and at most
`maxNesting` levels open at a time. -/
theorem exists_statement_of_parse {held : List Object} {text : String} {next : ObjectId}
    {v : Object} (h : (parse held text next).1 = .ok v) :
    ∃ e : Statement true, e.text = text ∧ e.WordsEnd ∧ e.nesting ≤ maxNesting := by
  obtain ⟨e, htext, hend, hn, -⟩ := parse_ok h
  exact ⟨e, htext, hend, hn⟩

theorem exists_statement_of_member :
    (parse [] " allobj . 2;" 4).1 = .ok (.boolean true) ∧
      ∃ e : Statement true, e.text = " allobj . 2;" ∧ e.WordsEnd ∧ e.nesting ≤ maxNesting := by
  have h : (parse [] " allobj . 2;" 4).1 = .ok (.boolean true) := rfl
  exact ⟨h, exists_statement_of_parse h⟩

end Parley.Formula
