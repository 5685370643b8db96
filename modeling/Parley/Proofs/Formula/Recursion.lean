import Parley.Proofs.Formula.Scopes

/-!
# How deep the rules call one another

The rules of the grammar call one another before they have read anything, so that the length of a
text says nothing about how deep the calls go. What bounds them is the nesting: every circle of
calls passes through a nested rule, and of those at most `maxNesting` are open at a time.

- `Nonterminal`, `Nonterminal.rule`: the rules that call one another.
- `Nonterminal.body`: what each of them does, in terms of the rules that it calls.
- `Rule.SameAt`: rules that come to the same wherever so many levels of nesting are open, with one
  lemma for each combinator and one for each rule of the grammar.
- `Nonterminal.body_rule`: the rules do what their bodies say, with no limit on the calls.
- `limited`: the rules with a limit on how deep the calls go.
- `eq_rule_of_body`: no other rules do what the bodies say.
- `rule_of_limited`: a limit of `maxCalls` is never reached.
-/

namespace Parley.Formula

open Rule

/-! ## Rules and their bodies -/

/-- The rules of the grammar that call one another. -/
inductive Nonterminal where
  | statement
  | expression
  | chain (level : Level)
  | unary
  | member
  | signed
  | negated
  | value
  | parenthesized
  | literal
  | array

/-- A statement over the expressions given. -/
def statementOf (expression : List Object → GrammarRule) (held : List Object) : GrammarRule :=
  .attempt do
    let value ← expression held
    skipSpaces
    let _ ← acceptChar ';'
    pure value

/-- An operand in one of its three forms. -/
def unaryOf (member signed negated : List Object → GrammarRule) (held : List Object) :
    GrammarRule :=
  .attempt (member held) <|> .nested (signed held) <|> .nested (negated held)

def memberOf (value : List Object → GrammarRule) (held : List Object) : GrammarRule := do
  let base ← value held
  let member? ← Rule.optional <| .attempt do
    skipSpaces
    expectChar '.'
    value (base :: held)
  match member? with
  | none => pure base
  | some member => Rule.ofOutcome (.ofOption (base.member held member))

def valueOf (parenthesized literal : List Object → GrammarRule) (held : List Object) :
    GrammarRule :=
  .nested (parenthesized held) <|> literal held

def literalOf (array : List Object → GrammarRule) (held : List Object) : GrammarRule := do
  skipSpaces
  .nested (array held) <|> wordOrNumber

namespace Nonterminal

/-- The rule for the operands of a chain. -/
def operand : Level → Nonterminal
  | .logical => .chain .additive
  | .additive => .chain .multiplicative
  | .multiplicative => .unary

/-- What a rule does, where `call` runs the rules that it calls. -/
def body (call : Nonterminal → List Object → GrammarRule) :
    Nonterminal → List Object → GrammarRule
  | .statement => statementOf (call .expression)
  | .expression => call (.chain .logical)
  | .chain l => Formula.chain l.operator? (call (operand l))
  | .unary => unaryOf (call .member) (call .signed) (call .negated)
  | .member => memberOf (call .value)
  | .signed => Formula.signed (call .unary)
  | .negated => Formula.negated (call .unary)
  | .value => valueOf (call .parenthesized) (call .literal)
  | .parenthesized => Formula.parenthesized (call .expression)
  | .literal => literalOf (call .array)
  | .array => Formula.array (call .expression)

/-- The rules as the grammar has them. -/
def rule : Nonterminal → List Object → GrammarRule
  | .statement => Formula.statement
  | .expression => Formula.expression
  | .chain .logical => Formula.expression
  | .chain .additive =>
    Formula.chain additiveOperator?
      (Formula.chain multiplicativeOperator? (Formula.unary maxLevels))
  | .chain .multiplicative => Formula.chain multiplicativeOperator? (Formula.unary maxLevels)
  | .unary => Formula.unary maxLevels
  | .member => memberOver Formula.expression
  | .signed => Formula.signed (Formula.unary maxLevels)
  | .negated => Formula.negated (Formula.unary maxLevels)
  | .value => valueOver Formula.expression
  | .parenthesized => Formula.parenthesized Formula.expression
  | .literal => Formula.literal
  | .array => Formula.array Formula.expression

theorem rule_balanced (symbol : Nonterminal) (held : List Object) :
    (symbol.rule held).Balanced := by
  have hu := unary_balanced maxLevels
  have hx := expression_balanced
  cases symbol with
  | statement => exact statement_balanced held
  | expression => exact hx held
  | chain l =>
    cases l with
    | logical => exact hx held
    | additive => exact chain_balanced (chain_balanced hu) held
    | multiplicative => exact chain_balanced hu held
  | unary => exact hu held
  | member => exact memberOver_balanced hx held
  | signed => exact signed_balanced hu held
  | negated => exact negated_balanced hu held
  | value => exact valueOver_balanced hx held
  | parenthesized => exact parenthesized_balanced hx held
  | literal => exact literal_balanced held
  | array => exact array_balanced hx held

end Nonterminal

/-! ## Rules that come to the same -/

theorem wordOrNumber_balanced : wordOrNumber.Balanced :=
  balanced_orElse (constant_balanced _ _) <|
  balanced_orElse (constant_balanced _ _) <|
  balanced_orElse (constant_balanced _ _) <|
  balanced_orElse (constant_balanced _ _) <|
  balanced_orElse (constant_balanced _ _) <|
  balanced_bind (balanced_read Cursor.reaches_integer) fun _ => settle_balanced _

namespace Rule

variable {ε α β : Type} {n : Nat} {rule rule' first first' second second' : Rule ObjectId ε α}

/-- Wherever `n` levels of nesting are open the two rules come to the same. The second one
changes nothing of the cursor but its place, so that after them `n` levels are open again. -/
structure SameAt (n : Nat) (rule rule' : Rule ObjectId ε α) : Prop where
  balanced : rule'.Balanced
  eq : ∀ c s, c.nesting = n → rule c s = rule' c s

namespace SameAt

theorem refl (h : rule.Balanced) : SameAt n rule rule :=
  ⟨h, fun _ _ _ => rfl⟩

theorem bind {next next' : α → Rule ObjectId ε β} (h : SameAt n rule rule')
    (hnext : ∀ a, SameAt n (next a) (next' a)) : SameAt n (rule >>= next) (rule' >>= next') := by
  refine ⟨balanced_bind h.balanced fun a => (hnext a).balanced, fun c s hc => ?_⟩
  have hnesting := (h.balanced c s).1.sameScopes.nesting_eq
  show Rule.bind rule next c s = Rule.bind rule' next' c s
  rw [Rule.bind, Rule.bind, h.eq c s hc]
  rcases hr : rule' c s with ⟨a | - | cause, c₁, s₁⟩
  · rw [hr] at hnesting
    exact (hnext a).eq c₁ s₁ (hnesting.trans hc)
  · rfl
  · rfl

theorem orElse (h₁ : SameAt n first first') (h₂ : SameAt n second second') :
    SameAt n (first <|> second) (first' <|> second') := by
  refine ⟨balanced_orElse h₁.balanced h₂.balanced, fun c s hc => ?_⟩
  have hnesting := (h₁.balanced c s).1.sameScopes.nesting_eq
  show Rule.orElse first (fun _ => second) c s = Rule.orElse first' (fun _ => second') c s
  rw [Rule.orElse, Rule.orElse, h₁.eq c s hc]
  rcases hr : first' c s with ⟨a | - | cause, c₁, s₁⟩
  · rfl
  · rw [hr] at hnesting
    exact h₂.eq c₁ s₁ (hnesting.trans hc)
  · rfl

theorem optional (h : SameAt n rule rule') : SameAt n rule.optional rule'.optional :=
  ⟨balanced_optional h.balanced, fun c s hc => by rw [Rule.optional, Rule.optional, h.eq c s hc]⟩

theorem attempt (h : SameAt n rule rule') : SameAt n rule.attempt rule'.attempt :=
  ⟨balanced_attempt h.balanced,
    fun c s hc => by rw [Rule.attempt, Rule.attempt, h.eq c.beginScope s hc]⟩

/-- Inside a nested rule one more level is open. Where all of them are, what is inside is not
run. -/
theorem nested (hb : rule'.Balanced) (h : n < maxNesting → SameAt (n + 1) rule rule') :
    SameAt n rule.nested rule'.nested := by
  refine ⟨balanced_nested hb, fun c s hc => ?_⟩
  rcases Nat.lt_or_ge c.nesting maxNesting with hlt | hge
  · have hsame := (h (hc ▸ hlt)).attempt
    rw [nested_of_lt rule s hlt, nested_of_lt rule' s hlt,
      hsame.eq c.deeper s (congrArg (· + 1) hc)]
  · rw [nested_of_full rule s hge, nested_of_full rule' s hge]

end SameAt

end Rule

section Grammar

variable {n : Nat} {held : List Object}

section Chains

variable {operator? : Char → Option BinaryOp} {operand operand' : List Object → GrammarRule}

theorem chainFrom_sameAt (h : ∀ held, SameAt n (operand held) (operand' held)) (room : List Char)
    (left : Object) :
    SameAt n (chainFrom operator? operand held room left)
      (chainFrom operator? operand' held room left) := by
  induction room generalizing left with
  | nil => exact .refl (balanced_pure left)
  | cons _ room ih =>
    refine .bind (.refl skipSpaces_balanced) fun _ => .bind (.refl (balanced_look _)) fun ch? => ?_
    cases ch?.bind operator? with
    | none => exact .refl (balanced_pure left)
    | some op =>
      refine .bind (.optional (.attempt (.bind (.refl (balanced_move Cursor.reaches_advance))
        fun _ => h _))) fun right? => ?_
      cases right? with
      | none => exact .refl (balanced_pure left)
      | some right =>
        exact .bind (.refl (balanced_ofOutcome _)) fun yielded =>
          .bind (.refl (settle_balanced yielded)) fun value => ih value

theorem chain_sameAt (h : ∀ held, SameAt n (operand held) (operand' held)) :
    SameAt n (chain operator? operand held) (chain operator? operand' held) :=
  .attempt <| .bind (h held) fun first =>
    .bind (.refl (balanced_look _)) fun room => chainFrom_sameAt h room first

end Chains

section Values

variable {rule rule' literal literal' sign sign' not not' : List Object → GrammarRule}

theorem statementOf_sameAt (h : ∀ held, SameAt n (rule held) (rule' held)) :
    SameAt n (statementOf rule held) (statementOf rule' held) :=
  .attempt <| .bind (h held) fun value => .refl (semicolon_balanced value)

theorem itemsFrom_sameAt (h : ∀ held, SameAt n (rule held) (rule' held)) (room : List Char)
    (items : List Object) :
    SameAt n (itemsFrom rule held room items) (itemsFrom rule' held room items) := by
  induction room generalizing held items with
  | nil => exact .refl balanced_missing
  | cons _ room ih =>
    refine .bind (h held) fun item => .bind (.refl skipSpaces_balanced) fun _ =>
      .bind (.refl (acceptChar_balanced ',')) fun more => ?_
    cases more with
    | true => exact ih (item :: items)
    | false =>
      exact .refl (balanced_bind (expectChar_balanced ']') fun _ => balanced_pure _)

theorem array_sameAt (h : ∀ held, SameAt n (rule held) (rule' held)) :
    SameAt n (array rule held) (array rule' held) := by
  refine .bind (.refl (expectChar_balanced '[')) fun _ => .bind (.refl skipSpaces_balanced)
    fun _ => .bind (.refl (acceptChar_balanced ']')) fun empty => ?_
  cases empty with
  | true => exact .refl (balanced_bind (balanced_pure _) fun items => settle_balanced _)
  | false =>
    exact .bind (.refl (balanced_look _)) fun room =>
      .bind (itemsFrom_sameAt h room []) fun items => .refl (settle_balanced _)

theorem parenthesized_sameAt (h : ∀ held, SameAt n (rule held) (rule' held)) :
    SameAt n (parenthesized rule held) (parenthesized rule' held) :=
  .bind (.refl skipSpaces_balanced) fun _ => .bind (.refl (expectChar_balanced '(')) fun _ =>
    .bind (h held) fun value => .refl <| balanced_bind skipSpaces_balanced fun _ =>
      balanced_bind (expectChar_balanced ')') fun _ => balanced_pure value

theorem literalOf_sameAt (hb : ∀ held, (rule' held).Balanced)
    (h : n < maxNesting → ∀ held, SameAt (n + 1) (rule held) (rule' held)) :
    SameAt n (literalOf rule held) (literalOf rule' held) :=
  .bind (.refl skipSpaces_balanced) fun _ =>
    .orElse (.nested (hb held) fun hlt => h hlt held) (.refl wordOrNumber_balanced)

theorem valueOf_sameAt (hb : ∀ held, (rule' held).Balanced)
    (h : n < maxNesting → ∀ held, SameAt (n + 1) (rule held) (rule' held))
    (hliteral : ∀ held, SameAt n (literal held) (literal' held)) :
    SameAt n (valueOf rule literal held) (valueOf rule' literal' held) :=
  .orElse (.nested (hb held) fun hlt => h hlt held) (hliteral held)

theorem memberOf_sameAt (h : ∀ held, SameAt n (rule held) (rule' held)) :
    SameAt n (memberOf rule held) (memberOf rule' held) := by
  refine .bind (h held) fun base => .bind (.optional (.attempt (.bind (.refl skipSpaces_balanced)
    fun _ => .bind (.refl (expectChar_balanced '.')) fun _ => h _))) fun member? => ?_
  cases member? with
  | none => exact .refl (balanced_pure base)
  | some member => exact .refl (balanced_ofOutcome _)

theorem signed_sameAt (h : ∀ held, SameAt n (rule held) (rule' held)) :
    SameAt n (signed rule held) (signed rule' held) :=
  .bind (.refl skipSpaces_balanced) fun _ => .bind (.refl (balanced_read Cursor.reaches_sign))
    fun _ => .bind (h held) fun _ => .refl (balanced_bind (balanced_ofOutcome _) settle_balanced)

theorem negated_sameAt (h : ∀ held, SameAt n (rule held) (rule' held)) :
    SameAt n (negated rule held) (negated rule' held) :=
  .bind (.refl skipSpaces_balanced) fun _ => .bind (.refl (expectChar_balanced '!'))
    fun _ => .bind (h held) fun _ => .refl (balanced_bind (balanced_ofOutcome _) settle_balanced)

theorem unaryOf_sameAt (hbs : ∀ held, (sign' held).Balanced) (hbn : ∀ held, (not' held).Balanced)
    (h : ∀ held, SameAt n (rule held) (rule' held))
    (hsigned : n < maxNesting → ∀ held, SameAt (n + 1) (sign held) (sign' held))
    (hnegated : n < maxNesting → ∀ held, SameAt (n + 1) (not held) (not' held)) :
    SameAt n (unaryOf rule sign not held) (unaryOf rule' sign' not' held) :=
  .orElse (.attempt (h held)) <|
    .orElse (.nested (hbs held) fun hlt => hsigned hlt held)
      (.nested (hbn held) fun hlt => hnegated hlt held)

end Values

/-! ## Rules without a limit -/

/-- Once the levels of nesting that are left are among them, further ones do not matter. -/
theorem unary_sameAt {levels levels' : Nat} (h : maxNesting - n < levels)
    (h' : maxNesting - n < levels') : SameAt n (unary levels held) (unary levels' held) := by
  induction levels generalizing levels' n held with
  | zero => cases h
  | succ levels ih =>
    obtain ⟨levels', rfl⟩ := Nat.exists_eq_succ_of_ne_zero (Nat.ne_zero_of_lt h')
    -- Whatever goes round stands inside a nested rule. There one level more is open, so that one
    -- less has to be among those that are left.
    have hb := unary_balanced levels'
    have hx := expressionOver_balanced hb
    have hu : n < maxNesting →
        ∀ held, SameAt (n + 1) (unary levels held) (unary levels' held) :=
      fun hlt held => ih (by omega) (by omega)
    have hinside : n < maxNesting → ∀ held,
        SameAt (n + 1) (expressionOver (unary levels) held) (expressionOver (unary levels') held) :=
      fun hlt held => chain_sameAt fun _ => chain_sameAt fun _ => chain_sameAt fun _ => hu hlt _
    have hvalue : ∀ held, SameAt n (valueOver (expressionOver (unary levels)) held)
        (valueOver (expressionOver (unary levels')) held) := fun held =>
      valueOf_sameAt (parenthesized_balanced hx)
        (fun hlt _ => parenthesized_sameAt fun _ => hinside hlt _)
        (fun _ => literalOf_sameAt (array_balanced hx)
          (fun hlt _ => array_sameAt fun _ => hinside hlt _))
    exact unaryOf_sameAt (signed_balanced hb) (negated_balanced hb)
      (fun _ => memberOf_sameAt hvalue)
      (fun hlt _ => signed_sameAt fun _ => hu hlt _) (fun hlt _ => negated_sameAt fun _ => hu hlt _)

/-- A literal that opens no more levels than there are. -/
theorem literal_eq : literal = literalOver expression := by
  funext held c s
  refine (literalOf_sameAt (n := c.nesting) (array_balanced expression_balanced)
    fun hlt _ => array_sameAt fun held => ?_).eq c s rfl
  exact chain_sameAt fun _ => chain_sameAt fun _ => chain_sameAt fun _ =>
    unary_sameAt (by simp only [maxNesting] at *; omega) (by simp only [maxLevels]; omega)

end Grammar

namespace Nonterminal

/-- The rules do what their bodies say: they call one another without any limit. -/
theorem body_rule (symbol : Nonterminal) : symbol.body rule = symbol.rule := by
  cases symbol with
  | unary =>
    -- The left side is the same rule with one level more, and neither runs out of them.
    funext held c s
    have hmore : SameAt c.nesting (Formula.unary (maxLevels + 1) held)
        (Formula.unary maxLevels held) :=
      unary_sameAt (by simp only [maxLevels]; omega) (by simp only [maxLevels]; omega)
    exact hmore.eq c s rfl
  | value => exact congrArg (valueOf (Formula.parenthesized Formula.expression)) literal_eq
  | literal => exact literal_eq.symm
  | chain l => cases l <;> rfl
  | statement | expression | member | signed | negated | parenthesized | array => rfl

/-! ## Rules with a limit -/

/-- How many calls are open at most before another level of nesting is opened, the call of the rule
itself included. -/
def height : Nonterminal → Nat
  | .literal => 1
  | .value => 2
  | .member => 3
  | .unary => 4
  | .chain .multiplicative | .signed | .negated => 5
  | .chain .additive => 6
  | .chain .logical => 7
  | .expression => 8
  | .statement | .parenthesized | .array => 9

/-- How many calls are open at most, for a rule that is called while `n` levels of nesting are
open. -/
def calls (symbol : Nonterminal) (n : Nat) : Nat :=
  9 * (maxNesting - n) + symbol.height

/-- One call: rules come to the same if those they call do. Fewer calls may be open inside those,
and there are never more levels of nesting open than there are. -/
theorem body_sameAt {call call' : Nonterminal → List Object → GrammarRule} (symbol : Nonterminal)
    {n : Nat} (hn : n ≤ maxNesting) (hb : ∀ symbol held, (call' symbol held).Balanced)
    (h : ∀ (symbol' : Nonterminal) {m : Nat}, m ≤ maxNesting → symbol'.calls m < symbol.calls n →
      ∀ held, SameAt m (call symbol' held) (call' symbol' held)) (held : List Object) :
    SameAt n (symbol.body call held) (symbol.body call' held) := by
  have hhere : ∀ symbol' : Nonterminal, symbol'.height < symbol.height →
      ∀ held, SameAt n (call symbol' held) (call' symbol' held) :=
    fun symbol' hlt => h symbol' hn (Nat.add_lt_add_left hlt _)
  have hinside : ∀ symbol' : Nonterminal, symbol'.height < symbol.height + 9 → n < maxNesting →
      ∀ held, SameAt (n + 1) (call symbol' held) (call' symbol' held) :=
    fun symbol' hlt hlevel => h symbol' hlevel (by unfold calls; omega)
  cases symbol with
  | statement => exact statementOf_sameAt (hhere .expression (by decide))
  | expression => exact hhere (.chain .logical) (by decide) held
  | chain l => exact chain_sameAt (hhere (operand l) (by cases l <;> decide))
  | unary =>
    exact unaryOf_sameAt (hb .signed) (hb .negated) (hhere .member (by decide))
      (hinside .signed (by decide)) (hinside .negated (by decide))
  | member => exact memberOf_sameAt (hhere .value (by decide))
  | signed => exact signed_sameAt (hhere .unary (by decide))
  | negated => exact negated_sameAt (hhere .unary (by decide))
  | value =>
    exact valueOf_sameAt (hb .parenthesized) (hinside .parenthesized (by decide))
      (hhere .literal (by decide))
  | parenthesized => exact parenthesized_sameAt (hhere .expression (by decide))
  | literal => exact literalOf_sameAt (hb .array) (hinside .array (by decide))
  | array => exact array_sameAt (hhere .expression (by decide))

end Nonterminal

/-- The rules with a limit: at most `depth` calls may be open at a time. In place of a call beyond
that, or with more than `maxNesting` levels of nesting open, the rule `otherwise` is run. -/
def limited (otherwise : Nonterminal → List Object → GrammarRule) :
    (depth : Nat) → Nonterminal → List Object → GrammarRule
  | 0, symbol, held => otherwise symbol held
  | depth + 1, symbol, held => fun c s =>
    if c.nesting ≤ maxNesting then symbol.body (limited otherwise depth) held c s
    else otherwise symbol held c s

theorem limited_succ (otherwise : Nonterminal → List Object → GrammarRule) (depth : Nat)
    (symbol : Nonterminal) (held : List Object) (c : Cursor) (s : ObjectId) :
    limited otherwise (depth + 1) symbol held c s =
      if c.nesting ≤ maxNesting then symbol.body (limited otherwise depth) held c s
      else otherwise symbol held c s :=
  rfl

/-- No more calls than these are open at any time. -/
def maxCalls : Nat := 9 * maxNesting + 9

theorem Nonterminal.calls_le (symbol : Nonterminal) (n : Nat) : symbol.calls n ≤ maxCalls := by
  have hheight : symbol.height ≤ 9 := by
    rcases symbol with - | - | (- | - | -) | - | - | - | - | - | - | - | - <;> decide
  simp only [calls, maxCalls]
  omega

/-- A limit that leaves room for the calls of a rule is not noticed. -/
theorem limited_eq_rule (otherwise : Nonterminal → List Object → GrammarRule) {depth : Nat}
    {symbol : Nonterminal} {held : List Object} {c : Cursor} {s : ObjectId}
    (hc : c.nesting ≤ maxNesting) (hdepth : symbol.calls c.nesting ≤ depth) :
    limited otherwise depth symbol held c s = symbol.rule held c s := by
  induction depth generalizing symbol held c s with
  | zero =>
    have hpos : 0 < symbol.calls c.nesting := by
      rcases symbol with - | - | (- | - | -) | - | - | - | - | - | - | - | - <;>
        simp [Nonterminal.calls, Nonterminal.height]
    omega
  | succ depth ih =>
    -- Every call from here leads to fewer open calls at most, for which the limit leaves room.
    have hsame : SameAt c.nesting (symbol.body (limited otherwise depth) held)
        (symbol.body Nonterminal.rule held) := by
      refine symbol.body_sameAt hc Nonterminal.rule_balanced (fun symbol' m hm hlt held' => ?_) held
      refine ⟨symbol'.rule_balanced held', fun c' s' hc' => ?_⟩
      subst hc'
      exact ih hm (Nat.le_of_lt_succ (Nat.lt_of_lt_of_le hlt hdepth))
    rw [limited_succ, if_pos hc, hsame.eq c s rfl, symbol.body_rule]

/-- Rules that do what the bodies say are those of the grammar, there being no others. -/
theorem eq_rule_of_body {call : Nonterminal → List Object → GrammarRule}
    (hcall : ∀ symbol : Nonterminal, symbol.body call = call symbol) {symbol : Nonterminal}
    {held : List Object} {c : Cursor} {s : ObjectId} (hc : c.nesting ≤ maxNesting) :
    call symbol held c s = symbol.rule held c s := by
  -- With these rules themselves beyond the limit, the limit changes nothing.
  have hlimited : ∀ depth, limited call depth = call := by
    intro depth
    induction depth with
    | zero => rfl
    | succ depth ih =>
      funext symbol held c s
      rw [limited_succ, ih, hcall, ite_self]
  rw [← limited_eq_rule call hc (Nat.le_refl _), hlimited]

/-- The rules call one another without any limit, and yet no more than `maxCalls` calls and
`maxNesting` levels of nesting are ever open, however long a text is: whatever is put in place of
the calls beyond that, a fault that would end the evaluation included, every rule comes to what it
comes to anyway. -/
theorem rule_of_limited :
    (∀ symbol : Nonterminal, symbol.body Nonterminal.rule = symbol.rule) ∧
    ∀ (otherwise : Nonterminal → List Object → GrammarRule) (depth : Nat) (symbol : Nonterminal)
      (held : List Object) (c : Cursor) (next : ObjectId),
      maxCalls ≤ depth → c.nesting ≤ maxNesting →
        limited otherwise depth symbol held c next = symbol.rule held c next :=
  ⟨Nonterminal.body_rule, fun otherwise _ symbol _ c _ hdepth hc =>
    limited_eq_rule otherwise hc (Nat.le_trans (symbol.calls_le c.nesting) hdepth)⟩

theorem rule_of_limited_nested :
    let c := Cursor.ofText "[-(1), allobj.2 & !true]".toList
    maxCalls ≤ 1161 ∧ c.nesting ≤ maxNesting ∧
      limited (fun _ _ => .ofOutcome (.fault .divisionByZero)) 1161 .statement [] c 4 =
        statement [] c 4 :=
  ⟨by decide, by decide, rule_of_limited.2 _ 1161 .statement [] _ 4 (by decide) (by decide)⟩

end Parley.Formula
