import Parley.Proofs.Formula.Words

/-!
# Backtracking is balanced

Whatever a rule comes to, it leaves the text, the open scopes and the nesting of
its cursor as they were, and moves the place forward only. So a rule that was
tried in vain inside a scope has changed nothing but the next identifier, which
never goes back.

- `Cursor.Reaches`: a cursor moved forward.
- `Rule.Balanced`: the property, with one lemma for each combinator.
- `unary_balanced`, `expression_balanced`: it holds of the grammar.
- `Rule.bind_found` and the lemmas after it: what a rule that found something was
  made of.
- `Rule.Restores`: a rule that leaves nothing behind where it finds nothing.
-/

namespace Parley.Formula

/-! ## Moving forward -/

namespace Cursor

/-- `c'` is `c`, perhaps further on in the text. -/
def Reaches (c c' : Cursor) : Prop :=
  ∃ rest, rest <:+ c.rest ∧ c' = c.seek rest

namespace Reaches

variable {c c₁ c₂ : Cursor}

theorem refl (c : Cursor) : c.Reaches c :=
  ⟨c.rest, List.suffix_refl _, rfl⟩

theorem trans (h₁ : c.Reaches c₁) (h₂ : c₁.Reaches c₂) : c.Reaches c₂ := by
  obtain ⟨a, ha, rfl⟩ := h₁
  obtain ⟨b, hb, rfl⟩ := h₂
  exact ⟨b, hb.trans ha, rfl⟩

theorem rest_suffix (h : c.Reaches c₁) : c₁.rest <:+ c.rest := by
  obtain ⟨a, ha, rfl⟩ := h
  exact ha

/-- Closing the scope that a rule was run in. -/
theorem endScope (h : c.beginScope.Reaches c₁) (restore : Bool) :
    c.Reaches (c₁.endScope restore) := by
  obtain ⟨a, ha, rfl⟩ := h
  cases restore with
  | false => exact ⟨a, ha, rfl⟩
  | true => exact refl c

/-- Going back to the beginning of the scope that a rule was run in. -/
theorem endScope_true (h : c.beginScope.Reaches c₁) : c₁.endScope true = c := by
  obtain ⟨a, -, rfl⟩ := h
  rfl

end Reaches

/-- The cursor inside one more nested rule. -/
def deeper (c : Cursor) : Cursor :=
  { c with nesting := c.nesting + 1 }

/-- The cursor after a nested rule is left. -/
def shallower (c : Cursor) : Cursor :=
  { c with nesting := c.nesting - 1 }

@[simp] theorem rest_deeper (c : Cursor) : c.deeper.rest = c.rest := rfl

@[simp] theorem nesting_deeper (c : Cursor) : c.deeper.nesting = c.nesting + 1 := rfl

/-- The levels of nesting that are left. -/
def levels (c : Cursor) : Nat :=
  maxNesting - c.nesting

/-- One level is taken inside a nested rule. -/
theorem levels_deeper {c : Cursor} (h : c.nesting < maxNesting) :
    c.deeper.beginScope.levels + 1 = c.levels := by
  simp only [levels, nesting_beginScope, nesting_deeper]
  omega

theorem reaches_skipSpaces (c : Cursor) : c.Reaches c.skipSpaces :=
  ⟨_, List.dropWhile_suffix _, rfl⟩

theorem reaches_advance (c : Cursor) : c.Reaches c.advance.2 :=
  ⟨_, List.tail_suffix _, rfl⟩

theorem reaches_advanceIf (ch : Char) (c : Cursor) : c.Reaches (c.advanceIf ch).2 := by
  unfold advanceIf
  split
  · exact ⟨_, List.tail_suffix _, rfl⟩
  · exact .refl c

theorem reaches_keyword (word : List Char) (c : Cursor) : c.Reaches (c.keyword word).2 := by
  rw [keyword_eq]
  split
  · exact ⟨_, List.drop_suffix _ _, rfl⟩
  · exact .refl c

theorem splitSign_suffix (text : List Char) : (splitSign text).2 <:+ text :=
  ⟨_, (signText_append_splitSign text).symm⟩

theorem reaches_sign (c : Cursor) : c.Reaches c.sign.2 := by
  rw [sign_eq]
  exact ⟨_, splitSign_suffix _, rfl⟩

theorem reaches_integer (c : Cursor) : c.Reaches c.integer.2 := by
  rw [integer_eq]
  split
  · exact ⟨_, (List.dropWhile_suffix _).trans (splitSign_suffix _), rfl⟩
  · exact .refl c

end Cursor

/-! ## Balanced rules -/

namespace Rule

variable {ε α β : Type}

/-- The rule changes nothing of a cursor but its place, which moves forward, and
draws identifiers from the next one on. -/
def Balanced (rule : Rule ObjectId ε α) : Prop :=
  ∀ c s, c.Reaches (rule c s).2.1 ∧ s ≤ (rule c s).2.2

theorem balanced_pure (value : α) : Balanced (pure value : Rule ObjectId ε α) :=
  fun c s => ⟨.refl c, Nat.le_refl s⟩

theorem balanced_bind {rule : Rule ObjectId ε α} {next : α → Rule ObjectId ε β}
    (h : rule.Balanced) (hnext : ∀ a, (next a).Balanced) : (rule >>= next).Balanced := by
  intro c s
  obtain ⟨hc, hs⟩ := h c s
  show c.Reaches (Rule.bind rule next c s).2.1 ∧ s ≤ (Rule.bind rule next c s).2.2
  rcases hr : rule c s with ⟨a | - | cause, c₁, s₁⟩ <;> simp only [Rule.bind, hr] at hc hs ⊢
  · obtain ⟨hc₁, hs₁⟩ := hnext a c₁ s₁
    exact ⟨hc.trans hc₁, Nat.le_trans hs hs₁⟩
  · exact ⟨hc, hs⟩
  · exact ⟨hc, hs⟩

theorem balanced_orElse {first second : Rule ObjectId ε α} (h₁ : first.Balanced)
    (h₂ : second.Balanced) : (first <|> second).Balanced := by
  intro c s
  obtain ⟨hc, hs⟩ := h₁ c s
  show c.Reaches (Rule.orElse first (fun _ => second) c s).2.1 ∧
    s ≤ (Rule.orElse first (fun _ => second) c s).2.2
  rcases hr : first c s with ⟨a | - | cause, c₁, s₁⟩ <;> simp only [Rule.orElse, hr] at hc hs ⊢
  · exact ⟨hc, hs⟩
  · obtain ⟨hc₁, hs₁⟩ := h₂ c₁ s₁
    exact ⟨hc.trans hc₁, Nat.le_trans hs hs₁⟩
  · exact ⟨hc, hs⟩

theorem balanced_optional {rule : Rule ObjectId ε α} (h : rule.Balanced) :
    rule.optional.Balanced := by
  intro c s
  have hcs := h c s
  rcases hr : rule c s with ⟨a | - | cause, c₁, s₁⟩ <;> simpa only [optional, hr] using hcs

theorem balanced_ofOutcome (outcome : Outcome ε α) :
    (ofOutcome outcome : Rule ObjectId ε α).Balanced :=
  fun c s => ⟨.refl c, Nat.le_refl s⟩

theorem balanced_missing : (missing : Rule ObjectId ε α).Balanced :=
  balanced_ofOutcome _

theorem balanced_look (f : Cursor → α) : (look f : Rule ObjectId ε α).Balanced :=
  fun c s => ⟨.refl c, Nat.le_refl s⟩

theorem balanced_move {f : Cursor → Cursor} (h : ∀ c : Cursor, c.Reaches (f c)) :
    (move f : Rule ObjectId ε Unit).Balanced :=
  fun c s => ⟨h c, Nat.le_refl s⟩

theorem balanced_read {f : Cursor → Option α × Cursor} (h : ∀ c : Cursor, c.Reaches (f c).2) :
    (read f : Rule ObjectId ε α).Balanced :=
  fun c s => ⟨h c, Nat.le_refl s⟩

theorem balanced_expect {f : Cursor → Bool × Cursor} (h : ∀ c : Cursor, c.Reaches (f c).2) :
    (expect f : Rule ObjectId ε Unit).Balanced :=
  fun c s => ⟨h c, Nat.le_refl s⟩

theorem balanced_choose {f : Cursor → Bool × Cursor} (h : ∀ c : Cursor, c.Reaches (f c).2) :
    (choose f : Rule ObjectId ε Bool).Balanced :=
  fun c s => ⟨h c, Nat.le_refl s⟩

theorem balanced_attempt {rule : Rule ObjectId ε α} (h : rule.Balanced) :
    rule.attempt.Balanced := by
  intro c s
  obtain ⟨hc, hs⟩ := h c.beginScope s
  exact ⟨hc.endScope _, hs⟩

/-- While there is a level of nesting left, a nested rule is tried on it. -/
theorem nested_of_lt {σ : Type} (rule : Rule σ ε α) {c : Cursor} (s : σ)
    (h : c.nesting < maxNesting) :
    rule.nested c s =
      ((rule.attempt c.deeper s).1, (rule.attempt c.deeper s).2.1.shallower,
        (rule.attempt c.deeper s).2.2) :=
  if_pos h

theorem balanced_nested {rule : Rule ObjectId ε α} (h : rule.Balanced) :
    rule.nested.Balanced := by
  intro c s
  rcases Nat.lt_or_ge c.nesting maxNesting with hlt | hge
  · obtain ⟨⟨rest, hr, hc⟩, hs⟩ := balanced_attempt h c.deeper s
    rw [nested_of_lt rule s hlt, hc]
    exact ⟨⟨rest, hr, rfl⟩, hs⟩
  · rw [nested_of_full rule s hge]
    exact ⟨.refl c, Nat.le_refl s⟩

end Rule

/-! ## The grammar -/

open Rule

theorem settle_balanced (yielded : Yield) : (settle yielded).Balanced :=
  fun c s => ⟨.refl c, yielded.le_settle_next s⟩

theorem skipSpaces_balanced : skipSpaces.Balanced :=
  balanced_move Cursor.reaches_skipSpaces

theorem expectChar_balanced (ch : Char) : (expectChar ch).Balanced :=
  balanced_expect (Cursor.reaches_advanceIf ch)

theorem acceptChar_balanced (ch : Char) : (acceptChar ch).Balanced :=
  balanced_choose (Cursor.reaches_advanceIf ch)

theorem constant_balanced (word : String) (yielded : Yield) :
    (constant word yielded).Balanced :=
  balanced_bind (balanced_expect (Cursor.reaches_keyword _)) fun _ => settle_balanced yielded

section Chains

variable {operator? : Char → Option BinaryOp} {operand : List Object → GrammarRule}

theorem chainFrom_balanced (h : ∀ held, (operand held).Balanced) (held : List Object)
    (room : List Char) (left : Object) : (chainFrom operator? operand held room left).Balanced := by
  induction room generalizing left with
  | nil => exact balanced_pure left
  | cons _ room ih =>
    refine balanced_bind skipSpaces_balanced fun _ => balanced_bind (balanced_look _) fun ch? => ?_
    cases ch?.bind operator? with
    | none => exact balanced_pure left
    | some op =>
      refine balanced_bind (balanced_optional (balanced_attempt (balanced_bind
        (balanced_move Cursor.reaches_advance) fun _ => h _))) fun right? => ?_
      cases right? with
      | none => exact balanced_pure left
      | some right =>
        exact balanced_bind (balanced_ofOutcome _) fun yielded =>
          balanced_bind (settle_balanced yielded) fun value => ih value

theorem chain_balanced (h : ∀ held, (operand held).Balanced) (held : List Object) :
    (chain operator? operand held).Balanced :=
  balanced_attempt <| balanced_bind (h held) fun first =>
    balanced_bind (balanced_look _) fun room => chainFrom_balanced h held room first

end Chains

theorem expressionOver_balanced {unary : List Object → GrammarRule}
    (h : ∀ held, (unary held).Balanced) (held : List Object) :
    (expressionOver unary held).Balanced :=
  chain_balanced (chain_balanced (chain_balanced h)) held

section Values

variable {expression : List Object → GrammarRule}

theorem itemsFrom_balanced (h : ∀ held, (expression held).Balanced) (held : List Object)
    (room : List Char) (items : List Object) :
    (itemsFrom expression held room items).Balanced := by
  induction room generalizing held items with
  | nil => exact balanced_missing
  | cons _ room ih =>
    refine balanced_bind (h held) fun item => balanced_bind skipSpaces_balanced fun _ =>
      balanced_bind (acceptChar_balanced ',') fun more => ?_
    cases more with
    | true => exact ih (item :: held) (item :: items)
    | false => exact balanced_bind (expectChar_balanced ']') fun _ => balanced_pure _

theorem array_balanced (h : ∀ held, (expression held).Balanced) (held : List Object) :
    (array expression held).Balanced := by
  refine balanced_bind (expectChar_balanced '[') fun _ => balanced_bind skipSpaces_balanced
    fun _ => balanced_bind (acceptChar_balanced ']') fun empty => ?_
  cases empty with
  | true => exact balanced_bind (balanced_pure _) fun items => settle_balanced _
  | false =>
    exact balanced_bind (balanced_look _) fun room =>
      balanced_bind (itemsFrom_balanced h held room []) fun items => settle_balanced _

theorem parenthesized_balanced (h : ∀ held, (expression held).Balanced) (held : List Object) :
    (parenthesized expression held).Balanced :=
  balanced_bind skipSpaces_balanced fun _ => balanced_bind (expectChar_balanced '(') fun _ =>
    balanced_bind (h held) fun value => balanced_bind skipSpaces_balanced fun _ =>
      balanced_bind (expectChar_balanced ')') fun _ => balanced_pure value

theorem literalOver_balanced (h : ∀ held, (expression held).Balanced) (held : List Object) :
    (literalOver expression held).Balanced :=
  balanced_bind skipSpaces_balanced fun _ =>
    balanced_orElse (balanced_nested (array_balanced h held)) <|
    balanced_orElse (constant_balanced _ _) <|
    balanced_orElse (constant_balanced _ _) <|
    balanced_orElse (constant_balanced _ _) <|
    balanced_orElse (constant_balanced _ _) <|
    balanced_orElse (constant_balanced _ _) <|
    balanced_bind (balanced_read Cursor.reaches_integer) fun _ => settle_balanced _

theorem valueOver_balanced (h : ∀ held, (expression held).Balanced) (held : List Object) :
    (valueOver expression held).Balanced :=
  balanced_orElse (balanced_nested (parenthesized_balanced h held)) (literalOver_balanced h held)

theorem memberOver_balanced (h : ∀ held, (expression held).Balanced) (held : List Object) :
    (memberOver expression held).Balanced := by
  refine balanced_bind (valueOver_balanced h held) fun base => balanced_bind (balanced_optional
    (balanced_attempt (balanced_bind skipSpaces_balanced fun _ => balanced_bind
      (expectChar_balanced '.') fun _ => valueOver_balanced h _))) fun member? => ?_
  cases member? with
  | none => exact balanced_pure base
  | some member => exact balanced_ofOutcome _

end Values

theorem signed_balanced {unary : List Object → GrammarRule} (h : ∀ held, (unary held).Balanced)
    (held : List Object) : (signed unary held).Balanced :=
  balanced_bind skipSpaces_balanced fun _ => balanced_bind (balanced_read Cursor.reaches_sign)
    fun _ => balanced_bind (h held) fun _ => balanced_bind (balanced_ofOutcome _) settle_balanced

theorem negated_balanced {unary : List Object → GrammarRule} (h : ∀ held, (unary held).Balanced)
    (held : List Object) : (negated unary held).Balanced :=
  balanced_bind skipSpaces_balanced fun _ => balanced_bind (expectChar_balanced '!')
    fun _ => balanced_bind (h held) fun _ => balanced_bind (balanced_ofOutcome _) settle_balanced

theorem unary_balanced (levels : Nat) (held : List Object) : (unary levels held).Balanced := by
  induction levels generalizing held with
  | zero => exact balanced_missing
  | succ levels ih =>
    exact balanced_orElse
      (balanced_attempt (memberOver_balanced (expressionOver_balanced ih) held))
      (balanced_orElse (balanced_nested (signed_balanced ih held))
        (balanced_nested (negated_balanced ih held)))

theorem expression_balanced (held : List Object) : (expression held).Balanced :=
  expressionOver_balanced (unary_balanced maxLevels) held

theorem semicolon_balanced (value : Object) :
    (do skipSpaces; let _ ← acceptChar ';'; pure value : GrammarRule).Balanced :=
  balanced_bind skipSpaces_balanced fun _ => balanced_bind (acceptChar_balanced ';') fun _ =>
    balanced_pure value

/-! ## Taking apart what was found -/

namespace Rule

variable {σ ε α β : Type} {c c' : Cursor} {s s' : σ}

theorem bind_found {rule : Rule σ ε α} {next : α → Rule σ ε β} {b : β}
    (h : (rule >>= next) c s = (.found b, c', s')) :
    ∃ a c₁ s₁, rule c s = (.found a, c₁, s₁) ∧ next a c₁ s₁ = (.found b, c', s') := by
  replace h : Rule.bind rule next c s = _ := h
  rcases hr : rule c s with ⟨a | - | cause, c₁, s₁⟩ <;> simp only [Rule.bind, hr] at h
  · exact ⟨a, c₁, s₁, rfl, h⟩
  · cases h
  · cases h

theorem orElse_found {first second : Rule σ ε α} {a : α}
    (h : (first <|> second) c s = (.found a, c', s')) :
    first c s = (.found a, c', s') ∨
      ∃ c₁ s₁, first c s = (.missing, c₁, s₁) ∧ second c₁ s₁ = (.found a, c', s') := by
  replace h : Rule.orElse first (fun _ => second) c s = _ := h
  rcases hr : first c s with ⟨a | - | cause, c₁, s₁⟩ <;> simp only [Rule.orElse, hr] at h
  · exact .inl h
  · exact .inr ⟨c₁, s₁, rfl, h⟩
  · cases h

theorem optional_found {rule : Rule σ ε α} {a? : Option α}
    (h : rule.optional c s = (.found a?, c', s')) :
    (∃ a, a? = some a ∧ rule c s = (.found a, c', s')) ∨
      a? = none ∧ rule c s = (.missing, c', s') := by
  rcases hr : rule c s with ⟨a | - | cause, c₁, s₁⟩ <;> simp only [optional, hr] at h
  · cases h
    exact .inl ⟨a, rfl, rfl⟩
  · cases h
    exact .inr ⟨rfl, rfl⟩
  · cases h

theorem ofOutcome_found {outcome : Outcome ε α} {a : α}
    (h : ofOutcome outcome c s = (.found a, c', s')) : outcome = .found a ∧ c' = c ∧ s' = s := by
  cases h
  exact ⟨rfl, rfl, rfl⟩

theorem attempt_found {rule : Rule ObjectId ε α} {a : α} {s s' : ObjectId}
    (hb : rule.Balanced) (h : rule.attempt c s = (.found a, c', s')) :
    ∃ rest, rule c.beginScope s = (.found a, c.beginScope.seek rest, s') ∧ c' = c.seek rest := by
  obtain ⟨⟨rest, -, hc⟩, -⟩ := hb c.beginScope s
  rcases hr : rule c.beginScope s with ⟨outcome, c₁, s₁⟩
  rw [hr] at hc
  simp only [attempt, hr] at h
  obtain rfl : c₁ = c.beginScope.seek rest := hc
  cases h
  exact ⟨rest, rfl, rfl⟩

theorem nested_found {rule : Rule ObjectId ε α} {a : α} {s s' : ObjectId}
    (hb : rule.Balanced) (h : rule.nested c s = (.found a, c', s')) :
    c.nesting < maxNesting ∧ ∃ rest, rule c.deeper.beginScope s =
      (.found a, c.deeper.beginScope.seek rest, s') ∧ c' = c.seek rest := by
  rcases Nat.lt_or_ge c.nesting maxNesting with hlt | hge
  · rw [nested_of_lt rule s hlt] at h
    rcases hr : rule.attempt c.deeper s with ⟨outcome, c₁, s₁⟩
    rw [hr] at h
    cases h
    obtain ⟨rest, hr₁, rfl⟩ := attempt_found hb hr
    exact ⟨hlt, rest, hr₁, rfl⟩
  · rw [nested_of_full rule s hge] at h
    cases h

/-- Where the rule finds nothing, nothing has changed but the next identifier. -/
def Restores (rule : Rule ObjectId ε α) : Prop :=
  ∀ ⦃c s c' s'⦄, rule c s = (.missing, c', s') → c' = c ∧ s ≤ s'

/-- What was tried in vain has left the cursor where it was. -/
theorem restores_attempt {rule : Rule ObjectId ε α} (hb : rule.Balanced) :
    rule.attempt.Restores := by
  intro c s c' s' h
  have hcs := hb c.beginScope s
  rcases hr : rule c.beginScope s with ⟨outcome, c₁, s₁⟩
  simp only [attempt, hr] at h hcs
  cases h
  exact ⟨hcs.1.endScope_true, hcs.2⟩

theorem restores_nested {rule : Rule ObjectId ε α} (hb : rule.Balanced) :
    rule.nested.Restores := by
  intro c s c' s' h
  rcases Nat.lt_or_ge c.nesting maxNesting with hlt | hge
  · rw [nested_of_lt rule s hlt] at h
    rcases hr : rule.attempt c.deeper s with ⟨outcome, c₁, s₁⟩
    rw [hr] at h
    cases h
    obtain ⟨rfl, hs⟩ := restores_attempt hb hr
    exact ⟨rfl, hs⟩
  · rw [nested_of_full rule s hge] at h
    cases h
    exact ⟨rfl, Nat.le_refl _⟩

/-- A keyword that is not there changes nothing. -/
theorem restores_constant (word : String) (yielded : Yield) :
    (constant word yielded).Restores := by
  intro c s c' s' h
  rcases hk : c.keyword word.toList with ⟨_ | _, c₁⟩
  · rw [constant_of_no_keyword yielded hk] at h
    cases h
    exact ⟨rfl, Nat.le_refl _⟩
  · rw [constant_of_keyword yielded hk] at h
    cases h

end Rule

end Parley.Formula
