import Parley.Proofs.Formula.Operands

/-!
# What a call leaves behind

Scopes are opened and closed in many places, and rules are left in three ways. Whichever way
that is, as many scopes and levels of nesting are open afterwards as before, and they are the
same ones. Where nothing was found the cursor is back where it was, with one exception: a literal
skips the spaces before it first, and does not go back over them.

- `Cursor.SameScopes`: cursors that differ in their place at most.
- `Rule.Returns`: a rule that is back where it began unless it found something.
- `scopes_of_calls`: statements, expressions, literals, keywords and integers.
- `literal_of_missing`: where a literal that is not there leaves the cursor.
-/

namespace Parley.Formula

open Rule

/-! ## Scopes -/

/-- `c'` is in the same text as `c`, with the same scopes and as many levels of nesting open. -/
structure Cursor.SameScopes (c c' : Cursor) : Prop where
  text_eq : c'.text = c.text
  saved_eq : c'.saved = c.saved
  nesting_eq : c'.nesting = c.nesting

/-- Moving forward leaves all of that alone. -/
theorem Cursor.Reaches.sameScopes {c c' : Cursor} (h : c.Reaches c') : c.SameScopes c' := by
  obtain ⟨rest, -, rfl⟩ := h
  exact ⟨rfl, rfl, rfl⟩

namespace Rule

variable {ε α : Type} {rule first second : Rule ObjectId ε α}

/-- Unless it has found something the rule is back where it began, after a fault as well. -/
def Returns (rule : Rule ObjectId ε α) : Prop :=
  ∀ c s, (rule c s).1.isFound = true ∨ (rule c s).2.1 = c

theorem returns_attempt (hb : rule.Balanced) : rule.attempt.Returns := by
  intro c s
  obtain ⟨hreaches, -⟩ := hb c.beginScope s
  rcases hr : rule c.beginScope s with ⟨a | - | cause, c₁, s₁⟩ <;> rw [hr] at hreaches
  · left
    simp [attempt, hr, Outcome.isFound]
  · right
    simpa [attempt, hr, Outcome.isFound] using hreaches.endScope_true
  · right
    simpa [attempt, hr, Outcome.isFound] using hreaches.endScope_true

/-- Alternatives that are not there change nothing if none of them does. -/
theorem restores_orElse (h₁ : first.Restores) (h₂ : second.Restores) :
    (first <|> second).Restores := by
  intro c s c' s' h
  replace h : Rule.orElse first (fun _ => second) c s = _ := h
  rcases hr : first c s with ⟨a | - | cause, c₁, s₁⟩ <;> simp only [Rule.orElse, hr] at h
  · cases h
  · obtain ⟨rfl, hs₁⟩ := h₁ hr
    obtain ⟨rfl, hs⟩ := h₂ h
    exact ⟨rfl, Nat.le_trans hs₁ hs⟩
  · cases h

end Rule

theorem chain_returns {operator? : Char → Option BinaryOp} {operand : List Object → GrammarRule}
    (h : ∀ held, (operand held).Balanced) (held : List Object) :
    (chain operator? operand held).Returns :=
  returns_attempt <| balanced_bind (h held) fun first =>
    balanced_bind (balanced_look _) fun room => chainFrom_balanced h held room first

theorem expression_returns (held : List Object) : (expression held).Returns :=
  chain_returns (chain_balanced (chain_balanced (unary_balanced maxLevels))) held

theorem statement_returns (held : List Object) : (statement held).Returns :=
  returns_attempt (balanced_bind (expression_balanced held) semicolon_balanced)

theorem statement_balanced (held : List Object) : (statement held).Balanced :=
  balanced_attempt (balanced_bind (expression_balanced held) semicolon_balanced)

theorem literal_balanced (held : List Object) : (literal held).Balanced :=
  literalOver_balanced (expressionOver_balanced (unary_balanced maxNesting)) held

namespace Cursor

theorem keyword_returns (word : List Char) (c : Cursor) :
    (c.keyword word).1 = true ∨ (c.keyword word).2 = c := by
  rw [keyword_eq]
  split
  · exact .inl rfl
  · exact .inr rfl

theorem integer_returns (c : Cursor) : c.integer.1.isSome = true ∨ c.integer.2 = c := by
  rw [integer_eq]
  cases h : integerAt c.rest
  · exact .inr rfl
  · exact .inl rfl

end Cursor

/-- Whatever statements, expressions, literals, keywords and integers come to, a fault included,
the text, all open scopes and the nesting are as before. Unless something was found the whole
cursor is as before; only of literals that is not said. -/
theorem scopes_of_calls (held : List Object) (word : List Char) (c : Cursor) (next : ObjectId) :
    (∀ rule ∈ [statement held, expression held, literal held],
      c.SameScopes (rule c next).2.1) ∧
    c.SameScopes (c.keyword word).2 ∧ c.SameScopes c.integer.2 ∧
    (∀ rule ∈ [statement held, expression held],
      (rule c next).1.isFound = true ∨ (rule c next).2.1 = c) ∧
    ((c.keyword word).1 = true ∨ (c.keyword word).2 = c) ∧
    (c.integer.1.isSome = true ∨ c.integer.2 = c) := by
  refine ⟨?_, (c.reaches_keyword word).sameScopes, c.reaches_integer.sameScopes, ?_,
    c.keyword_returns word, c.integer_returns⟩
  · have hscopes : ∀ {rule : GrammarRule}, rule.Balanced → c.SameScopes (rule c next).2.1 :=
      fun hb => (hb c next).1.sameScopes
    rintro rule hrule
    simp only [List.mem_cons, List.not_mem_nil, or_false] at hrule
    rcases hrule with rfl | rfl | rfl
    · exact hscopes (statement_balanced held)
    · exact hscopes (expression_balanced held)
    · exact hscopes (literal_balanced held)
  · rintro rule hrule
    simp only [List.mem_cons, List.not_mem_nil, or_false] at hrule
    rcases hrule with rfl | rfl
    · exact statement_returns held c next
    · exact expression_returns held c next

/-! ## Literals that are not there -/

theorem restores_number :
    (do settle (.fresh (.integer (← .read Cursor.integer))) : GrammarRule).Restores := by
  intro c s c' s' h
  have hreturns := c.integer_returns
  replace h : Rule.bind (Rule.read Cursor.integer)
    (fun value => settle (.fresh (.integer value))) c s = (.missing, c', s') := h
  rcases hi : c.integer with ⟨_ | value, c₁⟩ <;>
    simp only [Rule.bind, Rule.read, hi, Outcome.ofOption] at h
  · cases h
    exact ⟨by simpa [hi] using hreturns, Nat.le_refl _⟩
  · cases h

theorem restores_wordOrNumber : wordOrNumber.Restores :=
  restores_orElse (restores_constant "null" _) <|
  restores_orElse (restores_constant "newobj" _) <|
  restores_orElse (restores_constant "allobj" _) <|
  restores_orElse (restores_constant "true" _) <|
  restores_orElse (restores_constant "false" _) restores_number

/-- A literal that is not there leaves the cursor behind the spaces before it. So the cursor is
back where it was exactly if no space stands there. -/
theorem literal_of_missing {held : List Object} {c c' : Cursor} {next next' : ObjectId}
    (h : literal held c next = (.missing, c', next')) :
    c' = c.skipSpaces ∧ (c' = c ↔ ∀ ch ∈ c.rest.head?, isSpace ch = false) := by
  have hb := expressionOver_balanced (unary_balanced maxNesting)
  rw [literal, literalOver_eq] at h
  -- No alternative moves the cursor unless it is there, an array with its scope included.
  obtain ⟨rfl, -⟩ :=
    restores_orElse (restores_nested (array_balanced hb held)) restores_wordOrNumber h
  refine ⟨rfl, fun hc ch hch => ?_, fun hno => ?_⟩
  · obtain ⟨rest, hrest⟩ := List.head?_eq_some_iff.1 hch
    have hskip : skipBlank c.rest = ch :: rest := (congrArg Cursor.rest hc).trans hrest
    exact isSpace_of_skipBlank hskip
  · have hskip : skipBlank c.rest = c.rest := by
      cases hrest : c.rest with
      | nil => rfl
      | cons ch rest => exact skipBlank_cons (hno ch (by rw [hrest]; rfl)) rest
    rw [hskip]
    rfl

theorem literal_of_missing_nullish :
    let c := Cursor.ofText "\t nullish".toList
    ∃ c' next', literal [] c 4 = (.missing, c', next') ∧
      c' = c.skipSpaces ∧ (c' = c ↔ ∀ ch ∈ c.rest.head?, isSpace ch = false) := by
  intro c
  have h : literal [] c 4 = (.missing, c.skipSpaces, 4) := rfl
  exact ⟨_, _, h, literal_of_missing h⟩

/-- Where a space stands before what is no literal, the cursor does not come back. -/
theorem exists_literal_moved : ∃ c' next',
    literal [] (.ofText " x".toList) 4 = (.missing, c', next') ∧
      (Cursor.ofText " x".toList).position = 0 ∧ c'.position = 1 :=
  ⟨_, _, rfl, rfl, rfl⟩

end Parley.Formula
