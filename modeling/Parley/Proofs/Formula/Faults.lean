import Parley.Proofs.Formula.Balance
import Parley.Proofs.Formula.Shape

/-!
# The fault of a formula

The rules of the grammar fail in one way only, by a division by zero. That a text is not a formula
is found out where no rule is left, and is told with what remains of the text there.

- `Rule.OnlyDivides`: a rule whose only fault is the division by zero, with one lemma for each
  combinator and, below, for each rule of the grammar.
- `statement_of_not_a_formula`: where a text that is not a formula was left.
-/

namespace Parley.Formula

/-! ## Rules that only fail by dividing -/

namespace Rule

variable {σ α β : Type}

def OnlyDivides (rule : Rule σ Fault α) : Prop :=
  ∀ c s cause, (rule c s).1 = .fault cause → cause = .divisionByZero

theorem onlyDivides_pure (value : α) : (pure value : Rule σ Fault α).OnlyDivides :=
  nofun

theorem onlyDivides_bind {rule : Rule σ Fault α} {next : α → Rule σ Fault β}
    (h : rule.OnlyDivides) (hnext : ∀ a, (next a).OnlyDivides) :
    (rule >>= next).OnlyDivides := by
  intro c s cause hfault
  have hrule := h c s cause
  replace hfault : (Rule.bind rule next c s).1 = .fault cause := hfault
  rcases hr : rule c s with ⟨a | - | cause', c₁, s₁⟩ <;>
    simp only [Rule.bind, hr] at hrule hfault
  · exact hnext a c₁ s₁ cause hfault
  · cases hfault
  · cases hfault
    exact hrule rfl

theorem onlyDivides_orElse {first second : Rule σ Fault α} (h₁ : first.OnlyDivides)
    (h₂ : second.OnlyDivides) : (first <|> second).OnlyDivides := by
  intro c s cause hfault
  have hfirst := h₁ c s cause
  replace hfault : (Rule.orElse first (fun _ => second) c s).1 = .fault cause := hfault
  rcases hr : first c s with ⟨a | - | cause', c₁, s₁⟩ <;>
    simp only [Rule.orElse, hr] at hfirst hfault
  · cases hfault
  · exact h₂ c₁ s₁ cause hfault
  · exact hfirst hfault

theorem onlyDivides_optional {rule : Rule σ Fault α} (h : rule.OnlyDivides) :
    rule.optional.OnlyDivides := by
  intro c s cause hfault
  have hrule := h c s cause
  rcases hr : rule c s with ⟨a | - | cause', c₁, s₁⟩ <;>
    simp only [optional, hr] at hrule hfault
  · cases hfault
  · cases hfault
  · cases hfault
    exact hrule rfl

theorem onlyDivides_attempt {rule : Rule σ Fault α} (h : rule.OnlyDivides) :
    rule.attempt.OnlyDivides :=
  fun c s => h c.beginScope s

theorem onlyDivides_nested {rule : Rule σ Fault α} (h : rule.OnlyDivides) :
    rule.nested.OnlyDivides := by
  intro c s cause hfault
  rcases Nat.lt_or_ge c.nesting maxNesting with hlt | hge
  · rw [nested_of_lt rule s hlt] at hfault
    exact onlyDivides_attempt h _ _ _ hfault
  · rw [nested_of_full rule s hge] at hfault
    cases hfault

theorem onlyDivides_read (f : Cursor → Option α × Cursor) :
    (read f : Rule σ Fault α).OnlyDivides := by
  intro c s cause hfault
  replace hfault : Outcome.ofOption (f c).1 = .fault cause := hfault
  cases hvalue : (f c).1 <;> rw [hvalue] at hfault <;> cases hfault

theorem onlyDivides_expect (f : Cursor → Bool × Cursor) :
    (expect f : Rule σ Fault Unit).OnlyDivides := by
  intro c s cause hfault
  replace hfault : (if (f c).1 then Outcome.found () else .missing) = .fault cause := hfault
  split at hfault <;> cases hfault

theorem onlyDivides_ofOption (value? : Option α) :
    (ofOutcome (.ofOption value?) : Rule σ Fault α).OnlyDivides := by
  intro c s cause hfault
  replace hfault : Outcome.ofOption value? = .fault cause := hfault
  cases value? <;> cases hfault

/-- An operation that comes to what is expected of it fails as expected. -/
theorem onlyDivides_of_agrees {outcome : Outcome Fault Yield} {expected : Except Undefined Shape}
    (h : outcome.Agrees expected) : (ofOutcome outcome : Rule σ Fault Yield).OnlyDivides := by
  intro c s cause hfault
  replace hfault : outcome = .fault cause := hfault
  match expected, h with
  | .ok _, ⟨_, hfound, _⟩ => exact nomatch hfound.symm.trans hfault
  | .error .mismatch, hmissing => exact nomatch Eq.trans (Eq.symm hmissing) hfault
  | .error .divisionByZero, hzero =>
    exact (Outcome.fault.inj (Eq.trans (Eq.symm hzero) hfault)).symm

end Rule

/-! ## The grammar -/

open Rule

theorem settle_onlyDivides (yielded : Yield) : (settle yielded).OnlyDivides :=
  nofun

theorem skipSpaces_onlyDivides : skipSpaces.OnlyDivides :=
  nofun

theorem acceptChar_onlyDivides (ch : Char) : (acceptChar ch).OnlyDivides :=
  nofun

theorem expectChar_onlyDivides (ch : Char) : (expectChar ch).OnlyDivides :=
  onlyDivides_expect _

theorem constant_onlyDivides (word : String) (yielded : Yield) :
    (constant word yielded).OnlyDivides :=
  onlyDivides_bind (onlyDivides_expect _) fun _ => settle_onlyDivides yielded

section Chains

variable {operator? : Char → Option BinaryOp} {operand : List Object → GrammarRule}

theorem chainFrom_onlyDivides (h : ∀ held, (operand held).OnlyDivides) (held : List Object)
    (room : List Char) (left : Object) :
    (chainFrom operator? operand held room left).OnlyDivides := by
  induction room generalizing left with
  | nil => exact onlyDivides_pure left
  | cons _ room ih =>
    refine onlyDivides_bind skipSpaces_onlyDivides fun _ => onlyDivides_bind nofun fun ch? => ?_
    cases ch?.bind operator? with
    | none => exact onlyDivides_pure left
    | some op =>
      refine onlyDivides_bind (onlyDivides_optional (onlyDivides_attempt
        (onlyDivides_bind nofun fun _ => h _))) fun right? => ?_
      cases right? with
      | none => exact onlyDivides_pure left
      | some right =>
        exact onlyDivides_bind (onlyDivides_of_agrees (left.apply_agrees op right)) fun yielded =>
          onlyDivides_bind (settle_onlyDivides yielded) fun value => ih value

theorem chain_onlyDivides (h : ∀ held, (operand held).OnlyDivides) (held : List Object) :
    (chain operator? operand held).OnlyDivides :=
  onlyDivides_attempt <| onlyDivides_bind (h held) fun first =>
    onlyDivides_bind nofun fun room => chainFrom_onlyDivides h held room first

end Chains

theorem expressionOver_onlyDivides {unary : List Object → GrammarRule}
    (h : ∀ held, (unary held).OnlyDivides) (held : List Object) :
    (expressionOver unary held).OnlyDivides :=
  chain_onlyDivides (chain_onlyDivides (chain_onlyDivides h)) held

section Values

variable {expression : List Object → GrammarRule}

theorem itemsFrom_onlyDivides (h : ∀ held, (expression held).OnlyDivides) (held : List Object)
    (room : List Char) (items : List Object) :
    (itemsFrom expression held room items).OnlyDivides := by
  induction room generalizing held items with
  | nil => exact nofun
  | cons _ room ih =>
    refine onlyDivides_bind (h held) fun item => onlyDivides_bind skipSpaces_onlyDivides fun _ =>
      onlyDivides_bind (acceptChar_onlyDivides ',') fun more => ?_
    cases more with
    | true => exact ih (item :: held) (item :: items)
    | false => exact onlyDivides_bind (expectChar_onlyDivides ']') fun _ => onlyDivides_pure _

theorem array_onlyDivides (h : ∀ held, (expression held).OnlyDivides) (held : List Object) :
    (array expression held).OnlyDivides := by
  refine onlyDivides_bind (expectChar_onlyDivides '[') fun _ => onlyDivides_bind
    skipSpaces_onlyDivides fun _ => onlyDivides_bind (acceptChar_onlyDivides ']') fun empty => ?_
  cases empty with
  | true => exact onlyDivides_bind (onlyDivides_pure _) fun items => settle_onlyDivides _
  | false =>
    exact onlyDivides_bind nofun fun room =>
      onlyDivides_bind (itemsFrom_onlyDivides h held room []) fun items => settle_onlyDivides _

theorem valueOver_onlyDivides (h : ∀ held, (expression held).OnlyDivides) (held : List Object) :
    (valueOver expression held).OnlyDivides := by
  refine onlyDivides_orElse (onlyDivides_nested ?_) (onlyDivides_bind skipSpaces_onlyDivides
    fun _ => ?_)
  · exact onlyDivides_bind skipSpaces_onlyDivides fun _ =>
      onlyDivides_bind (expectChar_onlyDivides '(') fun _ => onlyDivides_bind (h held) fun value =>
        onlyDivides_bind skipSpaces_onlyDivides fun _ =>
          onlyDivides_bind (expectChar_onlyDivides ')') fun _ => onlyDivides_pure value
  · exact onlyDivides_orElse (onlyDivides_nested (array_onlyDivides h held)) <|
      onlyDivides_orElse (constant_onlyDivides _ _) <|
      onlyDivides_orElse (constant_onlyDivides _ _) <|
      onlyDivides_orElse (constant_onlyDivides _ _) <|
      onlyDivides_orElse (constant_onlyDivides _ _) <|
      onlyDivides_orElse (constant_onlyDivides _ _) <|
      onlyDivides_bind (onlyDivides_read _) fun _ => settle_onlyDivides _

theorem memberOver_onlyDivides (h : ∀ held, (expression held).OnlyDivides) (held : List Object) :
    (memberOver expression held).OnlyDivides := by
  refine onlyDivides_bind (valueOver_onlyDivides h held) fun base => onlyDivides_bind
    (onlyDivides_optional (onlyDivides_attempt (onlyDivides_bind skipSpaces_onlyDivides fun _ =>
      onlyDivides_bind (expectChar_onlyDivides '.') fun _ => valueOver_onlyDivides h _)))
    fun member? => ?_
  cases member? with
  | none => exact onlyDivides_pure base
  | some member => exact onlyDivides_ofOption _

end Values

theorem unary_onlyDivides (levels : Nat) (held : List Object) :
    (unary levels held).OnlyDivides := by
  induction levels generalizing held with
  | zero => exact nofun
  | succ levels ih =>
    refine onlyDivides_orElse
      (onlyDivides_attempt (memberOver_onlyDivides (expressionOver_onlyDivides ih) held))
      (onlyDivides_orElse (onlyDivides_nested ?_) (onlyDivides_nested ?_))
    · exact onlyDivides_bind skipSpaces_onlyDivides fun _ => onlyDivides_bind (onlyDivides_read _)
        fun sign => onlyDivides_bind (ih held) fun _ =>
          onlyDivides_bind (onlyDivides_ofOption _) settle_onlyDivides
    · exact onlyDivides_bind skipSpaces_onlyDivides fun _ =>
        onlyDivides_bind (expectChar_onlyDivides '!') fun _ => onlyDivides_bind (ih held) fun _ =>
          onlyDivides_bind (onlyDivides_ofOption _) settle_onlyDivides

theorem statement_onlyDivides (held : List Object) : (statement held).OnlyDivides :=
  onlyDivides_attempt <|
    onlyDivides_bind (expressionOver_onlyDivides (unary_onlyDivides maxLevels) held) fun value =>
      onlyDivides_bind skipSpaces_onlyDivides fun _ =>
        onlyDivides_bind (acceptChar_onlyDivides ';') fun _ => onlyDivides_pure value

/-- A text that is not a formula was left where nothing was found, or before the end. -/
theorem statement_of_not_a_formula {held : List Object} {text : String} {next : ObjectId}
    {remaining : String} (h : (parse held text next).1 = .error (.notAFormula remaining)) :
    ∃ outcome c s, statement held (.ofText text.toList) next = (outcome, c, s) ∧
      remaining = String.ofList (skipBlank c.rest) ∧
      (outcome = .missing ∨ ∃ v, outcome = .found v ∧ skipBlank c.rest ≠ []) := by
  have hdivides := statement_onlyDivides held (.ofText text.toList) next
  unfold parse at h
  rcases hs : statement held (.ofText text.toList) next with ⟨v | - | cause, c, s⟩ <;>
    simp only [hs] at h hdivides
  · split at h
    case isTrue => cases h
    case isFalse hend =>
      cases h
      exact ⟨_, c, s, rfl, rfl, .inr ⟨v, rfl, fun hnil => hend (List.isEmpty_iff.2 hnil)⟩⟩
  · cases h
    exact ⟨_, c, s, rfl, rfl, .inl rfl⟩
  · cases h
    exact nomatch hdivides _ rfl

/-- Where a text is left, checked by running the rule on its characters. -/
theorem not_a_formula_of_check {held : List Object} {text remaining : String} {next : ObjectId}
    (h : (match statement held (.ofText text.toList) next with
      | (.found _, c, _) => !c.skipSpaces.isAtEnd && c.skipSpaces.rest == remaining.toList
      | _ => false) = true) :
    (parse held text next).1 = .error (.notAFormula remaining) := by
  unfold parse
  generalize statement held (.ofText text.toList) next = result at h ⊢
  obtain ⟨v | - | cause, c, s⟩ := result
  · obtain ⟨hend, hrest⟩ := Bool.and_eq_true_iff.1 h
    replace hend : c.skipSpaces.isAtEnd = false := by simpa using hend
    simp only [hend, eq_of_beq hrest, String.ofList_toList]
    rfl
  · cases h
  · cases h

end Parley.Formula
