import Parley.Proofs.Formula.Balance
import Parley.Proofs.Formula.Meaning

/-!
# Results that are expected of a rule

What a rule should come to on the text of a tree. It finds an object of the right
shape, or it ends with a division by zero, or the operation that has no result
stops it. In the last case a chain may have found something, namely what stands
before the operator that could not be applied; the rules around it then stop at
that operator.

- `Meets`: a result is the one expected, with one lemma for each combinator.
- `Rule.bind_of_found` and the lemmas after it: single steps of a rule.
- `Rule.GivesUp`: a rule that finds nothing and draws nothing.
- `Alike`, `Rule.orElse_alike`: a choice of which only one alternative counts.
- `Follows`: what may stand after a tree.
- `Kind.Reads`: the result that is expected of the rule for a kind of tree.
-/

namespace Parley.Formula

open Rule

/-! ## Expected results -/

/-- The result of a rule at `c` is the one expected. What is found is told by
`f`, and the text is read up to `stop`. Where an operation has no result the rule
may still find something, if a character that is `Stuck` comes next. -/
def Meets {α β : Type} (f : α → β) (stop : List Char) (Stuck : Char → Prop) (c : Cursor) :
    Except Undefined β → Outcome Fault α × Cursor × ObjectId → Prop
  | .ok b, result => ∃ a s, result = (.found a, c.seek stop, s) ∧ f a = b
  | .error .divisionByZero, result => result.1 = .fault .divisionByZero
  | .error .mismatch, result => result.1 = .missing ∨
    ∃ a ch rest s, result = (.found a, c.seek (ch :: rest), s) ∧ Stuck ch

namespace Meets

variable {α β γ δ : Type} {f : α → β} {g : γ → δ} {stop stop' : List Char}
  {Stuck Stuck' : Char → Prop} {c : Cursor} {s : ObjectId} {expected : Except Undefined β}

/-- A rule and what comes after it. Where the rule has found something before a
character that is stuck, nothing that is expected may come of it. -/
theorem bind {rule : Rule ObjectId Fault α} {next : α → Rule ObjectId Fault γ}
    {after : β → Except Undefined δ} (h : Meets f stop Stuck c expected (rule c s))
    (hok : ∀ a s', rule c s = (.found a, c.seek stop, s') → expected = .ok (f a) →
      Meets g stop' Stuck' c (after (f a)) (next a (c.seek stop) s'))
    (hstuck : ∀ a ch rest s', expected = .error .mismatch → Stuck ch →
      Meets g stop' Stuck' c (.error .mismatch) (next a (c.seek (ch :: rest)) s')) :
    Meets g stop' Stuck' c (expected >>= after) ((rule >>= next) c s) := by
  show Meets g stop' Stuck' c (expected >>= after) (Rule.bind rule next c s)
  match expected, h with
  | .ok b, ⟨a, s', hr, hb⟩ =>
    obtain rfl := hb
    simp only [Rule.bind, hr]
    exact hok a s' hr rfl
  | .error .divisionByZero, h =>
    rcases hr : rule c s with ⟨outcome, c₁, s₁⟩
    rw [hr] at h
    obtain rfl : outcome = .fault .divisionByZero := h
    simp only [Rule.bind, hr]
    rfl
  | .error .mismatch, .inl h =>
    rcases hr : rule c s with ⟨outcome, c₁, s₁⟩
    rw [hr] at h
    obtain rfl : outcome = .missing := h
    simp only [Rule.bind, hr]
    exact .inl rfl
  | .error .mismatch, .inr ⟨a, ch, rest, s', hr, hch⟩ =>
    -- something was found, but the next rule begins where that is stuck
    simp only [Rule.bind, hr]
    exact hstuck a ch rest s' rfl hch

theorem attempt {rule : Rule ObjectId Fault α}
    (h : Meets f stop Stuck c.beginScope expected (rule c.beginScope s)) :
    Meets f stop Stuck c expected (rule.attempt c s) := by
  match expected, h with
  | .ok b, ⟨a, s', hr, hb⟩ =>
    exact ⟨a, s', by simp [Rule.attempt, hr, Outcome.isFound], hb⟩
  | .error .divisionByZero, h => exact h
  | .error .mismatch, .inl h => exact .inl h
  | .error .mismatch, .inr ⟨a, ch, rest, s', hr, hch⟩ =>
    exact .inr ⟨a, ch, rest, s', by simp [Rule.attempt, hr, Outcome.isFound], hch⟩

theorem nested {rule : Rule ObjectId Fault α} (hlt : c.nesting < maxNesting)
    (h : Meets f stop Stuck c.deeper.beginScope expected (rule c.deeper.beginScope s)) :
    Meets f stop Stuck c expected (rule.nested c s) := by
  rw [nested_of_lt rule s hlt]
  match expected, attempt h with
  | .ok b, ⟨a, s', hr, hb⟩ => exact ⟨a, s', by rw [hr]; rfl, hb⟩
  | .error .divisionByZero, h => exact h
  | .error .mismatch, .inl h => exact .inl h
  | .error .mismatch, .inr ⟨a, ch, rest, s', hr, hch⟩ =>
    exact .inr ⟨a, ch, rest, s', by rw [hr]; rfl, hch⟩

/-- What the first alternative finds is found. Where it finds nothing, the second
one may not find anything either. -/
theorem orElse {first second : Rule ObjectId Fault α}
    (h : Meets f stop Stuck c expected (first c s))
    (hsecond : ∀ c' s', expected = .error .mismatch → first c s = (.missing, c', s') →
      (second c' s').1 = .missing) :
    Meets f stop Stuck c expected ((first <|> second) c s) := by
  show Meets f stop Stuck c expected (Rule.orElse first (fun _ => second) c s)
  rcases hr : first c s with ⟨a | - | cause, c', s'⟩ <;> simp only [Rule.orElse, hr] at h ⊢
  · exact h
  · rcases expected with (- | -) | b
    · exact .inl (hsecond c' s' rfl hr)
    · cases h
    · obtain ⟨a, s₁, hfound, -⟩ := h
      cases hfound
  · exact h

/-- An operation on objects that are known comes to what is expected of it. -/
theorem settle {outcome : Outcome Fault Yield} {expected : Except Undefined Shape}
    (h : outcome.Agrees expected) :
    Meets Object.shape c.rest Stuck c expected
      ((ofOutcome outcome >>= Formula.settle : GrammarRule) c s) := by
  match expected, h with
  | .ok shape, ⟨yielded, ho, hy⟩ =>
    obtain rfl := ho
    exact ⟨_, _, rfl, (yielded.shape_settle s).trans hy⟩
  | .error .mismatch, h =>
    obtain rfl : outcome = .missing := h
    exact .inl rfl
  | .error .divisionByZero, h =>
    obtain rfl : outcome = .fault .divisionByZero := h
    rfl

end Meets

/-! ## Steps -/

section Steps

variable {σ ε α β : Type} {c c' : Cursor} {s s' : σ}

theorem Rule.bind_of_found {rule : Rule σ ε α} {next : α → Rule σ ε β} {a : α}
    (h : rule c s = (.found a, c', s')) : (rule >>= next) c s = next a c' s' := by
  show Rule.bind rule next c s = _
  simp only [Rule.bind, h]

theorem Rule.orElse_of_missing {first second : Rule σ ε α}
    (h : first c s = (.missing, c', s')) : (first <|> second) c s = second c' s' := by
  show Rule.orElse first (fun _ => second) c s = _
  simp only [Rule.orElse, h]

theorem Rule.orElse_of_found {first second : Rule σ ε α} {a : α}
    (h : first c s = (.found a, c', s')) : (first <|> second) c s = (.found a, c', s') := by
  show Rule.orElse first (fun _ => second) c s = _
  simp only [Rule.orElse, h]

theorem Rule.optional_of_found {rule : Rule σ ε α} {a : α} (h : rule c s = (.found a, c', s')) :
    rule.optional c s = (.found (some a), c', s') := by
  rw [Rule.optional, h]

theorem Rule.optional_of_missing {rule : Rule σ ε α} (h : rule c s = (.missing, c', s')) :
    rule.optional c s = (.found none, c', s') := by
  rw [Rule.optional, h]

/-- Where a balanced rule stops lies further on in the text. -/
theorem Rule.found_suffix {rule : Rule ObjectId ε α} {s s' : ObjectId} {a : α}
    {rest : List Char} (hb : rule.Balanced) (h : rule c s = (.found a, c.seek rest, s')) :
    rest <:+ c.rest := by
  have hc := (hb c s).1.rest_suffix
  rwa [h] at hc

theorem Rule.attempt_missing {rule : Rule σ ε α} (h : rule.attempt c s = (.missing, c', s')) :
    ∃ c₁, rule c.beginScope s = (.missing, c₁, s') := by
  rcases hr : rule c.beginScope s with ⟨outcome, c₁, s₁⟩
  simp only [attempt, hr, Prod.mk.injEq] at h
  obtain ⟨rfl, -, rfl⟩ := h
  exact ⟨c₁, rfl⟩

/-! ### Giving up -/

/-- The rule finds nothing at `c` and draws no identifier. -/
def Rule.GivesUp (rule : Rule σ ε α) (c : Cursor) : Prop :=
  ∀ s, ∃ c', rule c s = (.missing, c', s)

namespace Rule.GivesUp

theorem fst_eq {rule : Rule σ ε α} (h : rule.GivesUp c) (s : σ) : (rule c s).1 = .missing := by
  obtain ⟨c', hr⟩ := h s
  rw [hr]

theorem bind {rule : Rule σ ε α} (h : rule.GivesUp c) (next : α → Rule σ ε β) :
    (rule >>= next).GivesUp c := by
  intro s
  obtain ⟨c', hr⟩ := h s
  refine ⟨c', ?_⟩
  show Rule.bind rule next c s = _
  simp only [Rule.bind, hr]

/-- A rule that gives up in a scope of its own leaves nothing behind. -/
theorem attempt {rule : Rule ObjectId ε α} (hb : rule.Balanced) (h : rule.GivesUp c.beginScope)
    (s : ObjectId) : rule.attempt c s = (.missing, c, s) := by
  obtain ⟨c', hr⟩ := h s
  have hattempt : rule.attempt c s = (.missing, c'.endScope true, s) := by
    rw [Rule.attempt, hr]
    rfl
  obtain ⟨hc, -⟩ := restores_attempt hb hattempt
  rw [hattempt, hc]

/-- Where all levels are taken, the rule is not even tried. -/
theorem nested {rule : Rule ObjectId ε α} (hb : rule.Balanced)
    (h : rule.GivesUp c.deeper.beginScope) (s : ObjectId) : rule.nested c s = (.missing, c, s) := by
  rcases Nat.lt_or_ge c.nesting maxNesting with hlt | hge
  · rw [nested_of_lt rule s hlt, h.attempt hb]
    rfl
  · exact nested_of_full rule s hge

end Rule.GivesUp

/-- The same result, except for the place of a rule that found nothing. -/
structure Alike (result result' : Outcome ε α × Cursor × σ) : Prop where
  outcome_eq : result.1 = result'.1
  cursor_eq : result.1 ≠ .missing → result.2.1 = result'.2.1
  state_eq : result.2.2 = result'.2.2

theorem Alike.found_iff {result result' : Outcome ε α × Cursor × σ} (h : Alike result result')
    (a : α) (c : Cursor) (s : σ) : result = (.found a, c, s) ↔ result' = (.found a, c, s) := by
  obtain ⟨outcome, c₁, s₁⟩ := result
  obtain ⟨outcome', c₂, s₂⟩ := result'
  obtain ⟨rfl, hc, rfl⟩ := h
  constructor
  · rintro ⟨⟩
    obtain rfl : c = c₂ := hc nofun
    rfl
  · rintro ⟨⟩
    obtain rfl : c₁ = c := hc nofun
    rfl

theorem Meets.alike {f : α → β} {stop : List Char} {Stuck : Char → Prop}
    {expected : Except Undefined β} {result result' : Outcome Fault α × Cursor × ObjectId}
    (h : Meets f stop Stuck c expected result') (ha : Alike result result') :
    Meets f stop Stuck c expected result := by
  match expected, h with
  | .ok b, ⟨a, s, hr, hb⟩ => exact ⟨a, s, (ha.found_iff a _ s).2 hr, hb⟩
  | .error .divisionByZero, h => exact ha.outcome_eq.trans h
  | .error .mismatch, .inl h => exact .inl (ha.outcome_eq.trans h)
  | .error .mismatch, .inr ⟨a, ch, rest, s, hr, hch⟩ =>
    exact .inr ⟨a, ch, rest, s, (ha.found_iff a _ s).2 hr, hch⟩

/-- Where the second alternative can only give up, the first one decides. -/
theorem Rule.orElse_alike {first second : Rule σ ε α}
    (h : ∀ c' s', first c s = (.missing, c', s') → second.GivesUp c') :
    Alike ((first <|> second) c s) (first c s) := by
  show Alike (Rule.orElse first (fun _ => second) c s) _
  rcases hr : first c s with ⟨a | - | cause, c', s'⟩ <;> simp only [Rule.orElse, hr]
  · exact ⟨rfl, fun _ => rfl, rfl⟩
  · obtain ⟨c'', hsecond⟩ := h c' s' hr s'
    rw [hsecond]
    exact ⟨rfl, fun hne => absurd rfl hne, rfl⟩
  · exact ⟨rfl, fun _ => rfl, rfl⟩

end Steps

/-! ## What follows a tree -/

/-- How tightly the operators of a level bind. -/
def Level.rank : Level → Nat
  | .logical => 0
  | .additive => 1
  | .multiplicative => 2

def Kind.rank : Kind → Nat
  | .chain l => l.rank
  | .unary | .value => 3

/-- The character is an operator by which a tree of the kind could go on, perhaps
in its last operand. -/
def Kind.Continues (k : Kind) (ch : Char) : Prop :=
  ∃ op : BinaryOp, op.symbol = ch ∧ k.rank ≤ op.level.rank

/-- Unary operands and values do not go on by an operator. -/
theorem Kind.not_continues {k : Kind} (h : k.rank = 3) (ch : Char) : ¬ k.Continues ch := by
  rintro ⟨op, -, hrank⟩
  rw [h] at hrank
  cases op <;> exact absurd hrank (by decide)

/-- The place where the rule for a kind stops before `rest`. Chains have looked
for an operator. -/
def Kind.stop : Kind → List Char → List Char
  | .chain _, rest => skipBlank rest
  | .unary, rest | .value, rest => rest

theorem Level.rank_operand (l : Level) : l.operand.rank = l.rank + 1 := by
  cases l <;> rfl

theorem BinaryOp.symbol_injective {a b : BinaryOp} (h : a.symbol = b.symbol) : a = b := by
  cases a <;> cases b <;> first | rfl | exact absurd h (by decide)

theorem BinaryOp.isSpace_symbol (op : BinaryOp) : isSpace op.symbol = false := by
  cases op <;> rfl

theorem BinaryOp.isIdentChar_symbol (op : BinaryOp) : isIdentChar op.symbol = false := by
  cases op <;> rfl

/-- The characters that end an expression. -/
def closing : List Char :=
  [')', ']', ',', ';']

namespace Kind.Continues

variable {k : Kind} {ch : Char}

theorem isSpace_eq (h : k.Continues ch) : isSpace ch = false := by
  obtain ⟨op, rfl, -⟩ := h
  exact op.isSpace_symbol

theorem not_mem_closing (h : k.Continues ch) : ch ∉ closing := by
  obtain ⟨op, rfl, -⟩ := h
  cases op <;> decide

theorem of_operand {l : Level} (h : l.operand.Continues ch) : (Kind.chain l).Continues ch := by
  obtain ⟨op, hsym, hrank⟩ := h
  rw [Level.rank_operand] at hrank
  exact ⟨op, hsym, Nat.le_of_succ_le hrank⟩

/-- An operator that an operand could go on by is not one of the chain itself. -/
theorem operator?_eq_none {l : Level} (h : l.operand.Continues ch) : l.operator? ch = none := by
  obtain ⟨op, hsym, hrank⟩ := h
  cases ho : l.operator? ch with
  | none => rfl
  | some op' =>
    obtain ⟨hlevel, hsym'⟩ := Level.operator?_eq_some_iff.1 ho
    obtain rfl := BinaryOp.symbol_injective (hsym.trans hsym'.symm)
    rw [Level.rank_operand, hlevel] at hrank
    exact absurd hrank (Nat.not_succ_le_self _)

theorem level_ne {l : Level} (h : l.operand.Continues ch) : l ≠ .multiplicative := by
  rintro rfl
  obtain ⟨op, -, hrank⟩ := h
  cases op <;> exact absurd hrank (by decide)

end Kind.Continues

/-- What may stand after a tree of the kind `k`: nothing that would be part of its
last word, no member access, and no operator by which the tree could go on. -/
structure Follows (k : Kind) (rest : List Char) : Prop where
  startsInWord_eq : startsInWord rest = false
  head_stops : ∀ ch ∈ (skipBlank rest).head?, ch ≠ '.' ∧ ¬ k.Continues ch

namespace Follows

variable {k k' : Kind} {rest : List Char} {ch : Char}

theorem mono (h : Follows k rest) (hk : k.rank ≤ k'.rank) : Follows k' rest := by
  refine ⟨h.startsInWord_eq, fun ch hch => ⟨(h.head_stops ch hch).1, ?_⟩⟩
  rintro ⟨op, hsym, hrank⟩
  exact (h.head_stops ch hch).2 ⟨op, hsym, Nat.le_trans hk hrank⟩

theorem of_head (b : Blank) (hspace : isSpace ch = false) (hident : isIdentChar ch = false)
    (hpoint : ch ≠ '.') (hop : ¬ k.Continues ch) : Follows k (b.chars ++ ch :: rest) := by
  refine ⟨b.startsInWord_append (by simpa [startsInWord] using hident), fun ch' hch => ?_⟩
  rw [b.skipBlank_append_cons hspace] at hch
  cases hch
  exact ⟨hpoint, hop⟩

theorem of_closing (b : Blank) (h : ch ∈ closing) : Follows k (b.chars ++ ch :: rest) := by
  have hchar : isSpace ch = false ∧ isIdentChar ch = false ∧ ch ≠ '.' := by
    simp only [closing, List.mem_cons, List.not_mem_nil, or_false] at h
    rcases h with rfl | rfl | rfl | rfl <;> decide
  exact of_head b hchar.1 hchar.2.1 hchar.2.2 fun hop => hop.not_mem_closing h

theorem of_blank (b : Blank) : Follows k b.chars := by
  have hword : startsInWord (b.chars ++ []) = false := b.startsInWord_append rfl
  rw [List.append_nil] at hword
  exact ⟨hword, fun ch hch => by rw [b.skipBlank_chars] at hch; cases hch⟩

/-- No operator of the chain comes next. -/
theorem operator?_eq_none {l : Level} (h : Follows (.chain l) rest) :
    ∀ ch ∈ (skipBlank rest).head?, l.operator? ch = none := by
  intro ch hch
  cases ho : l.operator? ch with
  | none => rfl
  | some op =>
    obtain ⟨hlevel, hsym⟩ := Level.operator?_eq_some_iff.1 ho
    exact absurd ⟨op, hsym, Nat.le_of_eq (congrArg Level.rank hlevel.symm)⟩
      (h.head_stops ch hch).2

end Follows

theorem Tail.follows {access : Bool} {l : Level} (t : Tail access l) {rest : List Char}
    (h : Follows (.chain l) rest) : Follows l.operand (t.spell rest) := by
  cases t with
  | nil => exact h.mono (l.rank_operand ▸ Nat.le_succ _)
  | cons before op level_eq operand tail =>
    refine .of_head before op.isSpace_symbol op.isIdentChar_symbol (by cases op <;> decide) ?_
    rintro ⟨op', hsym, hrank⟩
    obtain rfl := BinaryOp.symbol_injective hsym
    rw [l.rank_operand, level_eq] at hrank
    exact absurd hrank (Nat.not_succ_le_self _)

/-- The result that is expected of the rule for a kind, before `rest`. -/
abbrev Kind.Reads (k : Kind) (c : Cursor) (rest : List Char) (expected : Except Undefined Shape)
    (result : Outcome Fault Object × Cursor × ObjectId) : Prop :=
  Meets Object.shape (k.stop rest) k.Continues c expected result

end Parley.Formula
