import Parley.Proofs.Formula.Expected

/-!
# Reading chains

A chain of operators comes to what is expected of it if its operands do. The
operators are applied one by one, from left to right.

- `chainFrom_stop`, `chainFrom_step`: whether there is one more step.
- `chainFrom_nil`, `chainFrom_cons`: what is expected of no step and of one step.
- `chain_meets`: what is expected of a whole chain.
-/

namespace Parley.Formula

open Rule

section Chains

variable {l : Level} {operand : List Object → GrammarRule} {held : List Object}
  {room rest : List Char} {left : Object} {c : Cursor} {s : ObjectId}

/-- A chain goes no further where none of its operators comes next. -/
theorem chainFrom_stop (h : ∀ ch ∈ (skipBlank c.rest).head?, l.operator? ch = none)
    (hroom : room = [] → skipBlank c.rest = c.rest) :
    chainFrom l.operator? operand held room left c s =
      (.found left, c.seek (skipBlank c.rest), s) := by
  cases room with
  | nil =>
    rw [hroom rfl]
    rfl
  | cons a room =>
    have hnone : (c.seek (skipBlank c.rest)).peek.bind l.operator? = none :=
      Option.bind_eq_none_iff.2 h
    rw [chainFrom, bind_of_found (skipSpaces_of_skipBlank rfl), bind_of_found rfl, hnone]
    rfl

/-- Nor where an operator comes next that binds tighter than its own. -/
theorem chainFrom_stop_of_continues {ch : Char} (hch : l.operand.Continues ch) :
    chainFrom l.operator? operand held room left (c.seek (ch :: rest)) s =
      (.found left, c.seek (ch :: rest), s) := by
  have hskip : skipBlank (ch :: rest) = ch :: rest := skipBlank_cons hch.isSpace_eq rest
  rw [chainFrom_stop, Cursor.rest_seek, hskip]
  · rfl
  · rw [Cursor.rest_seek, hskip]
    rintro _ ⟨⟩
    exact hch.operator?_eq_none
  · exact fun _ => hskip

/-- An operator and its right operand are tried where the operator comes next. -/
theorem chainFrom_step {op : BinaryOp} {a : Char} {input : List Char} (hop : op.level = l)
    (hc : skipBlank c.rest = op.symbol :: input) :
    chainFrom l.operator? operand held (a :: room) left c s =
      (do
        let right? ← Rule.optional (.attempt do advance; operand (left :: held))
        match right? with
        | none => pure left
        | some right =>
          let yielded ← Rule.ofOutcome (left.apply op right)
          chainFrom l.operator? operand held room (← settle yielded) : GrammarRule)
        (c.seek (op.symbol :: input)) s := by
  have hsome : (c.seek (op.symbol :: input)).peek.bind l.operator? = some op :=
    Level.operator?_eq_some_iff.2 ⟨hop, rfl⟩
  rw [chainFrom, bind_of_found (skipSpaces_of_skipBlank hc)]
  refine (bind_of_found rfl).trans ?_
  generalize (c.seek (op.symbol :: input)).peek.bind l.operator? = op? at hsome ⊢
  subst hsome
  rfl

/-- Logical and additive operators never divide. -/
theorem apply_ne_fault {op : BinaryOp} (h : op.level ≠ .multiplicative) (a b : Object)
    (cause : Fault) : a.apply op b ≠ .fault cause := by
  have hoption : ∀ o : Option Yield, (Outcome.ofOption o : Outcome Fault Yield) ≠ .fault cause :=
    fun o => by cases o <;> exact nofun
  -- all but the quotients come of an option, which holds no fault
  cases op with
  | add | subtract | and | or | xor => exact hoption _
  | multiply | divide | modulo => exact absurd rfl h

/-- The value so far, when the operand after it was found at `c`. -/
theorem apply_meets {op : BinaryOp} {right : Object} {tail : Shape → Except Undefined Shape}
    (h : ∀ left' s', Shape.apply op left.shape right.shape = .ok left'.shape →
      (Kind.chain l).Reads c rest (tail left'.shape)
        (chainFrom l.operator? operand held room left' c s')) :
    (Kind.chain l).Reads c rest (Shape.apply op left.shape right.shape >>= tail)
      ((do
        let yielded ← Rule.ofOutcome (left.apply op right)
        chainFrom l.operator? operand held room (← settle yielded) : GrammarRule) c s) := by
  have hassoc : ((do
        let yielded ← Rule.ofOutcome (left.apply op right)
        chainFrom l.operator? operand held room (← settle yielded) : GrammarRule) c s) =
      ((Rule.ofOutcome (left.apply op right) >>= settle) >>=
        chainFrom l.operator? operand held room : GrammarRule) c s := by
    cases left.apply op right <;> rfl
  rw [hassoc]
  have hsettle : Meets Object.shape c.rest (fun _ => False) c
      (Shape.apply op left.shape right.shape)
      ((Rule.ofOutcome (left.apply op right) >>= settle : GrammarRule) c s) :=
    Meets.settle (left.apply_agrees op right)
  exact hsettle.bind (fun left' s' _ hv => h left' s' hv) fun _ _ _ _ _ hno => hno.elim

/-- What a partial operand comes to: it stops at an operator that binds tighter. -/
theorem chainFrom_stuck {op : BinaryOp} {right : Object} {ch : Char} (hop : op.level = l)
    (hch : l.operand.Continues ch) :
    (Kind.chain l).Reads c rest (.error .mismatch)
      ((do
        let yielded ← Rule.ofOutcome (left.apply op right)
        chainFrom l.operator? operand held room (← settle yielded) : GrammarRule)
          (c.seek (ch :: rest)) s) := by
  rcases ho : left.apply op right with yielded | - | cause
  · exact .inr ⟨_, ch, rest, _, chainFrom_stop_of_continues hch, hch.of_operand⟩
  · exact .inl rfl
  · exact absurd ho (apply_ne_fault (hop ▸ hch.level_ne) left right cause)

theorem chainFrom_nil (hc : skipBlank c.rest = skipBlank rest) (hfollow : Follows (.chain l) rest)
    (hroom : c.rest.length ≤ room.length) :
    (Kind.chain l).Reads c rest (.ok left.shape)
      (chainFrom l.operator? operand held room left c s) := by
  refine ⟨left, s, ?_, rfl⟩
  rw [chainFrom_stop, hc]
  · rfl
  · rw [hc]
    exact hfollow.operator?_eq_none
  · rintro rfl
    obtain hnil : c.rest = [] := List.eq_nil_of_length_eq_zero (Nat.le_zero.1 hroom)
    rw [hnil]
    rfl

theorem chainFrom_cons {op : BinaryOp} {a : Char} {input after : List Char}
    {expected : Except Undefined Shape} {tail : Shape → Except Undefined Shape}
    (hb : ∀ held, (operand held).Balanced) (hop : op.level = l)
    (hc : skipBlank c.rest = op.symbol :: input)
    (hright : l.operand.Reads ((c.seek (op.symbol :: input)).beginScope.seek input) after expected
      (operand (left :: held) ((c.seek (op.symbol :: input)).beginScope.seek input) s))
    (htail : ∀ left' s', (l.operand.stop after).length < c.rest.length →
      (Kind.chain l).Reads c rest (tail left'.shape)
        (chainFrom l.operator? operand held room left' (c.seek (l.operand.stop after)) s')) :
    (Kind.chain l).Reads c rest
      (expected >>= fun right => Shape.apply op left.shape right >>= tail)
      (chainFrom l.operator? operand held (a :: room) left c s) := by
  rw [chainFrom_step hop hc]
  have hrule : (do advance; operand (left :: held) : GrammarRule).Balanced :=
    balanced_bind (balanced_move Cursor.reaches_advance) fun _ => hb _
  have hmeets : l.operand.Reads (c.seek (op.symbol :: input)) after expected
      ((Rule.attempt do advance; operand (left :: held) : GrammarRule)
        (c.seek (op.symbol :: input)) s) :=
    Meets.attempt hright
  rcases hr : (Rule.attempt do advance; operand (left :: held) : GrammarRule)
    (c.seek (op.symbol :: input)) s with ⟨outcome, c', s'⟩
  rw [hr] at hmeets
  match expected, hmeets with
  | .ok _, ⟨right, _, heq, rfl⟩ =>
    cases heq
    -- what is left of `room` suffices for the rest of the chain
    have hlength : (l.operand.stop after).length < c.rest.length := by
      obtain ⟨_, _, hfound, -⟩ := hright
      exact Nat.lt_of_le_of_lt (found_suffix (hb _) hfound).length_le (length_lt_of_skipBlank hc)
    rw [bind_of_found (optional_of_found hr)]
    exact apply_meets fun left' s' _ => htail left' s' hlength
  | .error .divisionByZero, hfault =>
    obtain rfl : outcome = .fault .divisionByZero := hfault
    show (Rule.bind _ _ _ _).1 = _
    rw [Rule.bind, Rule.optional, hr]
  | .error .mismatch, .inl hmissing =>
    -- without an operand, the operator is left unread and the chain is stuck at it
    obtain rfl : outcome = .missing := hmissing
    obtain ⟨rfl, -⟩ := restores_attempt hrule hr
    rw [bind_of_found (optional_of_missing hr)]
    exact .inr ⟨left, op.symbol, input, s', rfl, op, rfl,
      Nat.le_of_eq (congrArg Level.rank hop.symm)⟩
  | .error .mismatch, .inr ⟨right, ch, rest', _, heq, hch⟩ =>
    -- a part of the operand may be applied, but the chain is stuck where it is
    cases heq
    rw [bind_of_found (optional_of_found hr)]
    exact chainFrom_stuck hop hch

theorem chain_meets {after : List Char} {expected : Except Undefined Shape}
    {tail : Shape → Except Undefined Shape}
    (hfirst : l.operand.Reads c.beginScope after expected (operand held c.beginScope s))
    (htail : ∀ left s', (Kind.chain l).Reads c.beginScope rest (tail left.shape)
      (chainFrom l.operator? operand held (l.operand.stop after) left
        (c.beginScope.seek (l.operand.stop after)) s')) :
    (Kind.chain l).Reads c rest (expected >>= tail) (chain l.operator? operand held c s) := by
  refine Meets.attempt (hfirst.bind (fun left s' _ _ => htail left s') ?_)
  intro left ch rest' s' _ hch
  exact .inr ⟨left, ch, rest', s', chainFrom_stop_of_continues hch, hch.of_operand⟩

end Chains

end Parley.Formula
