import Mathlib.Data.List.Induction
import Parley.Proofs.Formula.Identity
import Parley.Proofs.Formula.Printing

/-!
# Evaluation does not depend on history

Only a member access looks at objects that a formula did not make itself. Without a point in
it, a text is evaluated in the same way whatever was evaluated before: the identifiers it draws
count from the next one on, and nothing else about the result tells when it was evaluated.

- `Object.shift`: the same object with all drawn identifiers moved.
- `Object.apply_shift` and its like: operations do not look at identifiers.
- `Rule.Shifts`: a rule run twice, with one lemma for each combinator.
- `unary_shifts`, `parse_shift`: the grammar, on texts without a point.
- `reply_of_no_point`: replies to such texts.
-/

namespace Parley.Formula

/-! ## Moving identifiers -/

namespace Object

mutual

/-- The same object with the identifiers that were drawn moved by `d`. -/
def shift (d : Nat) : Object → Object
  | .null => .null
  | .view => .view
  | .boolean value => .boolean value
  | .integer id value => .integer (id + d) value
  | .array id items => .array (id + d) (shiftSlots d items)
  | .bare id => .bare (id + d)

def shiftSlots (d : Nat) : List (Option Object) → List (Option Object)
  | [] => []
  | none :: items => none :: shiftSlots d items
  | some object :: items => some (object.shift d) :: shiftSlots d items

end

theorem shiftSlots_eq (d : Nat) (items : List (Option Object)) :
    shiftSlots d items = items.map (Option.map (shift d)) := by
  induction items with
  | nil => rfl
  | cons slot items ih => cases slot <;> simp [shiftSlots, ih]

@[simp] theorem shift_array (d : Nat) (id : ObjectId) (items : List (Option Object)) :
    (Object.array id items).shift d = .array (id + d) (items.map (Option.map (shift d))) := by
  rw [shift, shiftSlots_eq]

/-- Moving identifiers does not change the shape. -/
@[simp] theorem shape_shift (d : Nat) (o : Object) : (o.shift d).shape = o.shape := by
  induction o using Object.induction with
  | null | view | boolean | integer | bare => simp [shift, shape]
  | array id items ih =>
    rw [shift_array, shape_array, shape_array, List.map_map]
    refine congrArg Shape.array (List.map_congr_left fun slot hslot => ?_)
    cases slot with
    | none => rfl
    | some o => exact congrArg some (ih o hslot)

@[simp] theorem code_shift (d : Nat) (o : Object) : (o.shift d).code = o.code := by
  rw [← code_shape, shape_shift, code_shape]

end Object

/-- The same result with the identifiers moved. -/
def Yield.shift (d : Nat) : Yield → Yield
  | .existing object => .existing (object.shift d)
  | .fresh (.integer value) => .fresh (.integer value)
  | .fresh (.array items) => .fresh (.array (items.map (Option.map (Object.shift d))))
  | .fresh .bare => .fresh .bare

/-- A new object gets the identifier that was moved as well. -/
theorem Yield.settle_shift (d : Nat) (next : ObjectId) (yielded : Yield) :
    (yielded.shift d).settle (next + d) =
      ((yielded.settle next).1.shift d, (yielded.settle next).2 + d) := by
  cases yielded with
  | existing object => rfl
  | fresh content =>
    have hnext : next + d + 1 = next + 1 + d := Nat.add_right_comm next d 1
    cases content <;> simp [shift, settle, Content.publish, Object.shift, hnext]

/-! ## Operations -/

theorem Outcome.ofOption_map {ε α β : Type} (f : α → β) (a? : Option α) :
    (ofOption (a?.map f) : Outcome ε β) = (ofOption a?).map f := by
  cases a? <;> rfl

namespace Object

variable {d : Nat}

section Families

theorem plus_shift (d : Nat) (a : Object) : (a.shift d).plus = a.plus.map (Yield.shift d) := by
  cases a <;> simp [shift, plus, Yield.shift]

theorem minus_shift (d : Nat) (a : Object) : (a.shift d).minus = a.minus.map (Yield.shift d) := by
  cases a <;> simp [shift, minus, Yield.shift]

theorem negate_shift (d : Nat) (a : Object) : (a.shift d).negate = a.negate.map (Yield.shift d) := by
  cases a <;> simp [shift, negate, Yield.shift]

theorem arithmetic_shift (f : Int64 → Int64 → Int64) (d : Nat) (a b : Object) :
    arithmetic f (a.shift d) (b.shift d) = (arithmetic f a b).map (Yield.shift d) := by
  cases a <;> cases b <;> simp [shift, arithmetic, Yield.shift]

theorem quotient_shift (f : Int64 → Int64 → Int64) (d : Nat) (a b : Object) :
    quotient f (a.shift d) (b.shift d) = (quotient f a b).map (Yield.shift d) := by
  cases a <;> cases b <;> simp only [shift, quotient, Outcome.map]
  case integer.integer i x j y => split <;> rfl

theorem logic_shift (f : Bool → Bool → Bool) (d : Nat) (a b : Object) :
    logic f (a.shift d) (b.shift d) = (logic f a b).map (Yield.shift d) := by
  cases a <;> cases b <;> simp [shift, logic, Yield.shift]

theorem add_shift (d : Nat) (a b : Object) :
    (a.shift d).add (b.shift d) = (a.add b).map (Yield.shift d) := by
  have hints := arithmetic_shift (· + ·) d a b
  cases a <;> cases b <;> try exact hints
  -- whether the second array is empty does not depend on identifiers
  case array.array i as j bs => cases bs <;> simp [add, Yield.shift]

end Families

/-- Operators do not look at identifiers. -/
theorem apply_shift (op : BinaryOp) (d : Nat) (a b : Object) :
    (a.shift d).apply op (b.shift d) = (a.apply op b).map (Yield.shift d) := by
  cases op with
  | add => exact (congrArg Outcome.ofOption (add_shift d a b)).trans (Outcome.ofOption_map _ _)
  | subtract | multiply =>
    exact (congrArg Outcome.ofOption (arithmetic_shift _ d a b)).trans (Outcome.ofOption_map _ _)
  | divide | modulo => exact quotient_shift _ d a b
  | and | or | xor =>
    exact (congrArg Outcome.ofOption (logic_shift _ d a b)).trans (Outcome.ofOption_map _ _)

end Object

/-! ## Rules run twice -/

namespace Rule

variable {d : Nat} {α β : Type} {f : α → α} {g : β → β}
  {first second rule rule' : Rule ObjectId Fault α}

/-- What a rule comes to, with what it finds and the next identifier moved. -/
def moved (d : Nat) (f : α → α) :
    Outcome Fault α × Cursor × ObjectId → Outcome Fault α × Cursor × ObjectId
  | (outcome, c, s) => (outcome.map f, c, s + d)

/-- Two rules read alike where there is no point, and `f` moves the identifiers of what the
first one finds to those of the second, which begins `d` identifiers later. -/
structure Shifts (d : Nat) (f : α → α) (rule rule' : Rule ObjectId Fault α) : Prop where
  balanced : rule.Balanced
  eq : ∀ c s, '.' ∉ c.rest → rule' c (s + d) = moved d f (rule c s)

namespace Shifts

/-- There is no point further on either. -/
theorem no_point (h : Shifts d f rule rule') {c : Cursor} (hpoint : '.' ∉ c.rest) (s : ObjectId) :
    '.' ∉ (rule c s).2.1.rest :=
  fun hmem => hpoint ((h.balanced c s).1.rest_suffix.subset hmem)

theorem pure {a a' : α} (ha : a' = f a) : Shifts d f (Pure.pure a) (Pure.pure a') where
  balanced := balanced_pure a
  eq := by
    rintro c s -
    rw [ha]
    rfl

theorem bind {next next' : α → Rule ObjectId Fault β} (h : Shifts d f rule rule')
    (hnext : ∀ a, Shifts d g (next a) (next' (f a))) :
    Shifts d g (rule >>= next) (rule' >>= next') where
  balanced := balanced_bind h.balanced fun a => (hnext a).balanced
  eq := by
    intro c s hpoint
    have heq := h.eq c s hpoint
    have hlater := h.no_point hpoint s
    show Rule.bind rule' next' c (s + d) = moved d g (Rule.bind rule next c s)
    rcases hr : rule c s with ⟨a | - | cause, c₁, s₁⟩ <;> rw [hr] at heq hlater <;>
      simp only [Rule.bind, hr, heq, moved, Outcome.map]
    · exact (hnext a).eq c₁ s₁ hlater

theorem orElse {second' : Rule ObjectId Fault α} (h : Shifts d f rule rule')
    (hsecond : Shifts d f second second') : Shifts d f (rule <|> second) (rule' <|> second') where
  balanced := balanced_orElse h.balanced hsecond.balanced
  eq := by
    intro c s hpoint
    have heq := h.eq c s hpoint
    have hlater := h.no_point hpoint s
    show Rule.orElse rule' (fun _ => second') c (s + d) =
      moved d f (Rule.orElse rule (fun _ => second) c s)
    rcases hr : rule c s with ⟨a | - | cause, c₁, s₁⟩ <;> rw [hr] at heq hlater <;>
      simp only [Rule.orElse, hr, heq, moved, Outcome.map]
    · exact hsecond.eq c₁ s₁ hlater

theorem optional (h : Shifts d f rule rule') :
    Shifts d (Option.map f) rule.optional rule'.optional where
  balanced := balanced_optional h.balanced
  eq := by
    intro c s hpoint
    have heq := h.eq c s hpoint
    rcases hr : rule c s with ⟨a | - | cause, c₁, s₁⟩ <;> rw [hr] at heq <;>
      simp only [Rule.optional, hr, heq, moved, Outcome.map, Option.map]

theorem attempt (h : Shifts d f rule rule') : Shifts d f rule.attempt rule'.attempt where
  balanced := balanced_attempt h.balanced
  eq := by
    intro c s hpoint
    simp only [Rule.attempt, h.eq c.beginScope s hpoint, moved, Outcome.isFound_map]

theorem nested (h : Shifts d f rule rule') : Shifts d f rule.nested rule'.nested where
  balanced := balanced_nested h.balanced
  eq := by
    intro c s hpoint
    by_cases hlt : c.nesting < maxNesting
    · rw [nested_of_lt rule s hlt, nested_of_lt rule' (s + d) hlt, h.attempt.eq c.deeper s hpoint]
      rcases rule.attempt c.deeper s with ⟨outcome, c₁, s₁⟩
      rfl
    · have hfull := Nat.le_of_not_lt hlt
      rw [nested_of_full rule s hfull, nested_of_full rule' (s + d) hfull]
      rfl

theorem missing : Shifts d f .missing .missing where
  balanced := balanced_missing
  eq := fun _ _ _ => rfl

theorem ofOutcome {outcome outcome' : Outcome Fault α} (houtcome : outcome' = outcome.map f) :
    Shifts d f (.ofOutcome outcome) (.ofOutcome outcome') where
  balanced := balanced_ofOutcome outcome
  eq := by
    rintro c s -
    rw [houtcome]
    rfl

theorem look (read : Cursor → α) : Shifts d id (.look read) (.look read) where
  balanced := balanced_look read
  eq := fun _ _ _ => rfl

theorem move {step : Cursor → Cursor} (hstep : ∀ c : Cursor, c.Reaches (step c)) :
    Shifts d id (.move step) (.move step) where
  balanced := balanced_move hstep
  eq := fun _ _ _ => rfl

theorem choose {step : Cursor → Bool × Cursor} (hstep : ∀ c : Cursor, c.Reaches (step c).2) :
    Shifts d id (.choose step) (.choose step) where
  balanced := balanced_choose hstep
  eq := fun _ _ _ => rfl

theorem read {step : Cursor → Option α × Cursor} (hstep : ∀ c : Cursor, c.Reaches (step c).2) :
    Shifts d id (.read step) (.read step) where
  balanced := balanced_read hstep
  eq := by
    rintro c s -
    show (Outcome.ofOption (step c).1, (step c).2, s + d) =
      ((Outcome.ofOption (step c).1).map id, (step c).2, s + d)
    cases (step c).1 <;> rfl

theorem expect {step : Cursor → Bool × Cursor} (hstep : ∀ c : Cursor, c.Reaches (step c).2) :
    Shifts d id (.expect step) (.expect step) where
  balanced := balanced_expect hstep
  eq := by
    rintro c s -
    simp only [Rule.expect, moved]
    cases (step c).1 <;> rfl

end Shifts

end Rule

/-! ## The grammar -/

open Rule Object

variable {d : Nat} {held held' : List Object}

theorem settle_shifts {yielded yielded' : Yield} (hyielded : yielded' = yielded.shift d) :
    Shifts d (shift d) (settle yielded) (settle yielded') where
  balanced := settle_balanced yielded
  eq := by
    rintro c s -
    show (Outcome.found (yielded'.settle (s + d)).1, c, (yielded'.settle (s + d)).2) = _
    rw [hyielded, Yield.settle_shift]
    rfl

/-- Operations on operands with moved identifiers. -/
theorem ofOutcome_settle_shifts {outcome outcome' : Outcome Fault Yield}
    (houtcome : outcome' = outcome.map (Yield.shift d)) :
    Shifts d (shift d) (ofOutcome outcome >>= settle) (ofOutcome outcome' >>= settle) :=
  (Shifts.ofOutcome houtcome).bind fun _ => settle_shifts rfl

theorem constant_shifts (word : String) {yielded : Yield} (hyielded : yielded.shift d = yielded) :
    Shifts d (shift d) (constant word yielded) (constant word yielded) :=
  (Shifts.expect (Cursor.reaches_keyword _)).bind fun _ => settle_shifts hyielded.symm

section Chains

variable {operator? : Char → Option BinaryOp} {operand operand' : List Object → GrammarRule}

theorem chainFrom_shifts
    (hoperand : ∀ held held', Shifts d (shift d) (operand held) (operand' held'))
    (held held' : List Object) (room : List Char) (left : Object) :
    Shifts d (shift d) (chainFrom operator? operand held room left)
      (chainFrom operator? operand' held' room (left.shift d)) := by
  induction room generalizing left with
  | nil => exact .pure rfl
  | cons _ room ih =>
    refine (Shifts.move Cursor.reaches_skipSpaces).bind fun _ => (Shifts.look _).bind fun ch? => ?_
    rw [id_eq]
    cases ch?.bind operator? with
    | none => exact .pure rfl
    | some op =>
      have hright : Shifts d (Option.map (shift d))
          (Rule.optional (.attempt do advance; operand (left :: held)))
          (Rule.optional (.attempt do advance; operand' (left.shift d :: held'))) :=
        .optional <| .attempt <| (Shifts.move Cursor.reaches_advance).bind fun _ => hoperand _ _
      refine hright.bind fun right? => ?_
      cases right? with
      | none => exact .pure rfl
      | some right =>
        exact (Shifts.ofOutcome (apply_shift op d left right)).bind fun yielded =>
          (settle_shifts rfl).bind ih

theorem chain_shifts (hoperand : ∀ held held', Shifts d (shift d) (operand held) (operand' held'))
    (held held' : List Object) :
    Shifts d (shift d) (chain operator? operand held) (chain operator? operand' held') :=
  Shifts.attempt <| (hoperand held held').bind fun first =>
    (Shifts.look _).bind fun room => chainFrom_shifts hoperand held held' room first

end Chains

theorem expressionOver_shifts {unary unary' : List Object → GrammarRule}
    (hunary : ∀ held held', Shifts d (shift d) (unary held) (unary' held'))
    (held held' : List Object) :
    Shifts d (shift d) (expressionOver unary held) (expressionOver unary' held') :=
  chain_shifts (chain_shifts (chain_shifts hunary)) held held'

section Values

variable {expression expression' : List Object → GrammarRule}
  (hexpression : ∀ held held', Shifts d (shift d) (expression held) (expression' held'))
include hexpression

theorem itemsFrom_shifts (held held' : List Object) (room : List Char) (items : List Object) :
    Shifts d (List.map (shift d)) (itemsFrom expression held room items)
      (itemsFrom expression' held' room (items.map (shift d))) := by
  induction room generalizing held held' items with
  | nil => exact .missing
  | cons _ room ih =>
    refine (hexpression held held').bind fun item =>
      (Shifts.move Cursor.reaches_skipSpaces).bind fun _ =>
        (Shifts.choose (Cursor.reaches_advanceIf ',')).bind fun more => ?_
    rw [id_eq]
    cases more with
    | true => exact ih (item :: held) (item.shift d :: held') (item :: items)
    | false =>
      exact (Shifts.expect (Cursor.reaches_advanceIf ']')).bind fun _ =>
        .pure (by rw [← List.map_cons, List.map_reverse])

theorem array_shifts (held held' : List Object) :
    Shifts d (shift d) (array expression held) (array expression' held') := by
  refine (Shifts.expect (Cursor.reaches_advanceIf '[')).bind fun _ =>
    (Shifts.move Cursor.reaches_skipSpaces).bind fun _ =>
      (Shifts.choose (Cursor.reaches_advanceIf ']')).bind fun empty => ?_
  have hsettle : ∀ items : List Object, Shifts d (shift d)
      (settle (.fresh (.array (items.map some))))
      (settle (.fresh (.array ((items.map (shift d)).map some)))) :=
    fun items => settle_shifts (by simp [Yield.shift])
  rw [id_eq]
  cases empty with
  | true => exact hsettle []
  | false =>
    exact (Shifts.look _).bind fun room =>
      (itemsFrom_shifts hexpression held held' room []).bind hsettle

theorem parenthesized_shifts (held held' : List Object) :
    Shifts d (shift d) (parenthesized expression held) (parenthesized expression' held') :=
  (Shifts.move Cursor.reaches_skipSpaces).bind fun _ =>
    (Shifts.expect (Cursor.reaches_advanceIf '(')).bind fun _ =>
      (hexpression held held').bind fun _ =>
        (Shifts.move Cursor.reaches_skipSpaces).bind fun _ =>
          (Shifts.expect (Cursor.reaches_advanceIf ')')).bind fun _ => .pure rfl

theorem literalOver_shifts (held held' : List Object) :
    Shifts d (shift d) (literalOver expression held) (literalOver expression' held') :=
  (Shifts.move Cursor.reaches_skipSpaces).bind fun _ =>
    .orElse (.nested (array_shifts hexpression held held')) <|
    .orElse (constant_shifts "null" rfl) <|
    .orElse (constant_shifts "newobj" rfl) <|
    .orElse (constant_shifts "allobj" rfl) <|
    .orElse (constant_shifts "true" rfl) <|
    .orElse (constant_shifts "false" rfl) <|
    (Shifts.read Cursor.reaches_integer).bind fun _ => settle_shifts rfl

theorem valueOver_shifts (held held' : List Object) :
    Shifts d (shift d) (valueOver expression held) (valueOver expression' held') :=
  .orElse (.nested (parenthesized_shifts hexpression held held'))
    (literalOver_shifts hexpression held held')

end Values

/-- Where there is no point, no member is read. -/
theorem optional_member_of_no_point (value : GrammarRule) {c : Cursor} (hpoint : '.' ∉ c.rest)
    (s : ObjectId) :
    Rule.optional (.attempt do skipSpaces; expectChar '.'; value) c s = (.found none, c, s) := by
  have hhead : (c.beginScope.skipSpaces.rest).head? ≠ some '.' := by
    intro hhead
    have hmem : '.' ∈ c.beginScope.skipSpaces.rest := List.mem_of_mem_head? hhead
    exact hpoint ((Cursor.reaches_skipSpaces c.beginScope).rest_suffix.subset hmem)
  -- inside its scope the rule stops at whatever is there instead, and then goes back
  have hinside : (do skipSpaces; expectChar '.'; value : GrammarRule) c.beginScope s =
      (.missing, c.beginScope.skipSpaces, s) := by
    show Rule.bind (expectChar '.') (fun _ => value) c.beginScope.skipSpaces s = _
    simp only [Rule.bind, expectChar_of_not_head hhead]
  simp only [Rule.optional, Rule.attempt, hinside]
  rfl

theorem memberOver_of_no_point {expression : List Object → GrammarRule}
    (hb : ∀ held, (expression held).Balanced) {c : Cursor} (hpoint : '.' ∉ c.rest) (s : ObjectId) :
    memberOver expression held c s = valueOver expression held c s := by
  have hreaches := (valueOver_balanced hb held c s).1
  rcases hr : valueOver expression held c s with ⟨base | - | cause, c₁, s₁⟩ <;> rw [hr] at hreaches
  · have hlater : '.' ∉ c₁.rest := fun hmem => hpoint (hreaches.rest_suffix.subset hmem)
    refine (bind_of_found hr).trans ?_
    exact bind_of_found (optional_member_of_no_point _ hlater s₁)
  · show Rule.bind (valueOver expression held) _ c s = _
    simp only [Rule.bind, hr]
  · show Rule.bind (valueOver expression held) _ c s = _
    simp only [Rule.bind, hr]

theorem memberOver_shifts {expression expression' : List Object → GrammarRule}
    (hb : ∀ held, (expression' held).Balanced)
    (hexpression : ∀ held held', Shifts d (shift d) (expression held) (expression' held'))
    (held held' : List Object) :
    Shifts d (shift d) (memberOver expression held) (memberOver expression' held') where
  balanced := memberOver_balanced (fun held => (hexpression held []).balanced) held
  eq := by
    intro c s hpoint
    rw [memberOver_of_no_point (fun held => (hexpression held []).balanced) hpoint,
      memberOver_of_no_point hb hpoint]
    exact (valueOver_shifts hexpression held held').eq c s hpoint

section Signs

variable {unary unary' : List Object → GrammarRule}
  (hunary : ∀ held held', Shifts d (shift d) (unary held) (unary' held'))
include hunary

theorem signed_shifts (held held' : List Object) :
    Shifts d (shift d) (signed unary held) (signed unary' held') := by
  refine (Shifts.move Cursor.reaches_skipSpaces).bind fun _ =>
    (Shifts.read Cursor.reaches_sign).bind fun sign =>
      (hunary held held').bind fun operand => ofOutcome_settle_shifts ?_
  cases sign with
  | plus => exact (congrArg Outcome.ofOption (plus_shift d operand)).trans (Outcome.ofOption_map _ _)
  | minus => exact (congrArg Outcome.ofOption (minus_shift d operand)).trans (Outcome.ofOption_map _ _)

theorem negated_shifts (held held' : List Object) :
    Shifts d (shift d) (negated unary held) (negated unary' held') := by
  refine (Shifts.move Cursor.reaches_skipSpaces).bind fun _ =>
    (Shifts.expect (Cursor.reaches_advanceIf '!')).bind fun _ =>
      (hunary held held').bind fun operand => ofOutcome_settle_shifts ?_
  exact (congrArg Outcome.ofOption (negate_shift d operand)).trans (Outcome.ofOption_map _ _)

end Signs

theorem unary_shifts (levels : Nat) (held held' : List Object) :
    Shifts d (shift d) (unary levels held) (unary levels held') := by
  induction levels generalizing held held' with
  | zero => exact .missing
  | succ levels ih =>
    have hb := expressionOver_balanced (unary_balanced levels)
    exact .orElse (.attempt (memberOver_shifts hb (expressionOver_shifts ih) held held'))
      (.orElse (.nested (signed_shifts ih held held')) (.nested (negated_shifts ih held held')))

theorem statement_shifts (held held' : List Object) :
    Shifts d (shift d) (statement held) (statement held') :=
  .attempt <| (expressionOver_shifts (unary_shifts maxLevels) held held').bind fun _ =>
    (Shifts.move Cursor.reaches_skipSpaces).bind fun _ =>
      (Shifts.choose (Cursor.reaches_advanceIf ';')).bind fun _ => .pure rfl

/-! ## Whole texts -/

variable {text : String} {result : Except Fault Object}

/-- A text without a point has the same result whatever is held, but that the identifiers of
its value count from the next one on. -/
theorem parse_shift (hpoint : '.' ∉ text.toList) (held : List Object) (next : ObjectId) :
    (parse held text next).1 = (parse [] text 0).1.map (shift next) := by
  have heq := (statement_shifts (d := next) [] held).eq (.ofText text.toList) 0 hpoint
  rw [Nat.zero_add] at heq
  rcases hr : statement [] (.ofText text.toList) 0 with ⟨outcome, stopped, drawn⟩
  rw [hr] at heq
  simp only [parse, hr, heq, moved]
  cases outcome with
  | found value => by_cases hend : stopped.skipSpaces.isAtEnd <;> simp [Outcome.map, hend] <;> rfl
  | missing => rfl
  | fault cause => rfl

/-- Results that only differ in where identifiers begin: the same fault, or values of the same
structure and with the same printed form. -/
structure SameResult (first second : Except Fault Object) : Prop where
  identifiers : ∃ (result : Except Fault Object) (d d' : Nat),
    first = result.map (Object.shift d) ∧ second = result.map (Object.shift d')
  shape : first.map Object.shape = second.map Object.shape
  code : first.map Object.code = second.map Object.code

theorem map_shape_shift (result : Except Fault Object) (d : Nat) :
    (result.map (Object.shift d)).map Object.shape = result.map Object.shape := by
  cases result <;> simp [Except.map]

theorem map_code_shift (result : Except Fault Object) (d : Nat) :
    (result.map (Object.shift d)).map Object.code = result.map Object.code := by
  cases result <;> simp [Except.map]

theorem SameResult.of_shift {first second : Except Fault Object} (result : Except Fault Object)
    {d d' : Nat} (hfirst : first = result.map (Object.shift d))
    (hsecond : second = result.map (Object.shift d')) : SameResult first second where
  identifiers := ⟨result, d, d', hfirst, hsecond⟩
  shape := by rw [hfirst, hsecond, map_shape_shift, map_shape_shift]
  code := by rw [hfirst, hsecond, map_code_shift, map_code_shift]

/-! ## Replies -/

/-- The reply to a line whose value is printed like this. -/
def replyTo (line : String) : Except Fault String → Except Fault String
  | .ok code => .ok code
  | .error (.notAFormula _) => .ok (invalidMarker ++ line)
  | .error .divisionByZero => .error .divisionByZero

/-- The text that a line is answered with. -/
def textOf (line : String) : Except Fault String → String
  | .ok reply => reply
  | .error fault => faultNotice fault line

theorem runLine_eq (line : String) (next : ObjectId) :
    (runLine line next).1 = replyTo line ((parse [] line next).1.map Object.code) := by
  unfold runLine
  rcases parse [] line next with ⟨(⟨remaining⟩ | _) | value, next'⟩ <;> rfl

theorem replyLine_eq (line : String) (next : ObjectId) :
    (replyLine line next).1 = textOf line (runLine line next).1 := by
  unfold replyLine
  rcases runLine line next with ⟨_ | _, next'⟩ <;> rfl

namespace Counted

open Moment

variable {m m' : Moment}

theorem runLine_eq (line : String) (h : Heap) :
    (runLine line h).1 = replyTo line ((parse line h).1.map Object.code) := by
  unfold runLine
  rcases parse line h with ⟨(⟨remaining⟩ | _) | value, h'⟩ <;> rfl

theorem replyLine_eq (line : String) (h : Heap) :
    (replyLine line h).1 = textOf line (runLine line h).1 := by
  unfold replyLine
  rcases runLine line h with ⟨_ | _, h'⟩ <;> rfl

theorem replyLine_snd (line : String) (h : Heap) : (replyLine line h).2 = (runLine line h).2 := by
  unfold replyLine
  rcases runLine line h with ⟨_ | _, h'⟩ <;> rfl

/-- The memory after lines were answered, one after the other. -/
def afterLines (lines : List String) : Heap :=
  lines.foldl (fun h line => (replyLine line h).2) Heap.start

/-- Answering a line leaves nothing that is held. -/
theorem leads_replyLine (line : String) {h : Heap} {held : List Object} (v : Valid ⟨h, held⟩) :
    Leads ⟨h, held⟩ ⟨(replyLine line h).2, held⟩ := by
  obtain ⟨result, h', hparse, -, hleads⟩ := parse_mirrors line v
  rw [replyLine_snd]
  unfold runLine
  rw [hparse]
  cases result with
  | ok value => exact hleads.trans (Mirrors.leads_release_of_perm h' held (.refl [value]))
  | error fault => cases fault <;> exact hleads

theorem leads_afterLines (lines : List String) : Leads Moment.start ⟨afterLines lines, 0⟩ := by
  induction lines using List.reverseRecOn with
  | nil => exact .refl
  | append_singleton lines line ih =>
    have v : Valid ⟨afterLines lines, ([] : List Object)⟩ := Valid.start.leads ih
    have hafter : afterLines (lines ++ [line]) = (replyLine line (afterLines lines)).2 := by
      rw [afterLines, List.foldl_append]
      rfl
    rw [hafter]
    exact ih.trans (leads_replyLine line v)

/-- With counted references a text has the same result, whichever objects are in memory. -/
theorem parse_shift (hpoint : '.' ∉ text.toList) (hm : Leads Moment.start m) :
    (parse text m.heap).1 = (Formula.parse [] text 0).1.map (Object.shift m.heap.next) := by
  obtain ⟨h, held⟩ := m
  obtain ⟨held, rfl⟩ := Quot.exists_rep held
  obtain ⟨result, h', hcounted, hplain, -⟩ := parse_mirrors text (Valid.start.leads hm)
  have hresult := Formula.parse_shift hpoint held h.next
  rwa [hplain, ← congrArg Prod.fst hcounted] at hresult

end Counted

/-! ## Independence of history -/

open Moment

/-- A text without a point has one result and one reply, at every moment: whatever is held,
whichever identifiers were drawn, and whatever lines were answered before. -/
theorem replies_of_no_point (hpoint : '.' ∉ text.toList) :
    (∀ held held' next next', SameResult (parse held text next).1 (parse held' text next').1) ∧
      (∀ m m', Leads Moment.start m → Leads Moment.start m' →
        SameResult (Counted.parse text m.heap).1 (Counted.parse text m'.heap).1) ∧
      ∃ run reply,
        (∀ next, (runLine text next).1 = run ∧ (replyLine text next).1 = reply) ∧
        (∀ m, Leads Moment.start m →
          (Counted.runLine text m.heap).1 = run ∧ (Counted.replyLine text m.heap).1 = reply) ∧
        ∀ earlier, (Counted.replyLine text (Counted.afterLines earlier)).1 = reply := by
  obtain ⟨run, hrun⟩ : ∃ run, replyTo text ((parse [] text 0).1.map Object.code) = run := ⟨_, rfl⟩
  have hplain : ∀ next, (runLine text next).1 = run := by
    intro next
    rw [runLine_eq, parse_shift hpoint [] next, map_code_shift, hrun]
  have hcounted : ∀ m, Leads Moment.start m → (Counted.runLine text m.heap).1 = run := by
    intro m hm
    rw [Counted.runLine_eq, Counted.parse_shift hpoint hm, map_code_shift, hrun]
  refine ⟨?_, ?_, run, textOf text run, ?_, ?_, ?_⟩
  · intro held held' next next'
    exact .of_shift _ (parse_shift hpoint held next) (parse_shift hpoint held' next')
  · intro m m' hm hm'
    exact .of_shift _ (Counted.parse_shift hpoint hm) (Counted.parse_shift hpoint hm')
  · intro next
    exact ⟨hplain next, by rw [replyLine_eq, hplain]⟩
  · intro m hm
    exact ⟨hcounted m hm, by rw [Counted.replyLine_eq, hcounted m hm]⟩
  · intro earlier
    rw [Counted.replyLine_eq, hcounted _ (Counted.leads_afterLines earlier)]

theorem replies_of_no_point_newobj :
    '.' ∉ "[1,!true]+[newobj]".toList ∧ ∀ earlier,
      (Counted.replyLine "[1,!true]+[newobj]" (Counted.afterLines earlier)).1 =
        "[1,false,newobj]" := by
  have hpoint : '.' ∉ "[1,!true]+[newobj]".toList := by decide
  obtain ⟨-, -, run, reply, hplain, -, hlines⟩ := replies_of_no_point hpoint
  have hreply : (replyLine "[1,!true]+[newobj]" 0).1 = "[1,false,newobj]" := by decide +kernel
  refine ⟨hpoint, fun earlier => ?_⟩
  rw [hlines earlier, ← (hplain 0).2, hreply]

end Parley.Formula
