import Parley.Proofs.Formula.Printing

/-!
# Quotients and remainders

What two integers make of the formulas `a / b * b + a % b` and `a % b`. Both are written in
decimal, so that a sign may stand behind an operator and the least integer, which no sign could
make from a numeral, is read as well. Quotients are truncated and wrap around in one case, the
least integer over minus one; quotient and remainder make up the dividend even then.

- `recomposition`, `remainder`: the formulas.
- `value_recomposition`, `value_remainder`: what they stand for.
- `parse_recomposition`: what they are evaluated to.
-/

namespace Parley.Formula

/-! ## The formulas -/

/-- The text `a / b * b + a % b`. -/
def recomposition (a b : Int64) : String :=
  toString a.toInt ++ " / " ++ toString b.toInt ++ " * " ++ toString b.toInt ++ " + " ++
    toString a.toInt ++ " % " ++ toString b.toInt

/-- The text `a % b`. -/
def remainder (a b : Int64) : String :=
  toString a.toInt ++ " % " ++ toString b.toInt

/-- One space. -/
def Blank.space : Blank where
  chars := [' ']
  isSpace_of_mem := List.forall_mem_singleton.2 rfl

namespace Tree

/-- An integer as it is printed. -/
def integer (before : Blank) (value : Int64) : Tree false Level.multiplicative.operand :=
  .plain (.number before (.ofInt64 value))

/-- `a % b` -/
def modulo (before : Blank) (a b : Int64) : Tree false Level.additive.operand :=
  .chain (integer before a) (.cons .space .modulo rfl (integer .space b) .nil)

/-- `a / b * b` -/
def multiple (before : Blank) (a b : Int64) : Tree false Level.additive.operand :=
  .chain (integer before a) (.cons .space .divide rfl (integer .space b)
    (.cons .space .multiply rfl (integer .space b) .nil))

end Tree

namespace Statement

/-- A sum of products, as a whole text. -/
def ofSum (first : Tree false Level.additive.operand) (tail : Tail false .additive) :
    Statement false where
  body := .chain (.chain first tail) .nil
  semicolon := none
  after := .none

def remainder (a b : Int64) : Statement false :=
  ofSum (.modulo .none a b) .nil

def recomposition (a b : Int64) : Statement false :=
  ofSum (.multiple .none a b) (.cons .space .add rfl (.modulo .space a b) .nil)

theorem text_remainder (a b : Int64) : (remainder a b).text = Formula.remainder a b := by
  rw [← String.toList_inj]
  simp [text, remainder, ofSum, ending, Tree.modulo, Tree.integer, Tree.spell, Tail.spell,
    Numeral.text_ofInt64, Formula.remainder, Blank.space, BinaryOp.symbol]

theorem text_recomposition (a b : Int64) :
    (recomposition a b).text = Formula.recomposition a b := by
  rw [← String.toList_inj]
  simp [text, recomposition, ofSum, ending, Tree.modulo, Tree.multiple, Tree.integer, Tree.spell,
    Tail.spell, Numeral.text_ofInt64, Formula.recomposition, Blank.space, BinaryOp.symbol]

end Statement

/-! ## What they stand for -/

section Steps

variable {l : Level} {left right combined : Shape}

/-- The value of a chain whose first operand is known. -/
theorem Tree.value_chain {first : Tree false l.operand} {tail : Tail false l}
    (h : first.value = .ok left) : (Tree.chain first tail).value = tail.value left := by
  rw [Tree.value, h]
  rfl

theorem Tail.value_cons {before : Blank} {op : BinaryOp} {hop : op.level = l}
    {operand : Tree false l.operand} {tail : Tail false l} (h : operand.value = .ok right) :
    (Tail.cons before op hop operand tail).value left =
      Shape.apply op left right >>= tail.value := by
  rw [Tail.value, h]
  rfl

theorem Tail.value_cons_ok {before : Blank} {op : BinaryOp} {hop : op.level = l}
    {operand : Tree false l.operand} {tail : Tail false l} (h : operand.value = .ok right)
    (happly : Shape.apply op left right = .ok combined) :
    (Tail.cons before op hop operand tail).value left = tail.value combined := by
  rw [value_cons h, happly]
  rfl

end Steps

theorem toInt_eq_zero {b : Int64} : b.toInt = 0 ↔ b = 0 :=
  Int64.toInt_inj (y := 0)

namespace Shape

theorem apply_divide (a b : Int64) : apply .divide (.integer a) (.integer b) =
    if b = 0 then .error .divisionByZero else .ok (.integer (a / b)) := by
  rw [Object.eq_ofInt (Int64.toInt_div a b)]
  simp only [apply, quotient, toInt_eq_zero]

theorem apply_modulo (a b : Int64) : apply .modulo (.integer a) (.integer b) =
    if b = 0 then .error .divisionByZero else .ok (.integer (a % b)) := by
  simp only [apply, quotient, toInt_eq_zero, ← Int64.toInt_mod, Int64.ofInt_toInt]

theorem apply_multiply (a b : Int64) :
    apply .multiply (.integer a) (.integer b) = .ok (.integer (a * b)) := by
  simp only [apply, arithmetic, Int64.ofInt_mul, Int64.ofInt_toInt]

theorem apply_add (a b : Int64) :
    apply .add (.integer a) (.integer b) = .ok (.integer (a + b)) := by
  simp only [apply, sum, arithmetic, Int64.ofInt_add, Int64.ofInt_toInt]

end Shape

/-- Where the quotient wraps around, the product wraps back. -/
theorem div_mul_add_mod (a b : Int64) : a / b * b + a % b = a := by
  have hquotient : a / b = .ofInt (a.toInt.tdiv b.toInt) := Object.eq_ofInt (Int64.toInt_div a b)
  have hrest : a % b = .ofInt (a.toInt.tmod b.toInt) := by
    rw [← Int64.toInt_mod, Int64.ofInt_toInt]
  calc a / b * b + a % b
      = .ofInt (a.toInt.tdiv b.toInt) * .ofInt b.toInt + .ofInt (a.toInt.tmod b.toInt) := by
        rw [hquotient, hrest, Int64.ofInt_toInt]
    _ = .ofInt (a.toInt.tdiv b.toInt * b.toInt + a.toInt.tmod b.toInt) := by
        rw [Int64.ofInt_add, Int64.ofInt_mul]
    _ = a := by rw [Int.tdiv_mul_add_tmod, Int64.ofInt_toInt]

/-- A remainder is zero or has the sign of the dividend. -/
theorem sign_mod (a b : Int64) : a % b = 0 ∨ (a % b).toInt.sign = a.toInt.sign := by
  by_cases hdvd : b.toInt ∣ a.toInt
  · exact .inl (toInt_eq_zero.1 ((Int64.toInt_mod a b).trans (Int.tmod_eq_zero_of_dvd hdvd)))
  · exact .inr (by rw [Int64.toInt_mod, Int.sign_tmod, if_neg hdvd])

/-- A remainder is smaller than the divisor. -/
theorem natAbs_mod_lt (a : Int64) {b : Int64} (hb : b ≠ 0) :
    (a % b).toInt.natAbs < b.toInt.natAbs := by
  have hpos : b.toInt ≠ 0 := toInt_eq_zero.not.2 hb
  rw [Int64.toInt_mod, Int.natAbs_tmod]
  exact Nat.mod_lt _ (Int.natAbs_pos.2 hpos)

namespace Tree

theorem value_integer (before : Blank) (value : Int64) :
    (integer before value).value = .ok (.integer value) :=
  congrArg (fun x => Except.ok (Shape.integer x)) (Numeral.integer_ofInt64 value)

theorem value_modulo (before : Blank) (a b : Int64) :
    (modulo before a b).value =
      if b = 0 then .error .divisionByZero else .ok (.integer (a % b)) := by
  refine (value_chain (value_integer before a)).trans ?_
  refine (Tail.value_cons (value_integer .space b)).trans ?_
  rw [Shape.apply_modulo]
  split <;> rfl

theorem value_multiple (before : Blank) (a b : Int64) :
    (multiple before a b).value =
      if b = 0 then .error .divisionByZero else .ok (.integer (a / b * b)) := by
  refine (value_chain (value_integer before a)).trans ?_
  have hdivide := Shape.apply_divide a b
  by_cases hb : b = 0
  · rw [if_pos hb] at hdivide ⊢
    refine (Tail.value_cons (value_integer .space b)).trans ?_
    rw [hdivide]
    rfl
  · rw [if_neg hb] at hdivide ⊢
    have hmultiply := Shape.apply_multiply (a / b) b
    exact (Tail.value_cons_ok (value_integer .space b) hdivide).trans
      (Tail.value_cons_ok (value_integer .space b) hmultiply)

end Tree

namespace Statement

theorem value_ofSum (first : Tree false Level.additive.operand) (tail : Tail false .additive) :
    (ofSum first tail).value = first.value >>= tail.value := by
  show ((first.value >>= tail.value) >>= fun v => .ok v) = first.value >>= tail.value
  cases first.value >>= tail.value <;> rfl

theorem value_remainder (a b : Int64) :
    (remainder a b).value =
      if b = 0 then .error .divisionByZero else .ok (.integer (a % b)) := by
  rw [remainder, value_ofSum, Tree.value_modulo]
  split <;> rfl

theorem value_recomposition (a b : Int64) :
    (recomposition a b).value = if b = 0 then .error .divisionByZero else .ok (.integer a) := by
  rw [recomposition, value_ofSum, Tree.value_multiple]
  split
  case isTrue => rfl
  case isFalse hb =>
    have hrest : (Tree.modulo .space a b).value = .ok (.integer (a % b)) := by
      rw [Tree.value_modulo, if_neg hb]
    have hsum : Shape.apply .add (.integer (a / b * b)) (.integer (a % b)) = .ok (.integer a) := by
      rw [Shape.apply_add, div_mul_add_mod]
    exact Tail.value_cons_ok hrest hsum

end Statement

/-! ## Evaluating them -/

theorem parse_of_divisionByZero (held : List Object) (next : ObjectId) (e : Statement false)
    (h : e.nesting ≤ maxNesting) (hv : e.value = .error .divisionByZero) :
    (parse held e.text next).1 = .error .divisionByZero := by
  have hc : (Cursor.ofText e.text.toList).rest = e.body.spell e.ending := String.toList_ofList
  obtain ⟨stop, -, hmeets⟩ := statement_meets e held next hc rfl h
  rcases hr : statement held (.ofText e.text.toList) next with ⟨outcome, c', s'⟩
  rw [hr, hv] at hmeets
  obtain rfl : outcome = .fault .divisionByZero := hmeets
  simp only [parse, hr]

theorem parse_of_integer (held : List Object) (next : ObjectId) (e : Statement false)
    (h : e.nesting ≤ maxNesting) {value : Int64} (hv : e.value = .ok (.integer value)) :
    ∃ id, (parse held e.text next).1 = .ok (.integer id value) := by
  obtain ⟨v, hparse, hshape⟩ := parse_of_value held next e h hv
  cases v with
  | integer id x =>
    obtain rfl : x = value := Shape.integer.inj hshape
    exact ⟨id, hparse⟩
  | null | view | boolean | bare => cases hshape
  | array => simp at hshape

/-- Quotient and remainder of two integers make up the dividend, whatever is alive and whichever
identifier is next. The remainder is smaller than the divisor, and has the sign of the dividend
unless it is zero. Only division by zero is a fault. -/
theorem parse_recomposition (held : List Object) (next : ObjectId) (a b : Int64) :
    if b = 0 then
      (parse held (recomposition a b) next).1 = .error .divisionByZero ∧
        (parse held (remainder a b) next).1 = .error .divisionByZero
    else
      (∃ id, (parse held (recomposition a b) next).1 = .ok (.integer id a)) ∧
        ∃ id r, (parse held (remainder a b) next).1 = .ok (.integer id r) ∧
          r.toInt.natAbs < b.toInt.natAbs ∧ (r = 0 ∨ r.toInt.sign = a.toInt.sign) := by
  have hsum := Statement.value_recomposition a b
  have hrest := Statement.value_remainder a b
  have hnsum : (Statement.recomposition a b).nesting ≤ maxNesting := Nat.zero_le _
  have hnrest : (Statement.remainder a b).nesting ≤ maxNesting := Nat.zero_le _
  rw [← Statement.text_recomposition, ← Statement.text_remainder]
  by_cases hb : b = 0
  · rw [if_pos hb] at hsum hrest ⊢
    exact ⟨parse_of_divisionByZero held next _ hnsum hsum,
      parse_of_divisionByZero held next _ hnrest hrest⟩
  · rw [if_neg hb] at hsum hrest ⊢
    obtain ⟨id, hr⟩ := parse_of_integer held next _ hnrest hrest
    exact ⟨parse_of_integer held next _ hnsum hsum,
      id, a % b, hr, natAbs_mod_lt a hb, sign_mod a b⟩

end Parley.Formula
