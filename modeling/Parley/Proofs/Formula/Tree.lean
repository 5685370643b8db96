import Parley.Formula.Grammar

/-!
# Syntax trees

The derivations of the grammar of formulas, as data. There is one constructor for
each alternative of a rule, and a tree can only be built where the grammar has
that alternative, so that a tree is a derivation. Each word of a tree is kept
together with the blank before it.

- `Blank`, `Keyword`, `Numeral`: the words of a formula.
- `Level`, `Kind`: the rules of the grammar; three of them are chains of operators.
- `Tree`, `Tail`, `Items`, `Statement`: derivations, indexed by their rule. The
  parameter `access` tells whether member access is allowed.
- `Tree.spell`: the text of a tree, put in front of what follows it.
- `Tree.nesting`: how many parentheses, arrays, signs and `!` are open at a time.
- `Tree.indent`: a tree with a blank put before it.
- `Tree.WordsEnd`: no keyword runs on into an identifier character.
-/

namespace Parley.Formula

/-! ## Words -/

/-- Characters that may stand between words. -/
structure Blank where
  chars : List Char
  isSpace_of_mem : ∀ c ∈ chars, isSpace c = true

namespace Blank

def none : Blank where
  chars := []
  isSpace_of_mem := by simp

/-- One blank after the other. -/
def append (a b : Blank) : Blank where
  chars := a.chars ++ b.chars
  isSpace_of_mem c hc := (List.mem_append.1 hc).elim (a.isSpace_of_mem c) (b.isSpace_of_mem c)

@[simp] theorem chars_none : none.chars = [] := rfl

@[simp] theorem chars_append (a b : Blank) : (a.append b).chars = a.chars ++ b.chars := rfl

end Blank

/-- The words that stand for an object. -/
inductive Keyword where
  | null
  | newobj
  | allobj
  | boolean (value : Bool)

def Keyword.text : Keyword → List Char
  | .null => ['n', 'u', 'l', 'l']
  | .newobj => ['n', 'e', 'w', 'o', 'b', 'j']
  | .allobj => ['a', 'l', 'l', 'o', 'b', 'j']
  | .boolean true => ['t', 'r', 'u', 'e']
  | .boolean false => ['f', 'a', 'l', 's', 'e']

def Sign.symbol : Sign → Char
  | .plus => '+'
  | .minus => '-'

/-- What is written for a sign that may be left out. -/
def signText : Option Sign → List Char
  | some sign => [sign.symbol]
  | none => []

/-- The integer that is written with this sign and these digits. -/
def decimal (sign : Option Sign) (digits : List Char) : Int :=
  (sign.getD .plus).applyTo (Nat.ofDigitChars 10 digits 0)

/-- An integer as it is written: it has a digit and fits 64 bits. -/
structure Numeral where
  sign : Option Sign
  digits : List Char
  digits_ne_nil : digits ≠ []
  isDigit_of_mem : ∀ c ∈ digits, c.isDigit = true
  le_decimal : -0x8000000000000000 ≤ decimal sign digits
  decimal_lt : decimal sign digits < 0x8000000000000000

namespace Numeral

def text (n : Numeral) : List Char :=
  signText n.sign ++ n.digits

/-- The integer that a numeral stands for. -/
def integer (n : Numeral) : Int64 :=
  Int64.ofInt (decimal n.sign n.digits)

end Numeral

/-! ## Rules -/

/-- The levels of precedence, the weakest first. -/
inductive Level where
  | logical
  | additive
  | multiplicative
  deriving DecidableEq

/-- The rules of the grammar that a tree may derive from. -/
inductive Kind where
  | chain (level : Level)
  | unary
  | value
  deriving DecidableEq

/-- The rule `expression`. -/
abbrev Kind.expression : Kind :=
  .chain .logical

/-- The operands of a chain. -/
def Level.operand : Level → Kind
  | .logical => .chain .additive
  | .additive => .chain .multiplicative
  | .multiplicative => .unary

namespace BinaryOp

def level : BinaryOp → Level
  | .add | .subtract => .additive
  | .multiply | .divide | .modulo => .multiplicative
  | .and | .or | .xor => .logical

def symbol : BinaryOp → Char
  | .add => '+'
  | .subtract => '-'
  | .multiply => '*'
  | .divide => '/'
  | .modulo => '%'
  | .and => '&'
  | .or => '|'
  | .xor => '^'

end BinaryOp

/-- The operators of a level, by symbol. -/
def Level.operator? : Level → Char → Option BinaryOp
  | .logical => logicalOperator?
  | .additive => additiveOperator?
  | .multiplicative => multiplicativeOperator?

theorem Level.operator?_eq_some_iff {l : Level} {ch : Char} {op : BinaryOp} :
    l.operator? ch = some op ↔ op.level = l ∧ op.symbol = ch := by
  cases l <;> cases op <;>
    simp [operator?, logicalOperator?, additiveOperator?, multiplicativeOperator?,
      BinaryOp.level, BinaryOp.symbol] <;> grind

/-! ## Trees -/

mutual

/-- A derivation from a rule of the grammar. -/
inductive Tree (access : Bool) : Kind → Type where
  /-- `operand ( operator operand )*` -/
  | chain {l : Level} (first : Tree access l.operand) (tail : Tail access l) :
      Tree access (.chain l)
  | plain (value : Tree access .value) : Tree access .unary
  | member (allowed : access = true) (base : Tree access .value) (before : Blank)
      (name : Tree access .value) : Tree access .unary
  | signed (before : Blank) (sign : Sign) (operand : Tree access .unary) : Tree access .unary
  | negated (before : Blank) (operand : Tree access .unary) : Tree access .unary
  | parens (before : Blank) (inner : Tree access .expression) (after : Blank) :
      Tree access .value
  | emptyArray (before inside : Blank) : Tree access .value
  | array (before : Blank) (items : Items access) : Tree access .value
  | word (before : Blank) (keyword : Keyword) : Tree access .value
  | number (before : Blank) (numeral : Numeral) : Tree access .value

/-- What follows the first operand of a chain. -/
inductive Tail (access : Bool) : Level → Type where
  | nil {l : Level} : Tail access l
  | cons {l : Level} (before : Blank) (op : BinaryOp) (level_eq : op.level = l)
      (operand : Tree access l.operand) (tail : Tail access l) : Tail access l

/-- The items of an array, with the last bracket. -/
inductive Items (access : Bool) : Type where
  | last (item : Tree access .expression) (after : Blank) : Items access
  | cons (item : Tree access .expression) (after : Blank) (items : Items access) : Items access

end

/-- A whole text: an expression, perhaps a semicolon, and the blank at the end. -/
structure Statement (access : Bool) where
  body : Tree access .expression
  /-- The blank before the semicolon, if there is one. -/
  semicolon : Option Blank
  after : Blank

variable {access : Bool}

/-! ## Spelling -/

mutual

/-- The text of a tree, with `rest` after it. -/
def Tree.spell : {k : Kind} → Tree access k → (rest : List Char) → List Char
  | _, .chain first tail, rest => first.spell (tail.spell rest)
  | _, .plain value, rest => value.spell rest
  | _, .member _ base before name, rest => base.spell (before.chars ++ '.' :: name.spell rest)
  | _, .signed before sign operand, rest => before.chars ++ sign.symbol :: operand.spell rest
  | _, .negated before operand, rest => before.chars ++ '!' :: operand.spell rest
  | _, .parens before inner after, rest =>
    before.chars ++ '(' :: inner.spell (after.chars ++ ')' :: rest)
  | _, .emptyArray before inside, rest => before.chars ++ '[' :: (inside.chars ++ ']' :: rest)
  | _, .array before items, rest => before.chars ++ '[' :: items.spell rest
  | _, .word before keyword, rest => before.chars ++ (keyword.text ++ rest)
  | _, .number before numeral, rest => before.chars ++ (numeral.text ++ rest)

def Tail.spell : {l : Level} → Tail access l → (rest : List Char) → List Char
  | _, .nil, rest => rest
  | _, .cons before op _ operand tail, rest =>
    before.chars ++ op.symbol :: operand.spell (tail.spell rest)

def Items.spell : Items access → (rest : List Char) → List Char
  | .last item after, rest => item.spell (after.chars ++ ']' :: rest)
  | .cons item after items, rest => item.spell (after.chars ++ ',' :: items.spell rest)

end

namespace Statement

/-- What stands after the expression. -/
def ending (e : Statement access) : List Char :=
  match e.semicolon with
  | some before => before.chars ++ ';' :: e.after.chars
  | none => e.after.chars

/-- The text that is derived. -/
def text (e : Statement access) : String :=
  String.ofList (e.body.spell e.ending)

end Statement

/-! ## Nesting -/

mutual

/-- The number of parentheses, arrays, signs and `!` that are open at the place
where most of them are. -/
def Tree.nesting : {k : Kind} → Tree access k → Nat
  | _, .chain first tail => max first.nesting tail.nesting
  | _, .plain value => value.nesting
  | _, .member _ base _ name => max base.nesting name.nesting
  | _, .signed _ _ operand => operand.nesting + 1
  | _, .negated _ operand => operand.nesting + 1
  | _, .parens _ inner _ => inner.nesting + 1
  | _, .emptyArray _ _ => 1
  | _, .array _ items => items.nesting + 1
  | _, .word _ _ => 0
  | _, .number _ _ => 0

def Tail.nesting : {l : Level} → Tail access l → Nat
  | _, .nil => 0
  | _, .cons _ _ _ operand tail => max operand.nesting tail.nesting

def Items.nesting : Items access → Nat
  | .last item _ => item.nesting
  | .cons item _ items => max item.nesting items.nesting

end

def Statement.nesting (e : Statement access) : Nat :=
  e.body.nesting

/-! ## Indenting -/

/-- The tree with a blank put before it. -/
def Tree.indent (b : Blank) : {k : Kind} → Tree access k → Tree access k
  | _, .chain first tail => .chain (first.indent b) tail
  | _, .plain value => .plain (value.indent b)
  | _, .member allowed base before name => .member allowed (base.indent b) before name
  | _, .signed before sign operand => .signed (b.append before) sign operand
  | _, .negated before operand => .negated (b.append before) operand
  | _, .parens before inner after => .parens (b.append before) inner after
  | _, .emptyArray before inside => .emptyArray (b.append before) inside
  | _, .array before items => .array (b.append before) items
  | _, .word before keyword => .word (b.append before) keyword
  | _, .number before numeral => .number (b.append before) numeral

def Items.indent (b : Blank) : Items access → Items access
  | .last item after => .last (item.indent b) after
  | .cons item after items => .cons (item.indent b) after items

@[simp] theorem Tree.spell_indent (b : Blank) :
    ∀ {k : Kind} (t : Tree access k) (rest : List Char),
      (t.indent b).spell rest = b.chars ++ t.spell rest
  | _, .chain first tail, rest => first.spell_indent b (tail.spell rest)
  | _, .plain value, rest => value.spell_indent b rest
  | _, .member _ base _ _, _ => base.spell_indent b _
  | _, .signed _ _ _, _ | _, .negated _ _, _ | _, .parens _ _ _, _ | _, .emptyArray _ _, _
  | _, .array _ _, _ | _, .word _ _, _ | _, .number _ _, _ => List.append_assoc ..

@[simp] theorem Items.spell_indent (b : Blank) (items : Items access) (rest : List Char) :
    (items.indent b).spell rest = b.chars ++ items.spell rest := by
  cases items <;> exact Tree.spell_indent b _ _

@[simp] theorem Tree.nesting_indent (b : Blank) :
    ∀ {k : Kind} (t : Tree access k), (t.indent b).nesting = t.nesting
  | _, .chain first tail => congrArg (max · tail.nesting) (first.nesting_indent b)
  | _, .plain value => value.nesting_indent b
  | _, .member _ base _ name => congrArg (max · name.nesting) (base.nesting_indent b)
  | _, .signed _ _ _ | _, .negated _ _ | _, .parens _ _ _ | _, .emptyArray _ _
  | _, .array _ _ | _, .word _ _ | _, .number _ _ => rfl

@[simp] theorem Items.nesting_indent (b : Blank) (items : Items access) :
    (items.indent b).nesting = items.nesting := by
  cases items with
  | last item _ => exact item.nesting_indent b
  | cons item _ items => exact congrArg (max · items.nesting) (item.nesting_indent b)

/-! ## Ends of keywords -/

/-- Whether a text goes on with an identifier character. -/
def startsInWord (text : List Char) : Bool :=
  text.head?.any isIdentChar

mutual

/-- In the text of the tree with `rest` after it, no keyword is followed by an
identifier character. -/
def Tree.WordsEnd : {k : Kind} → Tree access k → (rest : List Char) → Prop
  | _, .chain first tail, rest => first.WordsEnd (tail.spell rest) ∧ tail.WordsEnd rest
  | _, .plain value, rest => value.WordsEnd rest
  | _, .member _ base before name, rest =>
    base.WordsEnd (before.chars ++ '.' :: name.spell rest) ∧ name.WordsEnd rest
  | _, .signed _ _ operand, rest => operand.WordsEnd rest
  | _, .negated _ operand, rest => operand.WordsEnd rest
  | _, .parens _ inner after, rest => inner.WordsEnd (after.chars ++ ')' :: rest)
  | _, .emptyArray _ _, _ => True
  | _, .array _ items, rest => items.WordsEnd rest
  | _, .word _ _, rest => startsInWord rest = false
  | _, .number _ _, _ => True

def Tail.WordsEnd : {l : Level} → Tail access l → (rest : List Char) → Prop
  | _, .nil, _ => True
  | _, .cons _ _ _ operand tail, rest => operand.WordsEnd (tail.spell rest) ∧ tail.WordsEnd rest

def Items.WordsEnd : Items access → (rest : List Char) → Prop
  | .last item after, rest => item.WordsEnd (after.chars ++ ']' :: rest)
  | .cons item after items, rest =>
    item.WordsEnd (after.chars ++ ',' :: items.spell rest) ∧ items.WordsEnd rest

end

theorem Tree.WordsEnd.indent (b : Blank) :
    ∀ {k : Kind} {t : Tree access k} {rest : List Char},
      t.WordsEnd rest → (t.indent b).WordsEnd rest
  | _, .chain _ _, _, h => ⟨Tree.WordsEnd.indent b h.1, h.2⟩
  | _, .plain value, _, h => Tree.WordsEnd.indent (t := value) b h
  | _, .member _ _ _ _, _, h => ⟨Tree.WordsEnd.indent b h.1, h.2⟩
  | _, .signed _ _ _, _, h | _, .negated _ _, _, h | _, .parens _ _ _, _, h
  | _, .emptyArray _ _, _, h | _, .array _ _, _, h | _, .word _ _, _, h
  | _, .number _ _, _, h => h

theorem Items.WordsEnd.indent (b : Blank) {items : Items access} {rest : List Char}
    (h : items.WordsEnd rest) : (items.indent b).WordsEnd rest := by
  cases items with
  | last item _ => exact Tree.WordsEnd.indent (t := item) b h
  | cons _ _ _ => exact ⟨Tree.WordsEnd.indent b h.1, h.2⟩

def Statement.WordsEnd (e : Statement access) : Prop :=
  e.body.WordsEnd e.ending

end Parley.Formula
