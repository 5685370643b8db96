import Mathlib.Data.Nat.Digits.Defs
import Parley.Proofs.Formula.Depth

/-!
# How long a printed value can be

The printed form of a value is not much longer than the formula as long as there is
no member access in it: an integer takes at most 20 characters, and everything else
is printed about as it is written. Member access can look an operand up that is
still held, so that it is put next to itself and each point in a text may make the
value twice as long.

- `Object.width`: the length of the printed form.
- `Tree.size`: the length of the text of a tree.
- `widthBound`: the length that so many accesses and characters allow.
- `Tree.width_le`: values keep to the bound, by induction on trees.
- `length_code_le_of_parse`: the bound for whole texts.
- `exists_longer_than_text`: a text of 85 characters whose value takes 1793.
-/

namespace Parley.Formula

/-! ## Lengths of objects -/

namespace Object

mutual

/-- The number of characters of the printed form. -/
def width : Object → Nat
  | .null => 4
  | .view => 6
  | .boolean value => if value then 4 else 5
  | .integer _ value => (toString value.toInt).length
  | .array _ items => max 2 (slotWidth items + 1)
  | .bare _ => 6

/-- The same for slots, with one more character for each that is present. -/
def slotWidth : List (Option Object) → Nat
  | [] => 0
  | none :: items => slotWidth items
  | some object :: items => object.width + 1 + slotWidth items

end

@[simp] theorem width_array (id : ObjectId) (items : List (Option Object)) :
    (Object.array id items).width = max 2 (slotWidth items + 1) := by
  rw [width]

theorem slotWidth_eq (items : List (Option Object)) :
    slotWidth items = ((present items).map fun o => o.width + 1).sum := by
  induction items with
  | nil => rfl
  | cons slot items ih => cases slot <;> simp [slotWidth, ih]

theorem slotWidth_append (xs ys : List (Option Object)) :
    slotWidth (xs ++ ys) = slotWidth xs + slotWidth ys := by
  simp [slotWidth_eq, present]

/-- Words with commas between them, and one more character. -/
theorem length_intercalate {words : List String} (h : words ≠ []) :
    (",".intercalate words).length + 1 = (words.map fun word => word.length + 1).sum := by
  induction words with
  | nil => exact absurd rfl h
  | cons word words ih =>
    cases words with
    | nil => simp
    | cons word' words =>
      have hrest := ih (List.cons_ne_nil word' words)
      rw [String.intercalate_cons_cons, String.length_append, String.length_append,
        List.map_cons, List.sum_cons, ← hrest]
      show word.length + 1 + _ + 1 = _
      omega

theorem length_code (o : Object) : o.code.length = o.width := by
  induction o using Object.induction with
  | null | view | integer => rfl
  | bare id =>
    rw [code, width]
    rfl
  | boolean value => cases value <;> rfl
  | array id items ih =>
    have hwidths : (present items).map (fun o => o.code.length + 1) =
        (present items).map fun o => o.width + 1 :=
      List.map_congr_left fun o ho => congrArg (· + 1) (ih o (mem_present.1 ho))
    rw [width_array, slotWidth_eq, ← hwidths, code, codes_eq, String.length_append,
      String.length_append]
    cases hp : present items with
    | nil => rfl
    | cons o os =>
      have hlength := length_intercalate (List.cons_ne_nil o.code (os.map code))
      rw [← List.map_cons] at hlength
      rw [List.map_map] at hlength
      have hpos : 2 ≤ ((o :: os).map fun o => o.code.length + 1).sum + 1 := by
        rw [List.map_cons, List.sum_cons]
        omega
      rw [Nat.max_eq_right hpos]
      show 1 + _ + 1 = _
      rw [Nat.add_assoc, hlength, Nat.add_comm]
      rfl

theorem width_lt_slotWidth {items : List (Option Object)} {o : Object} (h : some o ∈ items) :
    o.width < slotWidth items := by
  induction items with
  | nil => cases h
  | cons slot items ih =>
    rcases List.mem_cons.1 h with rfl | h
    · rw [slotWidth]
      omega
    · have hrest := ih h
      cases slot <;> rw [slotWidth] <;> omega

/-- No item is as long as its array. -/
theorem width_le_width_array (id : ObjectId) (items : List (Option Object)) (o : Object)
    (h : some o ∈ items) : o.width ≤ (Object.array id items).width := by
  have hlt := width_lt_slotWidth h
  rw [width_array]
  omega

/-! ## Operations -/

/-- An integer of 64 bits has at most 19 digits and a sign. -/
theorem width_integer_le (id : ObjectId) (value : Int64) : (integer id value).width ≤ 20 := by
  have hlow := value.le_toInt
  have hhigh := value.toInt_lt
  have hdigits : (Numeral.ofInt64 value).digits.length ≤ 19 :=
    Nat.toDigits_length 10 _ 19 (by decide) (by omega)
  have hsign : (signText (Numeral.ofInt64 value).sign).length ≤ 1 := by
    cases (Numeral.ofInt64 value).sign with
    | none => exact Nat.zero_le 1
    | some sign => exact Nat.le_refl 1
  rw [width, ← String.length_toList, ← Numeral.text_ofInt64, Numeral.text, List.length_append]
  omega

theorem width_boolean_le (value : Bool) : (boolean value).width ≤ 5 := by
  cases value <;> decide

section Families

variable {a b : Object} {yielded : Yield} {next : ObjectId}

theorem width_arithmetic {f : Int64 → Int64 → Int64}
    (h : (Outcome.ofOption (arithmetic f a b) : Outcome Fault Yield) = .found yielded) :
    (yielded.settle next).1.width ≤ 20 := by
  cases a <;> cases b <;> cases h
  exact width_integer_le _ _

theorem width_quotient {f : Int64 → Int64 → Int64} (h : quotient f a b = .found yielded) :
    (yielded.settle next).1.width ≤ 20 := by
  cases a <;> cases b <;> try cases h
  case integer.integer i x j y =>
    rw [quotient] at h
    split at h <;> cases h
    exact width_integer_le _ _

theorem width_logic {f : Bool → Bool → Bool}
    (h : (Outcome.ofOption (logic f a b) : Outcome Fault Yield) = .found yielded) :
    (yielded.settle next).1.width ≤ 20 := by
  cases a <;> cases b <;> cases h
  exact Nat.le_trans (width_boolean_le _) (by decide)

theorem width_add (h : (Outcome.ofOption (a.add b) : Outcome Fault Yield) = .found yielded) :
    (yielded.settle next).1.width ≤ max 20 (a.width + b.width) := by
  match a, b with
  | .array i xs, .array j [] =>
    cases h
    exact Nat.le_trans (Nat.le_add_right ..) (Nat.le_max_right ..)
  | .array i xs, .array j (y :: ys) =>
    cases h
    simp only [Yield.settle, Content.publish, width_array, slotWidth_append]
    omega
  | .integer i x, .integer j y =>
    cases h
    exact Nat.le_trans (width_integer_le _ _) (Nat.le_max_left ..)

end Families

/-- Two arrays are printed together in no more characters than apart, and whatever
else operators make is short. -/
theorem width_apply {op : BinaryOp} {a b : Object} {yielded : Yield}
    (h : a.apply op b = .found yielded) (next : ObjectId) :
    (yielded.settle next).1.width ≤ max 20 (a.width + b.width) := by
  cases op with
  | add => exact width_add h
  | subtract | multiply => exact Nat.le_trans (width_arithmetic h) (Nat.le_max_left ..)
  | divide | modulo => exact Nat.le_trans (width_quotient h) (Nat.le_max_left ..)
  | and | or | xor => exact Nat.le_trans (width_logic h) (Nat.le_max_left ..)

theorem width_withSign {sign : Sign} {a : Object} {yielded : Yield}
    (h : a.withSign sign = some yielded) (next : ObjectId) :
    (yielded.settle next).1.width ≤ 20 := by
  cases sign <;> cases a <;> cases h <;> exact width_integer_le _ _

theorem width_negate {a : Object} {yielded : Yield} (h : a.negate = some yielded)
    (next : ObjectId) : (yielded.settle next).1.width ≤ 20 := by
  cases a <;> cases h
  exact Nat.le_trans (width_boolean_le _) (by decide)

/-- What is looked up is part of something that is held, or short. -/
theorem width_member {held : List Object} {L : Nat} (hheld : ∀ o ∈ held, o.width ≤ L)
    {a key object : Object} (h : a.member held key = some object) :
    object.width ≤ max 20 L := by
  refine le_of_member width_le_width_array ?_
    (fun id value => Nat.le_trans (width_integer_le id value) (Nat.le_max_left ..))
    (fun o ho => Nat.le_trans (hheld o ho) (Nat.le_max_right ..)) h
  intro o ho
  refine Nat.le_trans ?_ (Nat.le_max_left ..)
  simp only [Registry.singletons, List.mem_cons, List.not_mem_nil, or_false] at ho
  rcases ho with rfl | rfl | rfl | rfl <;> decide

end Object

/-! ## Lengths of texts -/

section Sizes

variable {access : Bool}

mutual

/-- The number of characters of the text of a tree. -/
def Tree.size : {k : Kind} → Tree access k → Nat
  | _, .chain first tail => first.size + tail.size
  | _, .plain value => value.size
  | _, .member _ base before name => base.size + (before.chars.length + 1 + name.size)
  | _, .signed before _ operand => before.chars.length + 1 + operand.size
  | _, .negated before operand => before.chars.length + 1 + operand.size
  | _, .parens before inner after =>
    before.chars.length + 1 + (inner.size + (after.chars.length + 1))
  | _, .emptyArray before inside => before.chars.length + 1 + (inside.chars.length + 1)
  | _, .array before items => before.chars.length + 1 + items.size
  | _, .word before keyword => before.chars.length + keyword.text.length
  | _, .number before numeral => before.chars.length + numeral.text.length

def Tail.size : {l : Level} → Tail access l → Nat
  | _, .nil => 0
  | _, .cons before _ _ operand tail => before.chars.length + 1 + operand.size + tail.size

def Items.size : Items access → Nat
  | .last item after => item.size + (after.chars.length + 1)
  | .cons item after items => item.size + (after.chars.length + 1) + items.size

end

theorem length_append_cons (text : List Char) (ch : Char) (rest : List Char) :
    (text ++ ch :: rest).length = text.length + 1 + rest.length := by
  rw [List.length_append, List.length_cons]
  omega

mutual

theorem Tree.length_spell : ∀ {k : Kind} (t : Tree access k) (rest : List Char),
    (t.spell rest).length = t.size + rest.length
  | _, .chain first tail, rest => by
    rw [Tree.spell, first.length_spell, tail.length_spell, Tree.size, Nat.add_assoc]
  | _, .plain value, rest => value.length_spell rest
  | _, .member _ base before name, rest => by
    rw [Tree.spell, base.length_spell, length_append_cons, name.length_spell, Tree.size]
    omega
  | _, .signed before sign operand, rest => by
    rw [Tree.spell, length_append_cons, operand.length_spell, Tree.size, ← Nat.add_assoc]
  | _, .negated before operand, rest => by
    rw [Tree.spell, length_append_cons, operand.length_spell, Tree.size, ← Nat.add_assoc]
  | _, .parens before inner after, rest => by
    rw [Tree.spell, length_append_cons, inner.length_spell, length_append_cons, Tree.size]
    omega
  | _, .emptyArray before inside, rest => by
    rw [Tree.spell, length_append_cons, length_append_cons, Tree.size, ← Nat.add_assoc]
  | _, .array before items, rest => by
    rw [Tree.spell, length_append_cons, items.length_spell, Tree.size, ← Nat.add_assoc]
  | _, .word before keyword, rest => by
    rw [Tree.spell, List.length_append, List.length_append, Tree.size, Nat.add_assoc]
  | _, .number before numeral, rest => by
    rw [Tree.spell, List.length_append, List.length_append, Tree.size, Nat.add_assoc]

theorem Tail.length_spell : ∀ {l : Level} (t : Tail access l) (rest : List Char),
    (t.spell rest).length = t.size + rest.length
  | _, .nil, rest => (Nat.zero_add _).symm
  | _, .cons before op _ operand tail, rest => by
    rw [Tail.spell, length_append_cons, operand.length_spell, tail.length_spell, Tail.size]
    omega

theorem Items.length_spell : ∀ (t : Items access) (rest : List Char),
    (t.spell rest).length = t.size + rest.length
  | .last item after, rest => by
    rw [Items.spell, item.length_spell, length_append_cons, Items.size]
    omega
  | .cons item after items, rest => by
    rw [Items.spell, item.length_spell, length_append_cons, items.length_spell, Items.size]
    omega

end

theorem Statement.size_le (e : Statement access) : e.body.size ≤ e.text.length := by
  rw [text, String.length_ofList, e.body.length_spell]
  exact Nat.le_add_right ..

end Sizes

/-! ## Values -/

/-- What a keyword stands for is printed as the keyword. -/
theorem Keyword.width_le (keyword : Keyword) (next : ObjectId) :
    (keyword.yielded.settle next).1.width ≤ keyword.text.length := by
  rcases keyword with - | - | - | (- | -) <;> exact Nat.le_refl _

theorem Numeral.length_text_pos (n : Numeral) : 0 < n.text.length := by
  rw [text, List.length_append]
  exact Nat.add_pos_right _ (List.length_pos_iff.2 n.digits_ne_nil)

/-- The length that `accesses` member accesses in a text of `size` characters allow,
while no object that is held is longer than `L`. Both the value and what is held
before it count: an access can put the one next to the other. -/
def widthBound (L accesses size : Nat) : Nat :=
  2 ^ accesses * (L + 20 * size)

section Bound

variable {L k n w : Nat}

theorem le_widthBound (L k n : Nat) : L + 20 * n ≤ widthBound L k n :=
  Nat.le_mul_of_pos_left _ (Nat.two_pow_pos k)

/-- Further characters allow as much more. -/
theorem widthBound_add_right (L k n m : Nat) :
    widthBound L k n + 20 * m ≤ widthBound L k (n + m) := by
  have hm : 20 * m ≤ 2 ^ k * (20 * m) := Nat.le_mul_of_pos_left _ (Nat.two_pow_pos k)
  rw [widthBound, widthBound, Nat.mul_add 20, ← Nat.add_assoc, Nat.mul_add _ (L + 20 * n)]
  omega

theorem widthBound_mono {m : Nat} (h : n ≤ m) : widthBound L k n ≤ widthBound L k m := by
  obtain ⟨d, rfl⟩ := Nat.exists_eq_add_of_le h
  have hadd := widthBound_add_right L k n d
  omega

/-- A lookup yields no more than what is held. -/
theorem le_widthBound_succ (h : w ≤ max 20 L) (hn : 1 ≤ n) :
    w + L ≤ widthBound L (k + 1) n := by
  have hbound := le_widthBound (2 * L) k (2 * n)
  have hdouble : widthBound (2 * L) k (2 * n) = widthBound L (k + 1) n := by
    rw [widthBound, widthBound, Nat.pow_succ]
    ring
  omega

/-- What was read before, with a length of `w`, is held and may be looked up from
then on. -/
theorem widthBound_add {k₁ n₁ k₂ n₂ w₂ : Nat} (h₁ : w + L ≤ widthBound L k₁ n₁)
    (h₂ : w₂ + max L w ≤ widthBound (max L w) k₂ n₂) :
    w + w₂ + L ≤ widthBound L (k₁ + k₂) (n₁ + n₂) := by
  obtain ⟨a, ha⟩ := Nat.exists_eq_succ_of_ne_zero (Nat.two_pow_pos k₁).ne'
  obtain ⟨b, hb⟩ := Nat.exists_eq_succ_of_ne_zero (Nat.two_pow_pos k₂).ne'
  rw [widthBound, ha] at h₁
  rw [widthBound, hb] at h₂
  rw [widthBound, Nat.pow_add, ha, hb]
  rcases Nat.le_total w L with hw | hw
  · -- the longest object that is held is still the same
    rw [Nat.max_eq_left hw] at h₂
    calc
      w + w₂ + L ≤ a.succ * (L + 20 * n₁) + b.succ * (L + 20 * n₂) - L := by omega
      _ ≤ a.succ * b.succ * (L + 20 * (n₁ + n₂)) := by
        rw [Nat.sub_le_iff_le_add]
        simp only [Nat.succ_eq_add_one]
        nlinarith [Nat.zero_le (a * b * (L + 20 * (n₁ + n₂))), Nat.zero_le (a * n₂),
          Nat.zero_le (b * n₁)]
  · rw [Nat.max_eq_right hw] at h₂
    calc
      w + w₂ + L ≤ b.succ * (w + 20 * n₂) + L := by omega
      _ ≤ b.succ * (w + L + 20 * n₂) := by
        simp only [Nat.succ_eq_add_one]
        nlinarith [Nat.zero_le (b * L)]
      _ ≤ b.succ * (a.succ * (L + 20 * n₁) + a.succ * (20 * n₂)) :=
        Nat.mul_le_mul_left _ (Nat.add_le_add h₁ (Nat.le_mul_of_pos_left _ (Nat.succ_pos a)))
      _ = a.succ * b.succ * (L + 20 * (n₁ + n₂)) := by ring

theorem forall_mem_cons_width_le {held : List Object} (h : ∀ o ∈ held, o.width ≤ L)
    (object : Object) : ∀ o ∈ object :: held, o.width ≤ max L object.width := by
  intro o ho
  rcases List.mem_cons.1 ho with rfl | ho
  · exact Nat.le_max_right ..
  · exact Nat.le_trans (h o ho) (Nat.le_max_left ..)

end Bound

mutual

/-- The value of a tree is no longer than its accesses and its text allow. -/
theorem Tree.width_le : ∀ {k : Kind} (t : Tree true k) {held : List Object} {low high : ObjectId}
    {object : Object} {L : Nat}, t.Evaluates held low object high →
      (∀ o ∈ held, o.width ≤ L) → object.width + L ≤ widthBound L t.accesses t.size
  | _, .chain first tail, held, low, high, object, L, h, hheld => by
    obtain ⟨left, mid, hleft, htail⟩ := h
    exact tail.width_le htail hheld (first.width_le hleft hheld)
  | _, .plain value, held, low, high, object, L, h, hheld => value.width_le h hheld
  | _, .member _ base before name, held, low, high, object, L, h, hheld => by
    obtain ⟨a, mid, key, -, -, hmember⟩ := h
    refine le_widthBound_succ (Object.width_member hheld hmember) ?_
    rw [Tree.size]
    omega
  | _, .signed before sign operand, held, low, high, object, L, h, hheld => by
    obtain ⟨a, mid, yielded, -, hyield, next, -, rfl, -⟩ := h
    have hwidth := Object.width_withSign hyield next
    have hbound := le_widthBound L (Tree.signed before sign operand).accesses
      (Tree.signed before sign operand).size
    rw [Tree.size] at hbound ⊢
    omega
  | _, .negated before operand, held, low, high, object, L, h, hheld => by
    obtain ⟨a, mid, yielded, -, hyield, next, -, rfl, -⟩ := h
    have hwidth := Object.width_negate hyield next
    have hbound := le_widthBound L (Tree.negated before operand).accesses
      (Tree.negated before operand).size
    rw [Tree.size] at hbound ⊢
    omega
  | _, .parens before inner after, held, low, high, object, L, h, hheld => by
    refine Nat.le_trans (inner.width_le h hheld) (widthBound_mono ?_)
    rw [Tree.size]
    omega
  | _, .emptyArray before inside, held, low, high, object, L, h, hheld => by
    obtain ⟨next, -, rfl, -⟩ := h
    rw [Tree.accesses, Tree.size]
    have hbound := le_widthBound L 0 (before.chars.length + 1 + (inside.chars.length + 1))
    show 2 + L ≤ _
    omega
  | _, .array before items, held, low, high, object, L, h, hheld => by
    obtain ⟨objects, mid, hitems, next, -, rfl, -⟩ := h
    have hwidth := items.width_le hitems hheld
    have hmore := widthBound_add_right L items.accesses items.size (before.chars.length + 1)
    rw [Nat.add_comm items.size] at hmore
    show max 2 (Object.slotWidth (objects.map some) + 1) + L ≤ _
    rw [Tree.accesses, Tree.size, Object.slotWidth_eq, present_map_some,
      List.map_id']
    omega
  | _, .word before keyword, held, low, high, object, L, h, hheld => by
    obtain ⟨next, -, rfl, -⟩ := h
    have hwidth := keyword.width_le next
    have hbound := le_widthBound L 0 (before.chars.length + keyword.text.length)
    rw [Tree.accesses, Tree.size]
    omega
  | _, .number before numeral, held, low, high, object, L, h, hheld => by
    obtain ⟨next, -, rfl, -⟩ := h
    have hwidth : (Object.integer next numeral.integer).width ≤ 20 * numeral.text.length :=
      Nat.le_trans (Object.width_integer_le ..) (Nat.mul_le_mul_left 20 numeral.length_text_pos)
    have hbound := le_widthBound L 0 (before.chars.length + numeral.text.length)
    show (Object.integer next numeral.integer).width + L ≤ _
    rw [Tree.accesses, Tree.size]
    omega

/-- The same with the value of the chain so far, which came of `k₁` accesses in `n₁`
characters. -/
theorem Tail.width_le : ∀ {l : Level} (t : Tail true l) {held : List Object} {low high : ObjectId}
    {left object : Object} {L k₁ n₁ : Nat}, t.Evaluates held left low object high →
      (∀ o ∈ held, o.width ≤ L) → left.width + L ≤ widthBound L k₁ n₁ →
        object.width + L ≤ widthBound L (k₁ + t.accesses) (n₁ + t.size)
  | _, .nil, held, low, high, left, object, L, k₁, n₁, h, hheld, hleft => by
    obtain ⟨rfl, -⟩ := h
    exact hleft
  | _, .cons before op _ operand tail, held, low, high, left, object, L, k₁, n₁, h, hheld,
      hleft => by
    obtain ⟨right, mid, yielded, left', mid', hright, happly, ⟨next, -, rfl, -⟩, htail⟩ := h
    -- the value so far is held while the operand is read
    have hwidth := operand.width_le hright (forall_mem_cons_width_le hheld left)
    have hboth := widthBound_add hleft hwidth
    have hmore := widthBound_add_right L (k₁ + operand.accesses) (n₁ + operand.size)
      (before.chars.length + 1)
    have hsmall := le_widthBound L (k₁ + operand.accesses)
      (n₁ + operand.size + (before.chars.length + 1))
    have hleft' := Object.width_apply happly next
    have hnext := tail.width_le htail hheld
      (show _ ≤ widthBound L (k₁ + operand.accesses)
        (n₁ + operand.size + (before.chars.length + 1)) by omega)
    have hsize : n₁ + operand.size + (before.chars.length + 1) + tail.size =
        n₁ + (Tail.cons before op ‹_› operand tail).size := by
      rw [Tail.size]
      omega
    rw [Tail.accesses, ← Nat.add_assoc, ← hsize]
    exact hnext

theorem Items.width_le : ∀ (t : Items true) {held objects : List Object} {low high : ObjectId}
    {L : Nat}, t.Evaluates held low objects high → (∀ o ∈ held, o.width ≤ L) →
      (objects.map fun o => o.width + 1).sum + L ≤ widthBound L t.accesses t.size
  | .last item after, held, objects, low, high, L, h, hheld => by
    obtain ⟨object, hitem, rfl⟩ := h
    have hwidth := item.width_le hitem hheld
    have hmore := widthBound_add_right L item.accesses item.size (after.chars.length + 1)
    rw [Items.accesses, Items.size, List.map_singleton, List.sum_singleton]
    omega
  | .cons item after items, held, objects, low, high, L, h, hheld => by
    obtain ⟨object, mid, others, hitem, hitems, rfl⟩ := h
    have hobject := item.width_le hitem hheld
    have hothers := items.width_le hitems (forall_mem_cons_width_le hheld object)
    have hboth := widthBound_add hobject hothers
    have hmore := widthBound_add_right L (item.accesses + items.accesses)
      (item.size + items.size) (after.chars.length + 1)
    have hsize : item.size + items.size + (after.chars.length + 1) =
        (Items.cons item after items).size := by
      rw [Items.size]
      omega
    rw [Items.accesses, ← hsize, List.map_cons, List.sum_cons]
    omega

end

/-! ## Whole texts -/

/-- While only the singletons are alive, the printed value of a text is at most 20
times as long as the text if there is no point in it, and for each point at most
twice as long as that. -/
theorem length_code_le_of_parse {text : String} {next : ObjectId} {v : Object}
    (h : (parse [] text next).1 = .ok v) :
    v.code.length ≤ 20 * text.length * 2 ^ text.toList.count '.' := by
  obtain ⟨e, rfl, -, -, heval⟩ := parse_ok h
  have hwidth := e.body.width_le (L := 0) heval (fun o ho => nomatch ho)
  calc
    v.code.length = v.width + 0 := v.length_code
    _ ≤ 2 ^ e.body.accesses * (0 + 20 * e.body.size) := hwidth
    _ = 20 * e.body.size * 2 ^ e.body.accesses := by rw [Nat.zero_add, Nat.mul_comm]
    _ ≤ 20 * e.text.length * 2 ^ e.text.toList.count '.' :=
      Nat.mul_le_mul (Nat.mul_le_mul_left 20 e.size_le)
        (Nat.pow_le_pow_right (by decide) e.accesses_le)

theorem length_code_le_of_parse_doubled :
    ∃ v, (parse [] "[allobj]+allobj.4" 4).1 = .ok v ∧ v.code.length = 15 ∧
      v.code.length ≤ 20 * 17 * 2 ^ 1 := by
  obtain ⟨v, hv, hwidth⟩ :=
    exists_parse_of_check [] "[allobj]+allobj.4".toList 4 (p := fun v => v.width == 15)
      (by decide +kernel)
  rw [String.ofList_toList] at hv
  exact ⟨v, hv, v.length_code.trans (eq_of_beq hwidth), length_code_le_of_parse hv⟩

/-- An array that is appended to itself, and the result to itself, and so on: the
numbers are the identifiers of the arrays. -/
def doublingText : List Char :=
  "[allobj]".toList ++
    [4, 6, 8, 10, 12, 14, 16, 18].flatMap fun id => "+allobj.".toList ++ Nat.toDigits 10 id

/-- Member access does make a printed value longer than any multiple of the text
allows that it does without. -/
theorem exists_longer_than_text :
    ∃ v, (parse [] (String.ofList doublingText) Object.firstFreshId).1 = .ok v ∧
      20 * (String.ofList doublingText).length < v.code.length := by
  obtain ⟨v, hv, hwidth⟩ :=
    exists_parse_of_check [] doublingText Object.firstFreshId (p := fun v => v.width == 1793)
      (by decide +kernel)
  refine ⟨v, hv, ?_⟩
  have hlength : doublingText.length = 85 := by decide +kernel
  rw [String.length_ofList, hlength, v.length_code, eq_of_beq hwidth]
  decide

end Parley.Formula
