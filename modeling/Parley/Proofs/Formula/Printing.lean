import Parley.Proofs.Formula.Completeness
import Parley.Proofs.Formula.Soundness

/-!
# Printed objects

The printed form of an object is a formula. It can be evaluated exactly if arrays
are not nested too deep in the object, and yields the object again, up to
identifiers and absent slots.

- `Numeral.ofInt64`: the numeral that is printed for an integer.
- `Object.tree`: the tree whose text is the printed form.
- `openBrackets`: how many brackets a text has open at a time. No tree has more
  of them open than its levels of nesting, and a printed object has as many open
  as it is deep.
- `Object.plain`: objects without bare objects and absent slots in them.
- `parse_code`: evaluating the printed form.
-/

namespace Parley.Formula

/-! ## Integers -/

namespace Numeral

theorem decimal_toDigits (value : Int) :
    decimal (if 0 ≤ value then none else some .minus) (Nat.toDigits 10 value.natAbs) = value := by
  rw [decimal, Nat.ofDigitChars_ten_toDigits]
  split
  · exact Int.natAbs_of_nonneg ‹_›
  · show -(value.natAbs : Int) = value
    omega

/-- The numeral that is printed for an integer. -/
def ofInt64 (value : Int64) : Numeral where
  sign := if 0 ≤ value.toInt then none else some .minus
  digits := Nat.toDigits 10 value.toInt.natAbs
  digits_ne_nil := Nat.toDigits_ne_nil
  isDigit_of_mem _ h := Nat.isDigit_of_mem_toDigits (by decide) (by decide) h
  le_decimal := by
    rw [decimal_toDigits]
    exact value.le_toInt
  decimal_lt := by
    rw [decimal_toDigits]
    exact value.toInt_lt

theorem integer_ofInt64 (value : Int64) : (ofInt64 value).integer = value := by
  rw [integer, ofInt64, decimal_toDigits]
  exact Int64.ofInt_toInt value

theorem text_ofInt64 (value : Int64) : (ofInt64 value).text = (toString value.toInt).toList := by
  rw [Int.toString_eq_repr, Int.repr_eq_if, text, ofInt64]
  split
  case isTrue h =>
    have habs : value.toInt.toNat = value.toInt.natAbs := by omega
    rw [habs, Nat.toList_repr]
    rfl
  case isFalse h =>
    have habs : (-value.toInt).toNat = value.toInt.natAbs := by omega
    rw [habs, String.toList_append, Nat.toList_repr]
    rfl

/-- A numeral is written with digits and a sign. -/
theorem of_mem_text {n : Numeral} {ch : Char} (h : ch ∈ n.text) :
    ch.isDigit = true ∨ ∃ sign : Sign, ch = sign.symbol := by
  rcases List.mem_append.1 h with hsign | hdigit
  · cases hn : n.sign with
    | none =>
      rw [hn] at hsign
      cases hsign
    | some sign =>
      rw [hn] at hsign
      exact .inr ⟨sign, List.mem_singleton.1 hsign⟩
  · exact .inl (n.isDigit_of_mem ch hdigit)

end Numeral

/-! ## Trees -/

section Trees

variable {access : Bool}

/-- A value on its own is an expression. -/
def Tree.alone (t : Tree access .value) : Tree access .expression :=
  .chain (.chain (.chain (.plain t) .nil) .nil) .nil

@[simp] theorem Tree.spell_alone (t : Tree access .value) (rest : List Char) :
    t.alone.spell rest = t.spell rest := rfl

@[simp] theorem Tree.nesting_alone (t : Tree access .value) : t.alone.nesting = t.nesting := by
  simp [alone, nesting, Tail.nesting]

theorem Tree.value_alone (t : Tree false .value) : t.alone.value = t.value := by
  simp only [alone, Tree.value, Tail.value]
  cases t.value <;> rfl

/-- The items of an array, the first one apart. -/
def Items.ofList (t : Tree access .value) : List (Tree access .value) → Items access
  | [] => .last t.alone .none
  | u :: us => .cons t.alone .none (Items.ofList u us)

theorem Items.nesting_ofList_le_iff {t : Tree access .value} {ts : List (Tree access .value)}
    {n : Nat} : (Items.ofList t ts).nesting ≤ n ↔ ∀ u ∈ t :: ts, u.nesting ≤ n := by
  induction ts generalizing t with
  | nil => simp [Items.ofList, Items.nesting]
  | cons u us ih =>
    rw [Items.ofList, Items.nesting, Tree.nesting_alone, Nat.max_le, ih]
    exact (List.forall_mem_cons (p := fun v : Tree access .value => v.nesting ≤ n)).symm

/-- The array of these values, without blanks. -/
def Tree.ofList : List (Tree access .value) → Tree access .value
  | [] => .emptyArray .none .none
  | t :: ts => .array .none (Items.ofList t ts)

end Trees

mutual

/-- The tree whose text is the printed form. -/
def Object.tree : Object → Tree false .value
  | .null => .word .none .null
  | .view => .word .none .allobj
  | .boolean value => .word .none (.boolean value)
  | .integer _ value => .number .none (.ofInt64 value)
  | .array _ items => .ofList (slotTrees items)
  | .bare _ => .word .none .newobj

def Object.slotTrees : List (Option Object) → List (Tree false .value)
  | [] => []
  | none :: items => slotTrees items
  | some object :: items => object.tree :: slotTrees items

end

namespace Object

theorem slotTrees_eq (items : List (Option Object)) :
    slotTrees items = (present items).map tree := by
  induction items with
  | nil => rfl
  | cons slot items ih => cases slot <;> simp [slotTrees, ih]

theorem tree_array (id : ObjectId) (items : List (Option Object)) :
    (Object.array id items).tree = .ofList ((present items).map tree) := by
  rw [tree, slotTrees_eq]

theorem toList_code_array (id : ObjectId) (items : List (Option Object)) :
    (Object.array id items).code.toList =
      '[' :: [','].intercalate ((present items).map fun o => o.code.toList) ++ [']'] := by
  simp [code, codes_eq, String.toList_intercalate, Function.comp_def]

theorem spell_items {objects : List Object} {object : Object} (rest : List Char)
    (h : ∀ o ∈ object :: objects, ∀ rest, o.tree.spell rest = o.code.toList ++ rest) :
    (Items.ofList object.tree (objects.map tree)).spell rest =
      [','].intercalate ((object :: objects).map fun o => o.code.toList) ++ ']' :: rest := by
  induction objects generalizing object with
  | nil =>
    rw [List.map_nil, Items.ofList, Items.spell, Tree.spell_alone, h object (by simp)]
    simp
  | cons other objects ih =>
    have hothers := ih fun o ho => h o (List.mem_cons_of_mem _ ho)
    rw [List.map_cons, Items.ofList, Items.spell, Tree.spell_alone, h object (by simp), hothers]
    simp

theorem spell_tree (o : Object) (rest : List Char) :
    o.tree.spell rest = o.code.toList ++ rest := by
  induction o using Object.induction generalizing rest with
  | null | view => rfl
  | bare id => rw [tree, code]; rfl
  | boolean value => cases value <;> rfl
  | integer id value =>
    rw [tree, Tree.spell, Numeral.text_ofInt64]
    rfl
  | array id items ih =>
    have hitems : ∀ o ∈ present items, ∀ rest, o.tree.spell rest = o.code.toList ++ rest :=
      fun o ho rest => ih o (mem_present.1 ho) rest
    rw [tree_array, toList_code_array]
    cases hp : present items with
    | nil => rfl
    | cons object objects =>
      rw [hp] at hitems
      rw [List.map_cons, Tree.ofList, Tree.spell, spell_items rest hitems]
      simp

theorem nesting_tree (o : Object) : o.tree.nesting = o.depth := by
  induction o using Object.induction with
  | null | view | boolean | integer | bare => simp [tree, Tree.nesting, depth]
  | array id items ih =>
    have hslots : ∀ n, slotDepth items ≤ n ↔ ∀ t ∈ (present items).map tree, t.nesting ≤ n := by
      intro n
      rw [slotDepth_le_iff, List.forall_mem_map]
      constructor
      · exact fun h o ho => (ih o (mem_present.1 ho)).trans_le (h o (mem_present.1 ho))
      · exact fun h o ho => (ih o ho).symm.trans_le (h o (mem_present.2 ho))
    -- both are the least number that bounds all slots
    rw [tree_array, depth_array]
    cases hp : (present items).map tree with
    | nil =>
      rw [hp] at hslots
      have hzero : slotDepth items ≤ 0 := (hslots 0).2 (List.forall_mem_nil _)
      rw [Nat.le_zero.1 hzero]
      rfl
    | cons t ts =>
      rw [hp] at hslots
      have hle := fun n => Items.nesting_ofList_le_iff.trans (hslots n).symm
      exact congrArg (· + 1) (Nat.le_antisymm ((hle _).2 (Nat.le_refl _)) ((hle _).1 (Nat.le_refl _)))

theorem values_items {objects : List Object} {object : Object}
    (h : ∀ o ∈ object :: objects, o.tree.value = .ok o.shape.compact) :
    (Items.ofList object.tree (objects.map tree)).values =
      .ok ((object :: objects).map fun o => o.shape.compact) := by
  induction objects generalizing object with
  | nil =>
    rw [List.map_nil, Items.ofList, Items.values, Tree.value_alone, h object (by simp)]
    rfl
  | cons other objects ih =>
    have hothers := ih fun o ho => h o (List.mem_cons_of_mem _ ho)
    rw [List.map_cons, Items.ofList, Items.values, Tree.value_alone, h object (by simp), hothers]
    rfl

theorem value_tree (o : Object) : o.tree.value = .ok o.shape.compact := by
  induction o using Object.induction with
  | null | view | boolean | bare => simp [tree, Tree.value, shape, Shape.compact, Keyword.shape]
  | integer id value => simp [tree, Tree.value, shape, Shape.compact, Numeral.integer_ofInt64]
  | array id items ih =>
    have hitems : ∀ o ∈ present items, o.tree.value = .ok o.shape.compact :=
      fun o ho => ih o (mem_present.1 ho)
    rw [tree_array, shape_array, Shape.compact_array, present_map]
    cases hp : present items with
    | nil => simp [Tree.ofList, Tree.value]
    | cons object objects =>
      rw [hp] at hitems
      rw [List.map_cons, Tree.ofList, Tree.value, values_items hitems]
      simp [pure, Except.pure, bind, Except.bind]

end Object

/-! ## Open brackets -/

/-- The number of brackets that are open at the place where most of them are, when
`n` of them are open at the beginning. -/
def openBrackets (n : Nat) : List Char → Nat
  | [] => n
  | ch :: rest =>
    max n (openBrackets (if ch = '[' then n + 1 else if ch = ']' then n - 1 else n) rest)

section OpenBrackets

variable {n : Nat} {rest : List Char}

theorem le_openBrackets (n : Nat) (text : List Char) : n ≤ openBrackets n text := by
  cases text with
  | nil => exact Nat.le_refl n
  | cons ch rest => exact Nat.le_max_left ..

theorem openBrackets_open (n : Nat) (rest : List Char) :
    openBrackets n ('[' :: rest) = openBrackets (n + 1) rest :=
  Nat.max_eq_right (Nat.le_trans (Nat.le_succ n) (le_openBrackets (n + 1) rest))

theorem openBrackets_close (n : Nat) (rest : List Char) :
    openBrackets (n + 1) (']' :: rest) = max (n + 1) (openBrackets n rest) :=
  rfl

/-- No character but brackets counts. -/
theorem openBrackets_cons {ch : Char} (h : ch ≠ '[' ∧ ch ≠ ']') (n : Nat) (rest : List Char) :
    openBrackets n (ch :: rest) = openBrackets n rest := by
  rw [openBrackets, if_neg h.1, if_neg h.2]
  exact Nat.max_eq_right (le_openBrackets n rest)

theorem openBrackets_append {text : List Char} (h : ∀ ch ∈ text, ch ≠ '[' ∧ ch ≠ ']') (n : Nat)
    (rest : List Char) : openBrackets n (text ++ rest) = openBrackets n rest := by
  induction text with
  | nil => rfl
  | cons ch text ih =>
    rw [List.cons_append, openBrackets_cons (h ch (by simp)),
      ih fun c hc => h c (List.mem_cons_of_mem _ hc)]

theorem Blank.openBrackets_append (b : Blank) (n : Nat) (rest : List Char) :
    openBrackets n (b.chars ++ rest) = openBrackets n rest := by
  refine Formula.openBrackets_append (fun ch hch => ?_) n rest
  have hspace := b.isSpace_of_mem ch hch
  constructor <;> rintro rfl <;> exact absurd hspace (by decide)

theorem Blank.openBrackets_append_cons (b : Blank) {ch : Char} (h : ch ≠ '[' ∧ ch ≠ ']') (n : Nat)
    (rest : List Char) : openBrackets n (b.chars ++ ch :: rest) = openBrackets n rest := by
  rw [b.openBrackets_append, openBrackets_cons h]

theorem Keyword.openBrackets_append (keyword : Keyword) (n : Nat) (rest : List Char) :
    openBrackets n (keyword.text ++ rest) = openBrackets n rest := by
  refine Formula.openBrackets_append ?_ n rest
  rcases keyword with - | - | - | - | - <;> simp [text]

theorem Numeral.openBrackets_append (numeral : Numeral) (n : Nat) (rest : List Char) :
    openBrackets n (numeral.text ++ rest) = openBrackets n rest := by
  have hdigits : openBrackets n (numeral.digits ++ rest) = openBrackets n rest := by
    refine Formula.openBrackets_append (fun ch hch => ?_) n rest
    have hdigit := numeral.isDigit_of_mem ch hch
    constructor <;> rintro rfl <;> exact absurd hdigit (by decide)
  rw [text, List.append_assoc]
  rcases numeral.sign with - | sign
  · exact hdigits
  · rw [← hdigits]
    exact openBrackets_cons (by cases sign <;> decide) n _

section Derivations

variable {access : Bool}

mutual

/-- Every bracket of a tree that is open takes a level of nesting. -/
theorem Tree.openBrackets_le : ∀ {k : Kind} (t : Tree access k) (n : Nat) (rest : List Char),
    openBrackets n (t.spell rest) ≤ max (n + t.nesting) (openBrackets n rest)
  | _, .chain first tail, n, rest => by
    have hfirst := first.openBrackets_le n (tail.spell rest)
    have htail := tail.openBrackets_le n rest
    simp only [Tree.spell, Tree.nesting]
    omega
  | _, .plain value, n, rest => value.openBrackets_le n rest
  | _, .member _ base before name, n, rest => by
    have hbase := base.openBrackets_le n (before.chars ++ '.' :: name.spell rest)
    have hname := name.openBrackets_le n rest
    rw [before.openBrackets_append_cons (by decide)] at hbase
    simp only [Tree.spell, Tree.nesting]
    omega
  | _, .signed before sign operand, n, rest => by
    have hoperand := operand.openBrackets_le n rest
    rw [Tree.spell, Tree.nesting, before.openBrackets_append_cons (by cases sign <;> decide)]
    omega
  | _, .negated before operand, n, rest => by
    have hoperand := operand.openBrackets_le n rest
    rw [Tree.spell, Tree.nesting, before.openBrackets_append_cons (by decide)]
    omega
  | _, .parens before inner after, n, rest => by
    have hinner := inner.openBrackets_le n (after.chars ++ ')' :: rest)
    rw [after.openBrackets_append_cons (by decide)] at hinner
    rw [Tree.spell, Tree.nesting, before.openBrackets_append_cons (by decide)]
    omega
  | _, .emptyArray before inside, n, rest => by
    rw [Tree.spell, Tree.nesting, before.openBrackets_append, openBrackets_open,
      inside.openBrackets_append, openBrackets_close]
  | _, .array before items, n, rest => by
    have hitems := items.openBrackets_le n rest
    rw [Tree.spell, Tree.nesting, before.openBrackets_append, openBrackets_open]
    omega
  | _, .word before keyword, n, rest => by
    rw [Tree.spell, before.openBrackets_append, keyword.openBrackets_append]
    exact Nat.le_max_right ..
  | _, .number before numeral, n, rest => by
    rw [Tree.spell, before.openBrackets_append, numeral.openBrackets_append]
    exact Nat.le_max_right ..

theorem Tail.openBrackets_le : ∀ {l : Level} (t : Tail access l) (n : Nat) (rest : List Char),
    openBrackets n (t.spell rest) ≤ max (n + t.nesting) (openBrackets n rest)
  | _, .nil, n, rest => Nat.le_max_right ..
  | _, .cons before op _ operand tail, n, rest => by
    have hoperand := operand.openBrackets_le n (tail.spell rest)
    have htail := tail.openBrackets_le n rest
    rw [Tail.spell, Tail.nesting, before.openBrackets_append_cons (by cases op <;> decide)]
    omega

/-- The bracket around the items is open already, and closed after them. -/
theorem Items.openBrackets_le : ∀ (t : Items access) (n : Nat) (rest : List Char),
    openBrackets (n + 1) (t.spell rest) ≤ max (n + 1 + t.nesting) (openBrackets n rest)
  | .last item after, n, rest => by
    have hitem := item.openBrackets_le (n + 1) (after.chars ++ ']' :: rest)
    rw [after.openBrackets_append, openBrackets_close] at hitem
    simp only [Items.spell, Items.nesting]
    omega
  | .cons item after items, n, rest => by
    have hitem := item.openBrackets_le (n + 1) (after.chars ++ ',' :: items.spell rest)
    have hitems := items.openBrackets_le n rest
    rw [after.openBrackets_append_cons (by decide)] at hitem
    simp only [Items.spell, Items.nesting]
    omega

end

/-- No more brackets are open in a text than it has levels of nesting. -/
theorem Statement.openBrackets_le (e : Statement access) :
    openBrackets 0 (e.body.spell e.ending) ≤ e.nesting := by
  have hbody := e.body.openBrackets_le 0 e.ending
  have hending : openBrackets 0 e.ending = 0 := by
    have hafter : openBrackets 0 e.after.chars = 0 := by
      rw [← List.append_nil e.after.chars, e.after.openBrackets_append]
      rfl
    rw [ending]
    cases e.semicolon with
    | none => exact hafter
    | some before => rw [before.openBrackets_append_cons (by decide), hafter]
  rw [hending, Nat.zero_add, Nat.max_zero] at hbody
  exact hbody

end Derivations

/-- Where all items have as many brackets open as levels of nesting, and close all
of them, the array does so too. -/
theorem Items.le_openBrackets {access : Bool} {t : Tree access .value}
    {ts : List (Tree access .value)}
    (h : ∀ u ∈ t :: ts, ∀ n rest,
      max (n + u.nesting) (openBrackets n rest) ≤ openBrackets n (u.spell rest))
    (n : Nat) (rest : List Char) :
    max (n + 1 + (Items.ofList t ts).nesting) (openBrackets n rest) ≤
      openBrackets (n + 1) ((Items.ofList t ts).spell rest) := by
  induction ts generalizing t with
  | nil =>
    have hitem := h t (by simp) (n + 1) (']' :: rest)
    rw [openBrackets_close] at hitem
    simp only [ofList, spell, nesting, Tree.spell_alone, Tree.nesting_alone, Blank.chars_none,
      List.nil_append]
    omega
  | cons u us ih =>
    have hitems := ih fun v hv => h v (List.mem_cons_of_mem _ hv)
    have hitem := h t (by simp) (n + 1) (',' :: (ofList u us).spell rest)
    rw [openBrackets_cons (by decide)] at hitem
    simp only [ofList, spell, nesting, Tree.spell_alone, Tree.nesting_alone, Blank.chars_none,
      List.nil_append]
    omega

theorem Object.le_openBrackets (o : Object) (n : Nat) (rest : List Char) :
    max (n + o.tree.nesting) (openBrackets n rest) ≤ openBrackets n (o.tree.spell rest) := by
  have hatom : ∀ n rest, max n (openBrackets n rest) ≤ openBrackets n rest :=
    fun n rest => Nat.max_le.2 ⟨Formula.le_openBrackets n rest, Nat.le_refl _⟩
  induction o using Object.induction generalizing n rest with
  | null | view | boolean | bare =>
    rw [tree, Tree.spell, Tree.nesting, Blank.openBrackets_append, Keyword.openBrackets_append]
    exact hatom n rest
  | integer =>
    rw [tree, Tree.spell, Tree.nesting, Blank.openBrackets_append, Numeral.openBrackets_append]
    exact hatom n rest
  | array id items ih =>
    have hitems : ∀ t ∈ (present items).map tree, ∀ n rest,
        max (n + t.nesting) (openBrackets n rest) ≤ openBrackets n (t.spell rest) :=
      List.forall_mem_map.2 fun o ho => ih o (mem_present.1 ho)
    rw [tree_array]
    cases hp : (present items).map tree with
    | nil =>
      rw [Tree.ofList, Tree.spell, Tree.nesting, Blank.chars_none, List.nil_append,
        List.nil_append, openBrackets_open, openBrackets_close]
    | cons t ts =>
      rw [hp] at hitems
      have harray := Items.le_openBrackets hitems n rest
      rw [Tree.ofList, Tree.spell, Tree.nesting, Blank.chars_none, List.nil_append,
        openBrackets_open]
      omega

end OpenBrackets

/-! ## Codes of shapes -/

namespace Shape

mutual

/-- The printed form of an object, told by its shape. -/
def code : Shape → String
  | .null => "null"
  | .view => "allobj"
  | .boolean value => Object.boolWord value
  | .integer value => toString value.toInt
  | .array items => "[" ++ ",".intercalate (codes items) ++ "]"
  | .bare => "newobj"

def codes : List (Option Shape) → List String
  | [] => []
  | none :: items => codes items
  | some shape :: items => shape.code :: codes items

end

theorem codes_eq (items : List (Option Shape)) : codes items = (present items).map code := by
  induction items with
  | nil => rfl
  | cons slot items ih => cases slot <;> simp [codes, ih]

end Shape

namespace Object

theorem code_shape (o : Object) : o.shape.code = o.code := by
  induction o using Object.induction with
  | null | view | boolean | integer | bare => simp [shape, Shape.code, code]
  | array id items ih =>
    have hcodes : (present items).map (fun o => o.shape.code) = (present items).map code :=
      List.map_congr_left fun o ho => ih o (mem_present.1 ho)
    rw [shape_array, Shape.code, Shape.codes_eq, present_map, List.map_map, code, codes_eq,
      ← hcodes]
    rfl

/-- Absent slots are not printed. -/
theorem code_compact (o : Object) : o.shape.compact.code = o.code := by
  induction o using Object.induction with
  | null | view | boolean | integer | bare => simp [shape, Shape.compact, Shape.code, code]
  | array id items ih =>
    have hcodes : (present items).map (fun o => o.shape.compact.code) =
        (present items).map code :=
      List.map_congr_left fun o ho => ih o (mem_present.1 ho)
    rw [shape_array, Shape.compact_array, present_map, Shape.code, Shape.codes_eq,
      present_map_some, List.map_map, List.map_map, code, codes_eq, ← hcodes]
    rfl

/-! ## Equality -/

mutual

/-- There are neither bare objects nor absent slots in the object. -/
def plain : Object → Bool
  | .bare _ => false
  | .array _ items => plainSlots items
  | _ => true

def plainSlots : List (Option Object) → Bool
  | [] => true
  | none :: _ => false
  | some object :: items => object.plain && plainSlots items

end

theorem plainSlots_iff {items : List (Option Object)} :
    plainSlots items = true ↔ none ∉ items ∧ ∀ o, some o ∈ items → o.plain = true := by
  induction items with
  | nil => simp [plainSlots]
  | cons slot items ih => cases slot <;> simp [plainSlots, ih]; grind

theorem equalSlots_of_shapes {objects : List Object} {items : List (Option Object)}
    (h : items.map (Option.map shape) = objects.map fun o => some o.shape.compact)
    (hequal : ∀ v ∈ objects, ∀ w : Object, w.shape = v.shape.compact → w.equal v = true) :
    equalSlots items (objects.map some) = true := by
  induction objects generalizing items with
  | nil =>
    rw [List.map_eq_nil_iff.1 h]
    rfl
  | cons v objects ih =>
    obtain ⟨slot, items, rfl, hslot, hitems⟩ := List.map_eq_cons_iff.1 h
    obtain ⟨w, rfl, hw⟩ := Option.map_eq_some_iff.1 hslot
    rw [List.map_cons, equalSlots, hequal v (by simp) w hw,
      ih hitems fun v hv => hequal v (List.mem_cons_of_mem _ hv)]
    rfl

/-- Plain objects are told by their shape. -/
theorem equal_of_shape {v w : Object} (hv : v.plain = true) (h : w.shape = v.shape.compact) :
    w.equal v = true := by
  induction v using Object.induction generalizing w with
  | null | view | boolean | integer => cases w <;> simp_all [shape, Shape.compact, equal]
  | bare => simp [plain] at hv
  | array id items ih =>
    obtain ⟨hnone, hplain⟩ := plainSlots_iff.1 hv
    rw [shape_array, Shape.compact_array, present_map, List.map_map] at h
    cases w with
    | array id' items' =>
      rw [shape_array, Shape.array.injEq] at h
      rw [equal, ← map_some_present hnone]
      exact equalSlots_of_shapes h fun v hv w hw =>
        ih v (mem_present.1 hv) (hplain v (mem_present.1 hv)) hw
    | null | view | boolean | integer | bare => simp [shape] at h

end Object

/-! ## Evaluating a printed form -/

/-- What is too deep cannot be evaluated: its brackets take too many levels. -/
theorem depth_le_of_parse_code {held : List Object} {next : ObjectId} {v w : Object}
    (h : (parse held v.code next).1 = .ok w) : v.depth ≤ maxNesting := by
  -- whatever derivation was found, its text is the printed form
  obtain ⟨e, htext, -, hn, -⟩ := parse_ok h
  have hbody : e.body.spell e.ending = v.code.toList := by
    rw [← htext]
    exact String.toList_ofList.symm
  have hopen := v.le_openBrackets 0 []
  rw [v.spell_tree, List.append_nil, v.nesting_tree, ← hbody] at hopen
  have hle := e.openBrackets_le
  omega

theorem parse_code_of_depth_le (held : List Object) (next : ObjectId) {v : Object}
    (h : v.depth ≤ maxNesting) :
    ∃ w, (parse held v.code next).1 = .ok w ∧ w.shape = v.shape.compact := by
  let e : Statement false := { body := v.tree.alone, semicolon := none, after := .none }
  have htext : e.text = v.code := by
    show String.ofList (v.tree.alone.spell []) = v.code
    rw [Tree.spell_alone, v.spell_tree, List.append_nil, String.ofList_toList]
  have hn : e.nesting = v.depth := v.tree.nesting_alone.trans v.nesting_tree
  rw [← htext]
  exact parse_of_value held next e (hn.trans_le h) (v.tree.value_alone.trans v.value_tree)

/-- The printed form is evaluated exactly if arrays are not nested too deep. The
result prints the same and is the object up to identifiers, without its absent
slots; it equals the object unless that has absent slots or bare objects. -/
theorem parse_code (held : List Object) (next : ObjectId) (v : Object) :
    ((∃ w, (parse held v.code next).1 = .ok w) ↔ v.depth ≤ maxNesting) ∧
      ∀ w, (parse held v.code next).1 = .ok w →
        w.code = v.code ∧ w.shape = v.shape.compact ∧ (v.plain = true → w == v) := by
  refine ⟨⟨fun ⟨w, hw⟩ => depth_le_of_parse_code hw, fun h => ?_⟩, fun w hw => ?_⟩
  · obtain ⟨w, hw, -⟩ := parse_code_of_depth_le held next h
    exact ⟨w, hw⟩
  · obtain ⟨w', hw', hshape⟩ := parse_code_of_depth_le held next (depth_le_of_parse_code hw)
    obtain rfl : w' = w := Except.ok.inj (hw'.symm.trans hw)
    refine ⟨?_, hshape, fun hplain => Object.equal_of_shape hplain hshape⟩
    rw [← w'.code_shape, hshape, v.code_compact]

theorem parse_code_nested :
    let v : Object := .array 9 [some (.integer 5 (-3)), none, some (.array 7 [some (.bare 6)])]
    v.depth ≤ maxNesting ∧ ∃ w, (parse [] v.code 10).1 = .ok w ∧ w.code = "[-3,[newobj]]" := by
  intro v
  have hdepth : v.depth ≤ maxNesting := by decide
  obtain ⟨w, hw⟩ := (parse_code [] 10 v).1.2 hdepth
  exact ⟨hdepth, w, hw, ((parse_code [] 10 v).2 w hw).1.trans rfl⟩

end Parley.Formula
