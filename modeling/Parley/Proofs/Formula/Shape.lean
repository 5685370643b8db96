import Parley.Formula.Operation
import Parley.Formula.Token

/-!
# Objects up to their identifiers

The shape of an object is what remains of it without identifiers. The operations
on objects only look at shapes, and what they yield is told here in terms of
mathematical integers, independently of how it is computed.

- `Object.induction`: induction over objects, slots included.
- `Shape`, `Object.shape`: objects without identifiers.
- `Shape.compact`: without the absent slots.
- `Object.depth`: how deep arrays are nested.
- `Shape.apply`, `Shape.signed`, `Shape.negated`: the operations, each with a
  value or the reason why there is none.
- `Object.apply_agrees` and its like: the operations on objects agree with them.
-/

namespace Parley.Formula

/-- An object without identifiers. -/
inductive Shape where
  | null
  | view
  | boolean (value : Bool)
  | integer (value : Int64)
  | array (items : List (Option Shape))
  | bare

/-- The slots that are not absent. -/
def present {α : Type} (slots : List (Option α)) : List α :=
  slots.filterMap fun slot => slot

section Present

variable {α β : Type}

@[simp] theorem present_nil : present ([] : List (Option α)) = [] := rfl

@[simp] theorem present_none (slots : List (Option α)) :
    present (none :: slots) = present slots := rfl

@[simp] theorem present_some (a : α) (slots : List (Option α)) :
    present (some a :: slots) = a :: present slots := rfl

@[simp] theorem mem_present {a : α} {slots : List (Option α)} :
    a ∈ present slots ↔ some a ∈ slots := by
  simp [present]

@[simp] theorem present_map_some (f : α → β) (as : List α) :
    present (as.map fun a => some (f a)) = as.map f := by
  induction as with
  | nil => rfl
  | cons a as ih => simp [ih]

theorem present_map (f : α → β) (slots : List (Option α)) :
    present (slots.map (Option.map f)) = (present slots).map f := by
  induction slots with
  | nil => rfl
  | cons slot slots ih => cases slot <;> simp [ih]

/-- Where no slot is absent, the present ones are all there are. -/
theorem map_some_present {slots : List (Option α)} (h : none ∉ slots) :
    (present slots).map some = slots := by
  induction slots with
  | nil => rfl
  | cons slot slots ih =>
    cases slot with
    | none => simp at h
    | some a => simp [ih fun hn => h (List.mem_cons_of_mem _ hn)]

end Present

namespace Object

/-! ## Induction -/

/-- What holds of an array whenever it holds of the items holds of every object. -/
@[elab_as_elim]
theorem induction {P : Object → Prop} (null : P .null) (view : P .view)
    (boolean : ∀ value, P (.boolean value)) (integer : ∀ id value, P (.integer id value))
    (array : ∀ id items, (∀ o, some o ∈ items → P o) → P (.array id items))
    (bare : ∀ id, P (.bare id)) (o : Object) : P o := by
  refine @Object.rec P (fun items => ∀ o, some o ∈ items → P o) (fun slot => ∀ o ∈ slot, P o)
    null view boolean integer array bare ?_ ?_ ?_ ?_ o
  · exact fun _ h => nomatch h
  · rintro slot items hslot hitems o h
    rcases List.mem_cons.1 h with heq | hmem
    · exact hslot o heq.symm
    · exact hitems o hmem
  · exact fun _ h => nomatch h
  · rintro o ho _ heq
    cases heq
    exact ho

/-! ## Shapes -/

mutual

def shape : Object → Shape
  | .null => .null
  | .view => .view
  | .boolean value => .boolean value
  | .integer _ value => .integer value
  | .array _ items => .array (slotShapes items)
  | .bare _ => .bare

/-- The shapes of slots; absent ones stay absent. -/
def slotShapes : List (Option Object) → List (Option Shape)
  | [] => []
  | none :: items => none :: slotShapes items
  | some object :: items => some object.shape :: slotShapes items

end

theorem slotShapes_eq (items : List (Option Object)) :
    slotShapes items = items.map (Option.map shape) := by
  induction items with
  | nil => rfl
  | cons slot items ih => cases slot <;> simp [slotShapes, ih]

@[simp] theorem shape_array (id : ObjectId) (items : List (Option Object)) :
    (Object.array id items).shape = .array (items.map (Option.map shape)) := by
  rw [shape, slotShapes_eq]

theorem codes_eq (items : List (Option Object)) : codes items = (present items).map code := by
  induction items with
  | nil => rfl
  | cons slot items ih => cases slot <;> simp [codes, ih]

/-! ## Depth -/

mutual

/-- How deep arrays are nested in an object. -/
def depth : Object → Nat
  | .array _ items => slotDepth items + 1
  | _ => 0

/-- The depth of the deepest slot. -/
def slotDepth : List (Option Object) → Nat
  | [] => 0
  | none :: items => slotDepth items
  | some object :: items => max object.depth (slotDepth items)

end

@[simp] theorem depth_array (id : ObjectId) (items : List (Option Object)) :
    (Object.array id items).depth = slotDepth items + 1 := by
  rw [depth]

theorem slotDepth_le_iff {items : List (Option Object)} {n : Nat} :
    slotDepth items ≤ n ↔ ∀ o, some o ∈ items → o.depth ≤ n := by
  induction items with
  | nil => simp [slotDepth]
  | cons slot items ih =>
    cases slot with
    | none => simp [slotDepth, ih]
    | some a =>
      rw [slotDepth, Nat.max_le, ih]
      simp only [List.mem_cons, Option.some.injEq]
      constructor
      · rintro ⟨ha, hrest⟩ o (rfl | ho)
        · exact ha
        · exact hrest o ho
      · exact fun h => ⟨h a (.inl rfl), fun o ho => h o (.inr ho)⟩

/-- A measure that no item of an array exceeds is not exceeded by anything inside. -/
theorem le_of_mem_parts {f : Object → Nat}
    (hf : ∀ id items o, some o ∈ items → f o ≤ f (.array id items)) {a o : Object}
    (h : a ∈ o.parts) : f a ≤ f o := by
  induction o using Object.induction with
  | null | view | boolean | integer | bare => simp_all [parts]
  | array id items ih =>
    rw [parts, List.mem_cons] at h
    rcases h with rfl | h
    · exact Nat.le_refl _
    · -- of the slots, only that they are among the items is needed
      have hslots : ∀ slots, (∀ x, some x ∈ slots → some x ∈ items) → a ∈ slotParts slots →
          f a ≤ f (.array id items) := by
        intro slots
        induction slots with
        | nil => simp [slotParts]
        | cons slot slots ihs =>
          intro hsub hmem
          have hrest := ihs fun x hx => hsub x (List.mem_cons_of_mem _ hx)
          cases slot with
          | none => exact hrest (by simpa [slotParts] using hmem)
          | some x =>
            rw [slotParts, List.mem_append] at hmem
            rcases hmem with hx | hx
            · have hxi : some x ∈ items := hsub x (by simp)
              exact Nat.le_trans (ih x hxi hx) (hf id items x hxi)
            · exact hrest hx
      exact hslots items (fun _ hx => hx) h

/-- What is looked up does not exceed all that is alive. -/
theorem le_of_member {f : Object → Nat}
    (hf : ∀ id items o, some o ∈ items → f o ≤ f (.array id items)) {n : Nat}
    (hsingle : ∀ o ∈ Registry.singletons, f o ≤ n) (hinteger : ∀ id value, f (.integer id value) ≤ n)
    {held : List Object} (hheld : ∀ o ∈ held, f o ≤ n) {a key object : Object}
    (h : a.member held key = some object) : f object ≤ n := by
  match a, key with
  | .view, .integer id value =>
    rw [member] at h
    split at h
    · cases h
    · have hmem := List.mem_of_find?_eq_some h
      rcases List.mem_append.1 hmem with ho | hpart
      · exact hsingle object ho
      · obtain ⟨o, ho, hparts⟩ := List.mem_flatMap.1 hpart
        refine Nat.le_trans (le_of_mem_parts hf hparts) ?_
        rcases List.mem_cons.1 ho with rfl | ho
        · exact hinteger id value
        · exact hheld o ho

/-- No item is as deep as its array. -/
theorem depth_le_depth_array (id : ObjectId) (items : List (Option Object)) (o : Object)
    (h : some o ∈ items) : o.depth ≤ (Object.array id items).depth := by
  rw [depth_array]
  exact Nat.le_succ_of_le (slotDepth_le_iff.1 (Nat.le_refl _) o h)

end Object

/-! ## Absent slots -/

namespace Shape

mutual

/-- The shape without absent slots, at every level. -/
def compact : Shape → Shape
  | .array items => .array (compactSlots items)
  | shape => shape

def compactSlots : List (Option Shape) → List (Option Shape)
  | [] => []
  | none :: items => compactSlots items
  | some shape :: items => some shape.compact :: compactSlots items

end

theorem compactSlots_eq (items : List (Option Shape)) :
    compactSlots items = (present items).map fun shape => some shape.compact := by
  induction items with
  | nil => rfl
  | cons slot items ih => cases slot <;> simp [compactSlots, ih]

@[simp] theorem compact_array (items : List (Option Shape)) :
    (Shape.array items).compact = .array ((present items).map fun shape => some shape.compact) := by
  rw [compact, compactSlots_eq]

end Shape

/-! ## Operations -/

/-- Why an operation has no result. -/
inductive Undefined where
  /-- The operation is not for operands of these kinds. -/
  | mismatch
  | divisionByZero

namespace Shape

section Families

/-- Integers are those of mathematics; the result is cut to 64 bits. -/
def arithmetic (f : Int → Int → Int) : Shape → Shape → Except Undefined Shape
  | .integer a, .integer b => .ok (.integer (.ofInt (f a.toInt b.toInt)))
  | _, _ => .error .mismatch

/-- The same with a divisor. -/
def quotient (f : Int → Int → Int) : Shape → Shape → Except Undefined Shape
  | .integer a, .integer b =>
    if b.toInt = 0 then .error .divisionByZero
    else .ok (.integer (.ofInt (f a.toInt b.toInt)))
  | _, _ => .error .mismatch

def logic (f : Bool → Bool → Bool) : Shape → Shape → Except Undefined Shape
  | .boolean a, .boolean b => .ok (.boolean (f a b))
  | _, _ => .error .mismatch

/-- Integers are added, and arrays put one after the other. -/
def sum : Shape → Shape → Except Undefined Shape
  | .array as, .array bs => .ok (.array (as ++ bs))
  | a, b => arithmetic (· + ·) a b

end Families

/-- The value of an operator. Quotients are truncated. -/
def apply (op : BinaryOp) (a b : Shape) : Except Undefined Shape :=
  match op with
  | .add => sum a b
  | .subtract => arithmetic (· - ·) a b
  | .multiply => arithmetic (· * ·) a b
  | .divide => quotient Int.tdiv a b
  | .modulo => quotient Int.tmod a b
  | .and => logic (· && ·) a b
  | .or => logic (· || ·) a b
  | .xor => logic (· ^^ ·) a b

/-- The value of a sign in front of an operand. -/
def signed : Sign → Shape → Except Undefined Shape
  | .plus, .integer a => .ok (.integer a)
  | .minus, .integer a => .ok (.integer (.ofInt (-a.toInt)))
  | _, _ => .error .mismatch

def negated : Shape → Except Undefined Shape
  | .boolean a => .ok (.boolean !a)
  | _ => .error .mismatch

end Shape

/-! ## Agreement -/

/-- The shape of what an operation results in. -/
def Yield.shape : Yield → Shape
  | .existing object => object.shape
  | .fresh content => (content.publish 0).shape

theorem Yield.shape_settle (yielded : Yield) (next : ObjectId) :
    (yielded.settle next).1.shape = yielded.shape := by
  cases yielded with
  | existing object => rfl
  | fresh content => cases content <;> simp [settle, shape, Content.publish, Object.shape]

/-- An outcome is the one expected, up to identifiers. -/
def Outcome.Agrees (outcome : Outcome Fault Yield) : Except Undefined Shape → Prop
  | .ok shape => ∃ yielded, outcome = .found yielded ∧ yielded.shape = shape
  | .error .mismatch => outcome = .missing
  | .error .divisionByZero => outcome = .fault .divisionByZero

namespace Object

/-- The object with a sign in front of it. -/
def withSign : Sign → Object → Option Yield
  | .plus, a => a.plus
  | .minus, a => a.minus

/-- An integer of 64 bits is known by its value, cut to 64 bits. -/
theorem eq_ofInt {x : Int64} {n : Int} (h : x.toInt = n.bmod Int64.size) : x = .ofInt n :=
  Int64.toInt_inj.1 (h.trans Int64.toInt_ofInt.symm)

theorem withSign_agrees (sign : Sign) (a : Object) :
    Outcome.Agrees (.ofOption (a.withSign sign)) (a.shape.signed sign) := by
  cases sign <;> cases a <;>
    simp [withSign, plus, minus, shape, Shape.signed, Outcome.ofOption, Outcome.Agrees,
      Yield.shape, Content.publish]

theorem negate_agrees (a : Object) :
    Outcome.Agrees (.ofOption a.negate) a.shape.negated := by
  cases a <;>
    simp [negate, shape, Shape.negated, Outcome.ofOption, Outcome.Agrees, Yield.shape]

section Families

variable {f : Int64 → Int64 → Int64} {g : Int → Int → Int}

theorem arithmetic_agrees (h : ∀ x y, (f x y).toInt = (g x.toInt y.toInt).bmod Int64.size)
    (a b : Object) :
    Outcome.Agrees (.ofOption (arithmetic f a b)) (Shape.arithmetic g a.shape b.shape) := by
  cases a <;> cases b <;>
    simp [arithmetic, shape, Shape.arithmetic, Outcome.ofOption, Outcome.Agrees]
  case integer.integer x j y => exact congrArg Shape.integer (eq_ofInt (h x y))

theorem quotient_agrees (h : ∀ x y, (f x y).toInt = (g x.toInt y.toInt).bmod Int64.size)
    (a b : Object) :
    Outcome.Agrees (quotient f a b) (Shape.quotient g a.shape b.shape) := by
  cases a <;> cases b <;> simp [quotient, shape, Shape.quotient, Outcome.Agrees]
  case integer.integer i x j y =>
    have hzero : y.toInt = 0 ↔ y = 0 := Int64.toInt_inj (y := 0)
    by_cases hy : y = 0
    · simp [hy]
    · simp only [hy, hzero, if_false]
      exact ⟨_, rfl, congrArg Shape.integer (eq_ofInt (h x y))⟩

theorem logic_agrees {f g : Bool → Bool → Bool} (h : ∀ x y, f x y = g x y) (a b : Object) :
    Outcome.Agrees (.ofOption (logic f a b)) (Shape.logic g a.shape b.shape) := by
  cases a <;> cases b <;>
    simp [logic, shape, Shape.logic, Outcome.ofOption, Outcome.Agrees, Yield.shape, h]

theorem add_agrees (a b : Object) :
    Outcome.Agrees (.ofOption (a.add b)) (Shape.sum a.shape b.shape) := by
  have hints := arithmetic_agrees Int64.toInt_add a b
  cases a <;> cases b <;> try exact hints
  -- an empty array on the right leaves the left one as it is
  case array.array i as j bs =>
    cases bs <;>
      simp [add, Shape.sum, Outcome.ofOption, Outcome.Agrees, Yield.shape, Content.publish]

end Families

/-- Operators on objects come to what they come to on shapes. -/
theorem apply_agrees (op : BinaryOp) (a b : Object) :
    Outcome.Agrees (a.apply op b) (Shape.apply op a.shape b.shape) := by
  cases op with
  | add => exact add_agrees a b
  | subtract => exact arithmetic_agrees Int64.toInt_sub a b
  | multiply => exact arithmetic_agrees Int64.toInt_mul a b
  | divide => exact quotient_agrees Int64.toInt_div a b
  | modulo =>
    -- the remainder fits already, so that cutting it changes nothing
    exact quotient_agrees (fun x y => by rw [← Int64.toInt_mod, Int64.toInt_bmod_size]) a b
  | and => exact logic_agrees (fun _ _ => rfl) a b
  | or => exact logic_agrees (fun _ _ => rfl) a b
  | xor => exact logic_agrees (fun x y => by cases x <;> cases y <;> rfl) a b

end Object

end Parley.Formula
