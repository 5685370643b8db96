/-!
# Objects

The values that formulas range over. Every object has an identifier; the four
singletons own the identifiers 0 to 3 and every other object gets a number of
its own when it is made.

- `Object`: the values, with their identifiers.
- `Object.code`: the printed form, which is itself a formula.
- `Object.debug`: the printed form that shows identifiers as well.
- `Object.equal`: equality by structure, except that bare objects are equal only
  to themselves.
- `Object.parts`: an object together with everything inside it.
-/

namespace Parley.Formula

/-- The number that tells an object from every other. -/
abbrev ObjectId := Nat

/-- A value of a formula. Objects never change once made. -/
inductive Object where
  | null
  /-- The view through which live objects are looked up by identifier. -/
  | view
  | boolean (value : Bool)
  | integer (id : ObjectId) (value : Int64)
  /-- A list of slots; a slot may be absent. -/
  | array (id : ObjectId) (items : List (Option Object))
  /-- An object that has nothing but its identity. -/
  | bare (id : ObjectId)

namespace Object

/-- The first identifier that is given to an object made while formulas run. -/
def firstFreshId : ObjectId := 4

def id : Object → ObjectId
  | .null => 0
  | .view => 1
  | .boolean value => if value then 2 else 3
  | .integer id _ => id
  | .array id _ => id
  | .bare id => id

def integer? : Object → Option Int64
  | .integer _ value => some value
  | _ => none

def boolean? : Object → Option Bool
  | .boolean value => some value
  | _ => none

/-! ## Printed forms -/

/-- The word for a truth value. -/
def boolWord (value : Bool) : String :=
  if value then "true" else "false"

mutual

/-- The printed form of an object. Absent slots of an array are skipped. -/
def code : Object → String
  | .null => "null"
  | .view => "allobj"
  | .boolean value => boolWord value
  | .integer _ value => toString value.toInt
  | .array _ items => "[" ++ ",".intercalate (codes items) ++ "]"
  | .bare _ => "newobj"

/-- The printed forms of the slots that are present. -/
def codes : List (Option Object) → List String
  | [] => []
  | none :: items => codes items
  | some object :: items => object.code :: codes items

end

mutual

/-- The printed form that shows the kind, the absent slots and the identifier. -/
def debug : Object → String
  | .null => "Null#0"
  | .view => "ViewForAllObjects#1"
  | .boolean value => "Boolean(" ++ boolWord value ++ ")#" ++ (if value then "2" else "3")
  | .integer id value => "Integer(" ++ toString value.toInt ++ ")#" ++ toString id
  | .array id items => "Array([" ++ ", ".intercalate (debugSlots items) ++ "])#" ++ toString id
  | .bare id => "Opaque#" ++ toString id

/-- The debug forms of all slots, the absent ones included. -/
def debugSlots : List (Option Object) → List String
  | [] => []
  | none :: items => "None" :: debugSlots items
  | some object :: items => ("Some(" ++ object.debug ++ ")") :: debugSlots items

end

/-! ## Equality -/

mutual

/-- Objects compare by structure; a bare object is equal only to itself. -/
def equal : Object → Object → Bool
  | .null, .null => true
  | .view, .view => true
  | .boolean a, .boolean b => a == b
  | .integer _ a, .integer _ b => a == b
  | .array _ a, .array _ b => equalSlots a b
  | .bare a, .bare b => a == b
  | _, _ => false

/-- Slots compare one by one; an absent slot is equal only to an absent slot. -/
def equalSlots : List (Option Object) → List (Option Object) → Bool
  | [], [] => true
  | none :: as, none :: bs => equalSlots as bs
  | some a :: as, some b :: bs => a.equal b && equalSlots as bs
  | _, _ => false

end

instance : BEq Object := ⟨equal⟩

/-! ## Parts -/

mutual

/-- An object and everything inside it, at any depth. -/
def parts : Object → List Object
  | .array id items => .array id items :: slotParts items
  | object => [object]

/-- Everything inside the slots that are present. -/
def slotParts : List (Option Object) → List Object
  | [] => []
  | none :: items => slotParts items
  | some object :: items => object.parts ++ slotParts items

end

theorem mem_parts_self (object : Object) : object ∈ object.parts := by
  cases object <;> simp [parts]

end Object

end Parley.Formula
