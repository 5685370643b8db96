import Parley.Formula.Object

/-!
# The registry of live objects

An object is alive while something refers to it. The four singletons always
are; any other object is alive while it is part of an object that somebody
holds: a slot of a table, an operand that a rule is still working with, or a
result that was not given up yet. The registry is therefore a view of the
objects that are held.

- `objects`: every live object, those that are reached twice repeated.
- `lookup`: the live object with a given identifier.
- `size`: how many objects are alive.
-/

namespace Parley.Formula.Registry

/-- The objects that need nobody to hold them, by identifier. -/
def singletons : List Object :=
  [.null, .view, .boolean true, .boolean false]

/-- All live objects, given those that are held. -/
def objects (held : List Object) : List Object :=
  singletons ++ held.flatMap Object.parts

/-- The live object with this identifier. -/
def lookup (held : List Object) (id : ObjectId) : Option Object :=
  (objects held).find? fun object => object.id == id

/-- The identifiers of the live objects, each once. -/
def ids (held : List Object) : List ObjectId :=
  ((objects held).map Object.id).eraseDups

/-- The number of live objects. -/
def size (held : List Object) : Nat :=
  (ids held).length

theorem mem_objects_of_held {held : List Object} {object : Object} (h : object ∈ held) :
    object ∈ objects held :=
  List.mem_append.2 (.inr (List.mem_flatMap.2 ⟨object, h, object.mem_parts_self⟩))

theorem size_nil : size [] = 4 := by
  decide

end Parley.Formula.Registry
