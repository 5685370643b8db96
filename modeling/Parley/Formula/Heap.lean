import Parley.Formula.Operation

/-!
# Objects in memory

Objects are kept in memory as long as somebody refers to them. Each reference to an
object is counted: a slot of a table, an operand of a rule and an item of an array that
is itself in memory are one reference each. With its last reference an object is
released, which gives up the references to its items in turn.

The registry finds objects by their identifiers. Its table does not count as a reference;
an object leaves the table when it is released. The four singletons are referred to by
the registry itself, so that they are never released.

- `Cell`: an object and the number of references to it.
- `Heap`: all cells, the keys of the table and the next identifier.
- `Heap.publish`: puts a new object into memory and into the table.
- `Heap.retain`, `Heap.release`: one more reference to an object, and fewer.
- `Heap.lookup`, `Heap.member`: looking an object up.
- `Heap.settle`: takes a reference to what an operation results in.
-/

namespace Parley.Formula

/-- The objects that an object refers to. -/
def Object.items : Object → List Object
  | .array _ items => items.filterMap fun slot => slot
  | _ => []

/-- The objects that a new object will refer to. -/
def Content.items : Content → List Object
  | .array items => items.filterMap fun slot => slot
  | _ => []

@[simp] theorem Content.items_publish (id : ObjectId) (content : Content) :
    (content.publish id).items = content.items := by
  cases content <;> rfl

/-- An object and how many references there are to it. -/
structure Cell where
  object : Object
  references : Nat

namespace Cell

def id (cell : Cell) : ObjectId :=
  cell.object.id

/-- Whether the object is still in memory. -/
def isLive (cell : Cell) : Bool :=
  cell.references != 0

/-- The objects that the object in a cell refers to, as long as it is in memory. -/
def items (cell : Cell) : List Object :=
  if cell.isLive then cell.object.items else []

/-- The same object with another number of references. -/
def recount (f : Nat → Nat) (cell : Cell) : Cell :=
  { cell with references := f cell.references }

@[simp] theorem object_recount (f : Nat → Nat) (cell : Cell) :
    (cell.recount f).object = cell.object := rfl

@[simp] theorem id_recount (f : Nat → Nat) (cell : Cell) : (cell.recount f).id = cell.id := rfl

@[simp] theorem references_recount (f : Nat → Nat) (cell : Cell) :
    (cell.recount f).references = f cell.references := rfl

theorem items_recount_pred_sublist (cell : Cell) :
    (cell.recount (· - 1)).items.Sublist cell.items := by
  by_cases hzero : cell.references = 0
  · simp [items, isLive, hzero]
  · by_cases hone : cell.references - 1 = 0
    · simp [items, isLive, hone]
    · simp [items, isLive, hone, hzero]

end Cell

/-- The memory for objects, and the registry through which they are found. -/
structure Heap where
  /-- A cell for each object that was ever made, in the order in which they were made.
  Those of objects that were released have no references. -/
  cells : List Cell
  /-- The identifiers in the table of the registry. -/
  keys : List ObjectId
  /-- The identifier that is drawn next. -/
  next : ObjectId

namespace Heap

/-- The heap before any object was made. -/
def start : Heap where
  cells := Registry.singletons.map fun object => ⟨object, 1⟩
  keys := Registry.singletons.map Object.id
  next := Object.firstFreshId

/-- Every object that was ever made, in that order. -/
def made (h : Heap) : List Object :=
  h.cells.map Cell.object

/-- The cell of the object with this identifier. -/
def cell? (h : Heap) (id : ObjectId) : Option Cell :=
  h.cells.find? fun cell => cell.id == id

/-- The references that objects in memory have to their items. -/
def inner (h : Heap) : List Object :=
  h.cells.flatMap Cell.items

/-! ## Counting -/

/-- Changes the number of references to an object. -/
def recount (h : Heap) (f : Nat → Nat) (id : ObjectId) : Heap :=
  { h with cells := h.cells.map fun cell => if cell.id = id then cell.recount f else cell }

/-- Takes an object without references out of the table. -/
def forget (h : Heap) (id : ObjectId) : Heap :=
  { h with keys := h.keys.filter fun key => key != id || (h.cell? id).any Cell.isLive }

/-- One more reference to an object. -/
def retain (h : Heap) (object : Object) : Heap :=
  h.recount (· + 1) object.id

/-- One more reference to each of these objects. -/
def retainAll (h : Heap) (objects : List Object) : Heap :=
  objects.foldl retain h

/-- Counting down, a heap only loses references between objects. -/
theorem inner_recount_pred_sublist (h : Heap) (id : ObjectId) :
    (h.recount (· - 1) id).inner.Sublist h.inner := by
  obtain ⟨cells, keys, next⟩ := h
  induction cells with
  | nil => exact List.Sublist.refl _
  | cons cell cells ih =>
    refine List.Sublist.append ?_ ih
    by_cases hid : cell.id = id
    · simpa only [hid, if_true] using cell.items_recount_pred_sublist
    · simp only [hid, if_false, List.Sublist.refl]

/-- An object that loses its last reference had references to its items until then. -/
theorem length_items_add_inner {h : Heap} {id : ObjectId} {gone : Object}
    (found : h.cell? id = some ⟨gone, 1⟩) :
    gone.items.length + (h.recount (· - 1) id).inner.length ≤ h.inner.length := by
  obtain ⟨cells, keys, next⟩ := h
  induction cells with
  | nil => cases found
  | cons cell cells ih =>
    by_cases hid : cell.id = id
    · obtain rfl : cell = ⟨gone, 1⟩ := by simpa [cell?, hid] using found
      have hrest := (inner_recount_pred_sublist ⟨cells, keys, next⟩ id).length_le
      simp only [inner, recount, List.map_cons, hid, if_true, List.flatMap_cons] at hrest ⊢
      simp [Cell.items, Cell.isLive] at hrest ⊢
      exact hrest
    · have hrest := ih (by simpa [cell?, hid] using found)
      simp only [inner, recount, List.map_cons, hid, if_false, List.flatMap_cons,
        List.length_append] at hrest ⊢
      omega

/-- Gives up references, one after the other. An object that loses its last one leaves
the table, and then gives up its references to its items. -/
def release (h : Heap) : List Object → Heap
  | [] => h
  | object :: rest =>
    match found : h.cell? object.id with
    | some ⟨gone, 1⟩ =>
      ((h.recount (· - 1) object.id).forget object.id).release (gone.items ++ rest)
    | _ => (h.recount (· - 1) object.id).release rest
termination_by todo => todo.length + h.inner.length
decreasing_by
  · have hle := length_items_add_inner found
    simp only [List.length_append, List.length_cons]
    change _ + (h.recount (· - 1) object.id).inner.length < _
    omega
  · have hle := (inner_recount_pred_sublist h object.id).length_le
    simp only [List.length_cons]
    omega

@[simp] theorem release_nil (h : Heap) : h.release [] = h := by
  rw [release]

theorem release_last {h : Heap} {object gone : Object} (rest : List Object)
    (hlast : h.cell? object.id = some ⟨gone, 1⟩) :
    h.release (object :: rest) =
      ((h.recount (· - 1) object.id).forget object.id).release (gone.items ++ rest) := by
  rw [release]
  split
  next found =>
    obtain ⟨rfl⟩ := Option.some.inj (found.symm.trans hlast)
    rfl
  next hother => exact absurd hlast (hother gone)

theorem release_shared {h : Heap} {object : Object} (rest : List Object)
    (hshared : ∀ gone, h.cell? object.id ≠ some ⟨gone, 1⟩) :
    h.release (object :: rest) = (h.recount (· - 1) object.id).release rest := by
  rw [release]
  split
  next found => exact absurd found (hshared _)
  next => rfl

/-- References may be given up a few at a time. -/
theorem release_append (h : Heap) (todo more : List Object) :
    h.release (todo ++ more) = (h.release todo).release more := by
  fun_induction release h todo with
  | case1 h => rfl
  | case2 h object rest gone hlast ih =>
    rw [List.cons_append, release_last _ hlast, ← ih, List.append_assoc]
  | case3 h object rest hshared ih =>
    rw [List.cons_append, release_shared _ hshared, ih]

/-! ## The registry -/

/-- The first identifier from `next` on that is not taken. At most as many are taken as
there are keys in `room`. -/
def claim (keys : List ObjectId) : (room : List ObjectId) → (next : ObjectId) → ObjectId
  | [], next => next
  | _ :: room, next => if next ∈ keys then claim keys room (next + 1) else next

/-- Puts a new object into memory and into the table, under an identifier that nobody
has. Whoever asked for it has the first reference to it, and the references to its items
become those of the object. -/
def publish (h : Heap) (content : Content) : Object × Heap :=
  let id := claim h.keys h.keys h.next
  let object := content.publish id
  (object, { cells := h.cells ++ [⟨object, 1⟩], keys := h.keys ++ [id], next := id + 1 })

/-- The object that the table has under this identifier, if it is still in memory. -/
def lookup (h : Heap) (id : ObjectId) : Option Object :=
  if id ∈ h.keys then ((h.cell? id).filter Cell.isLive).map Cell.object else none

/-- The object that an integer names as a member of the view. -/
def member (h : Heap) (a b : Object) : Option Object :=
  match a, b with
  | .view, .integer _ value => if value < 0 then none else h.lookup value.toInt.toNat
  | _, _ => none

/-! ## Operations -/

/-- Takes a reference to what an operation results in. A new object gets references of
its own to its items. -/
def settle (h : Heap) : Yield → Object × Heap
  | .existing object => (object, h.retain object)
  | .fresh content => (h.retainAll content.items).publish content

/-- Takes a reference to an object, if there is one. -/
def retain? (h : Heap) (object? : Option Object) : Heap :=
  h.retainAll object?.toList

/-- The number of identifiers that were drawn. -/
def drawn (h : Heap) : Nat :=
  h.next - Object.firstFreshId

end Heap

end Parley.Formula
