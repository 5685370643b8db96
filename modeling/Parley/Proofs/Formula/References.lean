import Mathlib.Algebra.Order.Group.Multiset
import Mathlib.Logic.Relation
import Parley.Formula.Heap
import Parley.Proofs.Formula.Shape

/-!
# References to objects

What holds of a heap at every moment: the number of references to an object is the number
of those who refer to it, the identifiers count up in the order in which objects were
made, and an array only has items that were made before it. All this is shown of the few
changes that a heap undergoes, and so it holds after any number of them.

- `Moment`: a heap together with the references that are held from outside it.
- `Moment.Valid`: the invariant.
- `Moment.Change`, `Moment.Leads`: one change of a heap, and any number of them.
- `Moment.Valid.lookup_eq_some_iff`: looking objects up.
- `Moment.Valid.leads`: changes keep the invariant.
-/

namespace Parley.Formula

/-! ## Counting -/

namespace Heap

variable {h : Heap} {f : Nat → Nat} {id : ObjectId}

@[simp] theorem made_recount (h : Heap) (f : Nat → Nat) (id : ObjectId) :
    (h.recount f id).made = h.made := by
  simp only [made, recount, List.map_map]
  refine List.map_congr_left fun cell _ => ?_
  by_cases hid : cell.id = id <;> simp [hid]

@[simp] theorem made_forget (h : Heap) (id : ObjectId) : (h.forget id).made = h.made := rfl

@[simp] theorem made_release (h : Heap) (todo : List Object) : (h.release todo).made = h.made := by
  fun_induction release h todo <;> simp_all

@[simp] theorem next_release (h : Heap) (todo : List Object) :
    (h.release todo).next = h.next := by
  fun_induction release h todo with
  | case1 h => rfl
  | case2 h object rest gone hlast ih => exact ih
  | case3 h object rest hshared ih => exact ih

@[simp] theorem next_retainAll (h : Heap) (objects : List Object) :
    (h.retainAll objects).next = h.next := by
  induction objects generalizing h with
  | nil => rfl
  | cons object rest ih => exact ih (h.retain object)

theorem mem_cells_recount {cell : Cell} :
    cell ∈ (h.recount f id).cells ↔
      ∃ old ∈ h.cells, cell = if old.id = id then old.recount f else old := by
  simp only [recount, List.mem_map, eq_comm]

theorem claim_of_notMem {keys room : List ObjectId} {next : ObjectId} (hnext : next ∉ keys) :
    claim keys room next = next := by
  cases room with
  | nil => rfl
  | cons _ room => exact if_neg hnext

/-- While the next identifier is not taken, a new object gets it. -/
theorem publish_eq (content : Content) (hnext : h.next ∉ h.keys) :
    h.publish content =
      (content.publish h.next,
        { cells := h.cells ++ [⟨content.publish h.next, 1⟩]
          keys := h.keys ++ [h.next]
          next := h.next + 1 }) := by
  rw [publish, claim_of_notMem hnext]

theorem cell?_recount (h : Heap) (f : Nat → Nat) (id : ObjectId) :
    (h.recount f id).cell? id = (h.cell? id).map (Cell.recount f) := by
  obtain ⟨cells, keys, next⟩ := h
  simp only [cell?, recount]
  induction cells with
  | nil => rfl
  | cons cell cells ih => by_cases hid : cell.id = id <;> simp [hid, ih]

/-- Counting does not change what objects refer to, as long as none of them is released
or comes back. -/
theorem inner_recount (hlive : ∀ cell ∈ h.cells, cell.id = id →
    (cell.recount f).isLive = cell.isLive) : (h.recount f id).inner = h.inner := by
  simp only [inner, recount, List.flatMap_map]
  refine List.flatMap_congr fun cell hcell => ?_
  by_cases hid : cell.id = id
  · simp [hid, Cell.items, hlive cell hcell hid]
  · simp [hid]

theorem live_recount (hlive : ∀ cell ∈ h.cells, cell.id = id →
    (cell.recount f).isLive = cell.isLive) :
    ((h.recount f id).cells.filter Cell.isLive).map Cell.id =
      (h.cells.filter Cell.isLive).map Cell.id := by
  obtain ⟨cells, keys, next⟩ := h
  simp only [recount] at hlive ⊢
  induction cells with
  | nil => rfl
  | cons cell cells ih =>
    have hrest := ih fun c hc => hlive c (List.mem_cons_of_mem _ hc)
    by_cases hid : cell.id = id
    · have hcell := hlive cell List.mem_cons_self hid
      by_cases hl : cell.isLive <;> simp [hid, hl, hcell, hrest]
    · by_cases hl : cell.isLive <;> simp [hid, hl, hrest]

/-- With its last reference an object gives up its own ones. -/
theorem coe_inner_of_last {gone : Object} (hnodup : (h.cells.map Cell.id).Nodup)
    (found : h.cell? id = some ⟨gone, 1⟩) :
    (h.inner : Multiset Object) = gone.items + (h.recount (· - 1) id).inner := by
  obtain ⟨cells, keys, next⟩ := h
  induction cells with
  | nil => cases found
  | cons cell cells ih =>
    obtain ⟨hnotin, hnodup⟩ := List.nodup_cons.1 hnodup
    by_cases hid : cell.id = id
    · obtain rfl : cell = ⟨gone, 1⟩ := by simpa [cell?, hid] using found
      -- nobody else has the same identifier
      have hrest : (recount ⟨cells, keys, next⟩ (· - 1) id).inner = inner ⟨cells, keys, next⟩ := by
        refine inner_recount fun other hother hid' => absurd ?_ hnotin
        rw [hid, ← hid']
        exact List.mem_map_of_mem hother
      simp only [inner, recount, List.map_cons, List.flatMap_cons, hid, if_true] at hrest ⊢
      rw [hrest]
      simp [Cell.items, Cell.isLive]
    · have hrest := ih hnodup (by simpa [cell?, hid] using found)
      simp only [inner, recount, List.map_cons, List.flatMap_cons, hid, if_false,
        ← Multiset.coe_add] at hrest ⊢
      rw [hrest, add_left_comm]

theorem live_of_last (hone : ∀ cell ∈ h.cells, cell.id = id → cell.references = 1) :
    ((h.recount (· - 1) id).cells.filter Cell.isLive).map Cell.id =
      ((h.cells.filter Cell.isLive).map Cell.id).filter (· != id) := by
  obtain ⟨cells, keys, next⟩ := h
  simp only [recount] at hone ⊢
  induction cells with
  | nil => rfl
  | cons cell cells ih =>
    have hrest := ih fun c hc => hone c (List.mem_cons_of_mem _ hc)
    by_cases hid : cell.id = id
    · have hcell := hone cell List.mem_cons_self hid
      simp [hid, Cell.isLive, hcell, hrest]
    · by_cases hl : cell.isLive <;> simp [hid, hl, hrest]

end Heap

/-! ## The invariant -/

/-- What the objects in a heap have to do with each other. -/
structure Heap.Lawful (h : Heap) : Prop where
  /-- Identifiers count up from zero, in the order in which objects were made. -/
  numbered : h.made.map Object.id = List.range h.made.length
  next_eq : h.next = h.made.length
  constants : Registry.singletons <+: h.made
  /-- The items of an object were made before it. -/
  items_made : ∀ object ∈ h.made, ∀ item ∈ object.items, item ∈ h.made ∧ item.id < object.id

/-- A heap, and the references that are held from outside it: by the slots of a table, and
by rules that are reading a formula. -/
structure Moment where
  heap : Heap
  held : Multiset Object

namespace Moment

/-- The beginning, when nobody holds anything. -/
def start : Moment where
  heap := Heap.start
  held := 0

/-- All references there are, those of the registry to the singletons apart. -/
def references (m : Moment) : Multiset Object :=
  m.held + m.heap.inner

/-- How many references there are to the object with this identifier. -/
def count (m : Moment) (id : ObjectId) : Nat :=
  (if id < Object.firstFreshId then 1 else 0) + (m.references.map Object.id).count id

/-- What holds at every moment. -/
structure Valid (m : Moment) : Prop where
  lawful : m.heap.Lawful
  /-- Each cell knows how many references there are to its object. -/
  counted : ∀ cell ∈ m.heap.cells, cell.references = m.count cell.id
  /-- What is held was made. -/
  held_made : ∀ object ∈ m.held, object ∈ m.heap.made
  /-- The table has the identifiers of the objects in memory. -/
  keys_eq : m.heap.keys = (m.heap.cells.filter Cell.isLive).map Cell.id

end Moment

namespace Heap.Lawful

variable {h h' : Heap} {object object' : Object} {cell cell' : Cell} {id : ObjectId}

theorem start : Heap.start.Lawful where
  numbered := rfl
  next_eq := rfl
  constants := List.prefix_rfl
  items_made := by simp [Heap.start, Heap.made, Registry.singletons, Object.items]

theorem of_eq (l : h.Lawful) (hmade : h'.made = h.made) (hnext : h'.next = h.next) :
    h'.Lawful := by
  obtain ⟨numbered, next_eq, constants, items_made⟩ := l
  rw [← hmade] at numbered next_eq constants items_made
  exact ⟨numbered, hnext.trans next_eq, constants, items_made⟩

theorem ids_nodup (l : h.Lawful) : (h.made.map Object.id).Nodup := by
  rw [l.numbered]
  exact List.nodup_range

/-- An object is known by its identifier. -/
theorem object_eq (l : h.Lawful) (ho : object ∈ h.made) (ho' : object' ∈ h.made)
    (hid : object.id = object'.id) : object = object' :=
  List.inj_on_of_nodup_map l.ids_nodup ho ho' hid

theorem cell_ids_nodup (l : h.Lawful) : (h.cells.map Cell.id).Nodup := by
  have hnodup := l.ids_nodup
  rwa [made, List.map_map] at hnodup

theorem cell_eq (l : h.Lawful) (hcell : cell ∈ h.cells) (hcell' : cell' ∈ h.cells)
    (hid : cell.id = cell'.id) : cell = cell' :=
  List.inj_on_of_nodup_map l.cell_ids_nodup hcell hcell' hid

theorem cell?_eq_some_iff (l : h.Lawful) : h.cell? id = some cell ↔ cell ∈ h.cells ∧ cell.id = id := by
  constructor
  · intro hfound
    exact ⟨List.mem_of_find?_eq_some hfound, by simpa using List.find?_some hfound⟩
  · rintro ⟨hcell, rfl⟩
    cases hfound : h.cell? cell.id with
    | none => exact absurd (List.find?_eq_none.1 hfound cell hcell) (by simp)
    | some cell' =>
      have hid : cell'.id = cell.id := by simpa using List.find?_some hfound
      rw [l.cell_eq (List.mem_of_find?_eq_some hfound) hcell hid]

/-- Every identifier that was drawn lies below the next one. -/
theorem id_lt (l : h.Lawful) (ho : object ∈ h.made) : object.id < h.next := by
  have hid : object.id ∈ h.made.map Object.id := List.mem_map_of_mem ho
  rwa [l.numbered, List.mem_range, ← l.next_eq] at hid

theorem exists_made (l : h.Lawful) (hid : id < h.next) : ∃ object ∈ h.made, object.id = id := by
  rw [l.next_eq, ← List.mem_range, ← l.numbered] at hid
  exact List.mem_map.1 hid

theorem firstFreshId_le_next (l : h.Lawful) : Object.firstFreshId ≤ h.next := by
  rw [l.next_eq]
  exact l.constants.length_le

theorem item_made (l : h.Lawful) {item : Object} (hitem : item ∈ h.inner) : item ∈ h.made := by
  obtain ⟨cell, hcell, hitem⟩ := List.mem_flatMap.1 hitem
  rw [Cell.items] at hitem
  split at hitem
  · exact (l.items_made cell.object (List.mem_map_of_mem hcell) item hitem).1
  · cases hitem

end Heap.Lawful

/-! ## Finding objects -/

namespace Moment.Valid

variable {m : Moment} {h : Heap} {held held' : Multiset Object} {cell : Cell} {id : ObjectId}
  {object : Object}

theorem mem_keys (v : m.Valid) (hcell : cell ∈ m.heap.cells) :
    cell.id ∈ m.heap.keys ↔ cell.isLive := by
  rw [v.keys_eq]
  constructor
  · intro hkey
    obtain ⟨cell', hcell', hid⟩ := List.mem_map.1 hkey
    obtain ⟨hcell', hlive⟩ := List.mem_filter.1 hcell'
    rwa [v.lawful.cell_eq hcell hcell' hid.symm]
  · exact fun hlive => List.mem_map_of_mem (List.mem_filter.2 ⟨hcell, hlive⟩)

/-- Every key of the table is the identifier of an object that was made. -/
theorem exists_of_key (v : m.Valid) (hkey : id ∈ m.heap.keys) :
    ∃ cell ∈ m.heap.cells, cell.isLive ∧ cell.id = id := by
  rw [v.keys_eq] at hkey
  obtain ⟨cell, hcell, hid⟩ := List.mem_map.1 hkey
  obtain ⟨hcell, hlive⟩ := List.mem_filter.1 hcell
  exact ⟨cell, hcell, hlive, hid⟩

/-- The next identifier is not in the table. -/
theorem next_notMem (v : m.Valid) : m.heap.next ∉ m.heap.keys := by
  intro hkey
  obtain ⟨cell, hcell, -, hid⟩ := v.exists_of_key hkey
  have hlt : cell.id < m.heap.next := v.lawful.id_lt (List.mem_map_of_mem hcell)
  exact absurd hid (Nat.ne_of_lt hlt)

/-- The registry finds an object under its own identifier, as long as that is in the
table. -/
theorem lookup_eq_some_iff (v : m.Valid) :
    m.heap.lookup id = some object ↔ id ∈ m.heap.keys ∧ object ∈ m.heap.made ∧ object.id = id := by
  constructor
  · intro hfound
    rw [Heap.lookup] at hfound
    split at hfound
    next hkey =>
      obtain ⟨cell, hcell, rfl⟩ := Option.map_eq_some_iff.1 hfound
      obtain ⟨hcell, -⟩ := Option.filter_eq_some_iff.1 hcell
      obtain ⟨hcell, hid⟩ := v.lawful.cell?_eq_some_iff.1 hcell
      exact ⟨hkey, List.mem_map_of_mem hcell, hid⟩
    next => cases hfound
  · rintro ⟨hkey, hmade, rfl⟩
    obtain ⟨cell, hcell, rfl⟩ := List.mem_map.1 hmade
    have hfound : m.heap.cell? cell.object.id = some cell :=
      v.lawful.cell?_eq_some_iff.2 ⟨hcell, rfl⟩
    have hlive := (v.mem_keys hcell).1 hkey
    rw [Heap.lookup, if_pos hkey, hfound, Option.filter_some, if_pos hlive, Option.map_some]

end Moment.Valid

/-! ## Changes -/

namespace Moment

variable {m m' : Moment} {object : Object} {id : ObjectId}

/-- One more reference counts for the object that it leads to. -/
theorem count_of_cons (m m' : Moment) (object : Object)
    (hrefs : m'.references = object ::ₘ m.references) (id : ObjectId) :
    m'.count id = m.count id + if id = object.id then 1 else 0 := by
  rw [count, count, hrefs, Multiset.map_cons, Multiset.count_cons, Nat.add_assoc]

/-- Where the number of references to one object changes, its cell has to follow. -/
theorem counted_recount {h : Heap} {f : Nat → Nat}
    (hcounted : ∀ cell ∈ h.cells, cell.references = m.count cell.id)
    (hsame : m'.count object.id = f (m.count object.id))
    (hother : ∀ id, id ≠ object.id → m'.count id = m.count id) :
    ∀ cell ∈ (h.recount f object.id).cells, cell.references = m'.count cell.id := by
  intro cell hcell
  obtain ⟨old, hold, rfl⟩ := Heap.mem_cells_recount.1 hcell
  have hcount := hcounted old hold
  by_cases hid : old.id = object.id
  · rw [if_pos hid, Cell.references_recount, Cell.id_recount, hcount, hid, hsame]
  · rw [if_neg hid, hcount, hother old.id hid]

/-- What a heap undergoes: a new object that takes over the references to its items, one
more reference to an object that is in memory, or one reference less. -/
inductive Change : Moment → Moment → Prop
  | publish (h : Heap) (content : Content) (held : Multiset Object) :
      Change ⟨h, content.items + held⟩ ⟨(h.publish content).2, (h.publish content).1 ::ₘ held⟩
  | retain (h : Heap) (object : Object) (held : Multiset Object)
      (hlive : h.lookup object.id = some object) :
      Change ⟨h, held⟩ ⟨h.retain object, object ::ₘ held⟩
  | release (h : Heap) (object : Object) (held : Multiset Object) :
      Change ⟨h, object ::ₘ held⟩ ⟨h.release [object], held⟩

/-- Any number of changes, one after the other. -/
def Leads : Moment → Moment → Prop :=
  Relation.ReflTransGen Change

namespace Valid

variable {h : Heap} {held : Multiset Object} {cell : Cell}

theorem start : Moment.start.Valid where
  lawful := Heap.Lawful.start
  counted := by decide
  held_made := by simp [Moment.start]
  keys_eq := rfl

theorem reference_made (v : m.Valid) (hobject : object ∈ m.references) : object ∈ m.heap.made := by
  rcases Multiset.mem_add.1 hobject with hheld | hinner
  · exact v.held_made object hheld
  · exact v.lawful.item_made (Multiset.mem_coe.1 hinner)

/-- Nobody refers to an object that was not made yet. -/
theorem count_of_next_le (v : m.Valid) (hid : m.heap.next ≤ id) : m.count id = 0 := by
  have hfresh : ¬id < Object.firstFreshId :=
    Nat.not_lt.2 (Nat.le_trans v.lawful.firstFreshId_le_next hid)
  rw [count, if_neg hfresh, Nat.zero_add, Multiset.count_eq_zero]
  intro hmem
  obtain ⟨object, hobject, rfl⟩ := Multiset.mem_map.1 hmem
  exact absurd (v.lawful.id_lt (v.reference_made hobject)) (Nat.not_lt.2 hid)

theorem retain (v : Valid ⟨h, held⟩) (hlive : h.lookup object.id = some object) :
    Valid ⟨h.retain object, object ::ₘ held⟩ := by
  obtain ⟨hkey, hmade, -⟩ := v.lookup_eq_some_iff.1 hlive
  have hstays : ∀ cell ∈ h.cells, cell.id = object.id →
      (cell.recount (· + 1)).isLive = cell.isLive := by
    intro cell hcell hid
    rw [(v.mem_keys hcell).1 (hid ▸ hkey)]
    simp [Cell.isLive]
  have hcount := count_of_cons ⟨h, held⟩ ⟨h.retain object, object ::ₘ held⟩ object
    (by simp [references, Heap.retain, Heap.inner_recount hstays])
  constructor
  case lawful => exact v.lawful.of_eq (Heap.made_recount ..) rfl
  case counted =>
    refine counted_recount v.counted ?_ fun id hid => ?_
    · rw [hcount, if_pos rfl]
    · rw [hcount, if_neg hid, Nat.add_zero]
  case held_made =>
    intro other hother
    rw [Heap.retain, Heap.made_recount]
    rcases Multiset.mem_cons.1 hother with rfl | hother
    · exact hmade
    · exact v.held_made other hother
  case keys_eq => exact v.keys_eq.trans (Heap.live_recount hstays).symm

theorem publish {content : Content} (v : Valid ⟨h, content.items + held⟩) :
    Valid ⟨(h.publish content).2, (h.publish content).1 ::ₘ held⟩ := by
  obtain ⟨numbered, next_eq, constants, items_made⟩ := v.lawful
  rw [Heap.publish_eq content v.next_notMem]
  have hid : (content.publish h.next).id = h.next := content.id_publish h.next
  generalize hnew : content.publish h.next = new at hid
  have hitems : new.items = content.items := by rw [← hnew, Content.items_publish]
  have hcount := count_of_cons ⟨h, content.items + held⟩
    ⟨⟨h.cells ++ [⟨new, 1⟩], h.keys ++ [h.next], h.next + 1⟩, new ::ₘ held⟩ new
    (by simp [references, Heap.inner, Cell.items, Cell.isLive, hitems, ← Multiset.coe_add,
      add_comm, add_left_comm])
  constructor
  case lawful =>
    constructor
    case numbered => simp_all [Heap.made, List.range_succ]
    case next_eq => simp_all [Heap.made]
    case constants =>
      rw [Heap.made, List.map_append]
      exact constants.trans (List.prefix_append ..)
    case items_made =>
      rw [Heap.made, List.map_append]
      intro object hobject item hitem
      rcases List.mem_append.1 hobject with hold | hobject
      · obtain ⟨hitem, hlt⟩ := items_made object hold item hitem
        exact ⟨List.mem_append_left _ hitem, hlt⟩
      · -- the items of the new object were held, and so they were made
        obtain rfl := List.mem_singleton.1 hobject
        have hmade : item ∈ h.made := v.held_made item (by simp_all)
        exact ⟨List.mem_append_left _ hmade, hid ▸ v.lawful.id_lt hmade⟩
  case counted =>
    intro cell hcell
    rw [hcount, hid]
    rcases List.mem_append.1 hcell with hold | hcell
    · have hlt : cell.id < h.next := v.lawful.id_lt (List.mem_map_of_mem hold)
      rw [if_neg (Nat.ne_of_lt hlt), Nat.add_zero]
      exact v.counted cell hold
    · obtain rfl := List.mem_singleton.1 hcell
      have hnext : Cell.id ⟨new, 1⟩ = h.next := hid
      rw [hnext, if_pos rfl, v.count_of_next_le (Nat.le_refl _)]
  case held_made =>
    rw [Heap.made, List.map_append]
    intro object hobject
    rcases Multiset.mem_cons.1 hobject with rfl | hobject
    · exact List.mem_append_right _ List.mem_cons_self
    · exact List.mem_append_left _ (v.held_made object (Multiset.mem_add.2 (.inr hobject)))
  case keys_eq =>
    rw [List.filter_append, List.map_append, ← v.keys_eq]
    show h.keys ++ [h.next] = h.keys ++ [new.id]
    rw [hid]

/-- A reference that is held is counted by the cell of its object. -/
theorem exists_cell (v : Valid ⟨h, object ::ₘ held⟩) :
    ∃ cell ∈ h.cells, cell.object = object ∧ h.cell? object.id = some cell ∧
      cell.references ≠ 0 := by
  obtain ⟨cell, hcell, rfl⟩ := List.mem_map.1 (v.held_made object (Multiset.mem_cons_self ..))
  refine ⟨cell, hcell, rfl, v.lawful.cell?_eq_some_iff.2 ⟨hcell, rfl⟩, ?_⟩
  have hcount : cell.object.id ∈ (references ⟨h, cell.object ::ₘ held⟩).map Object.id :=
    Multiset.mem_map_of_mem _ (Multiset.mem_add.2 (.inl (Multiset.mem_cons_self ..)))
  have hpos := Multiset.count_pos.2 hcount
  rw [v.counted cell hcell, count]
  show _ + Multiset.count cell.object.id _ ≠ 0
  omega

/-- One reference less to an object that others refer to as well. -/
theorem countDown (v : Valid ⟨h, object ::ₘ held⟩)
    (hshared : ∀ gone, h.cell? object.id ≠ some ⟨gone, 1⟩) :
    Valid ⟨h.recount (· - 1) object.id, held⟩ := by
  obtain ⟨cell, hcell, rfl, hfound, hzero⟩ := v.exists_cell
  have hone : cell.references ≠ 1 := fun hone => hshared cell.object (hone ▸ hfound)
  -- the object stays in memory, so that nothing changes for its items
  have hstays : ∀ other ∈ h.cells, other.id = cell.object.id →
      (other.recount (· - 1)).isLive = other.isLive := by
    intro other hother hid
    obtain rfl := v.lawful.cell_eq hother hcell hid
    simp only [Cell.isLive, Cell.references_recount]
    rw [bne_iff_ne.2 hzero, bne_iff_ne]
    omega
  have hcount := count_of_cons ⟨h.recount (· - 1) cell.object.id, held⟩
    ⟨h, cell.object ::ₘ held⟩ cell.object
    (by simp [references, Heap.inner_recount hstays])
  constructor
  case lawful => exact v.lawful.of_eq (Heap.made_recount ..) rfl
  case counted =>
    refine counted_recount v.counted ?_ fun id hid => ?_
    · rw [hcount, if_pos rfl, Nat.add_sub_cancel]
    · rw [hcount, if_neg hid, Nat.add_zero]
  case held_made =>
    intro other hother
    rw [Heap.made_recount]
    exact v.held_made other (Multiset.mem_cons_of_mem hother)
  case keys_eq => exact v.keys_eq.trans (Heap.live_recount hstays).symm

/-- One reference less to an object that nobody else refers to: its references to its items
are given up next. -/
theorem countDown_last {gone : Object} (v : Valid ⟨h, object ::ₘ held⟩)
    (hlast : h.cell? object.id = some ⟨gone, 1⟩) :
    Valid ⟨(h.recount (· - 1) object.id).forget object.id, gone.items + held⟩ := by
  obtain ⟨cell, hcell, rfl, hfound, -⟩ := v.exists_cell
  obtain rfl : cell = ⟨gone, 1⟩ := Option.some.inj (hfound.symm.trans hlast)
  -- the references to its items, which were counted inside the heap, are held from now on
  have hinner : (h.inner : Multiset Object) = gone.items + (h.recount (· - 1) gone.id).inner :=
    Heap.coe_inner_of_last v.lawful.cell_ids_nodup hlast
  have hcount := count_of_cons
    ⟨(h.recount (· - 1) gone.id).forget gone.id, gone.items + held⟩ ⟨h, gone ::ₘ held⟩ gone (by
      simp only [references, hinner, Multiset.cons_add]
      rw [add_left_comm, ← add_assoc]
      rfl)
  constructor
  case lawful => exact v.lawful.of_eq (Heap.made_recount ..) rfl
  case counted =>
    refine counted_recount v.counted ?_ fun id hid => ?_
    · rw [hcount, if_pos rfl, Nat.add_sub_cancel]
    · rw [hcount, if_neg hid, Nat.add_zero]
  case held_made =>
    intro other hother
    rw [Heap.made_forget, Heap.made_recount]
    rcases Multiset.mem_add.1 hother with hitem | hother
    · exact (v.lawful.items_made gone (List.mem_map_of_mem hcell) other
        (Multiset.mem_coe.1 hitem)).1
    · exact v.held_made other (Multiset.mem_cons_of_mem hother)
  case keys_eq =>
    have hone : ∀ other ∈ h.cells, other.id = gone.id → other.references = 1 := by
      intro other hother hid
      rw [v.lawful.cell_eq hother hcell hid]
    have hkeys := v.keys_eq
    simp only at hkeys
    show List.filter _ h.keys = ((h.recount (· - 1) gone.id).cells.filter Cell.isLive).map Cell.id
    rw [Heap.live_of_last hone, ← hkeys, Heap.cell?_recount, hlast]
    simp [Cell.isLive]

/-- Giving up references keeps the invariant, whatever is released with them. -/
theorem release (todo : List Object) (v : Valid ⟨h, todo + held⟩) :
    Valid ⟨h.release todo, held⟩ := by
  fun_induction Heap.release h todo with
  | case1 h => simpa using v
  | case2 h object rest gone hlast ih =>
    rw [← Multiset.cons_coe, Multiset.cons_add] at v
    refine ih ?_
    rw [← Multiset.coe_add, add_assoc]
    exact v.countDown_last hlast
  | case3 h object rest hshared ih =>
    rw [← Multiset.cons_coe, Multiset.cons_add] at v
    exact ih (v.countDown hshared)

end Valid

theorem Change.valid (hchange : Change m m') (v : m.Valid) : m'.Valid := by
  cases hchange with
  | publish => exact v.publish
  | retain h object held hlive => exact v.retain hlive
  | release h object held => exact v.release [object]

/-- Changes keep the invariant. -/
theorem Valid.leads (v : m.Valid) (hleads : Leads m m') : m'.Valid := by
  induction hleads with
  | refl => exact v
  | tail _ hchange ih => exact hchange.valid ih

/-- Objects that were made stay on record as they are. -/
theorem Change.made_prefix (hchange : Change m m') : m.heap.made <+: m'.heap.made := by
  cases hchange with
  | publish h content held =>
    simp only [Heap.publish, Heap.made, List.map_append]
    exact List.prefix_append ..
  | retain h object held hlive => simp [Heap.retain]
  | release h object held => simp

theorem Leads.made_prefix (hleads : Leads m m') : m.heap.made <+: m'.heap.made := by
  induction hleads with
  | refl => exact List.prefix_rfl
  | tail _ hchange ih => exact ih.trans hchange.made_prefix

/-- The next identifier never goes back. -/
theorem Valid.next_le (v : m.Valid) (hleads : Leads m m') : m.heap.next ≤ m'.heap.next := by
  rw [v.lawful.next_eq, (v.leads hleads).lawful.next_eq]
  exact hleads.made_prefix.length_le

end Moment

end Parley.Formula
