import Parley.Proofs.Formula.References

/-!
# What is in memory

By the invariant of counted references an object is in memory as long as somebody refers to
it. As arrays only refer to objects that were made before them, those are the objects that can
be reached from what is held: the live objects of the registry that is a view of them.

- `Moment.Valid.mem_keys_iff`: the keys of the table by those who refer to an object.
- `Moment.Valid.mem_keys_iff_mem_objects`: the keys of the table by what can be reached.
- `Moment.Valid.lookup_eq`, `Moment.Valid.member_eq`: looking objects up.
- `Moment.Valid.length_keys`: how many there are.
-/

namespace Parley.Formula

open Moment

/-! ## Objects inside objects -/

namespace Object

theorem slotParts_eq (items : List (Option Object)) :
    slotParts items = (present items).flatMap parts := by
  induction items with
  | nil => rfl
  | cons slot items ih => cases slot <;> simp [slotParts, ih]

/-- What is inside something inside an object is inside the object. -/
theorem mem_parts_of_mem_items {object part item : Object} (hpart : part ∈ object.parts)
    (hitem : item ∈ part.items) : item ∈ object.parts := by
  induction object using Object.induction with
  | null | view | boolean | integer | bare => simp_all [parts, items]
  | array id slots ih =>
    rw [parts, slotParts_eq, List.mem_cons] at hpart ⊢
    refine .inr (List.mem_flatMap.2 ?_)
    rcases hpart with rfl | hpart
    · exact ⟨item, hitem, item.mem_parts_self⟩
    · obtain ⟨inside, hinside, hpart⟩ := List.mem_flatMap.1 hpart
      exact ⟨inside, hinside, ih inside (mem_present.1 hinside) hpart⟩

/-- What holds of an object and passes on to items holds of everything inside. -/
theorem forall_mem_parts {P : Object → Prop} (hitems : ∀ o, P o → ∀ item ∈ o.items, P item)
    {object : Object} (hobject : P object) : ∀ part ∈ object.parts, P part := by
  induction object using Object.induction with
  | null | view | boolean | integer | bare => simpa [parts] using hobject
  | array id slots ih =>
    intro part hpart
    rw [parts, slotParts_eq, List.mem_cons] at hpart
    rcases hpart with rfl | hpart
    · exact hobject
    · obtain ⟨inside, hinside, hpart⟩ := List.mem_flatMap.1 hpart
      exact ih inside (mem_present.1 hinside) (hitems _ hobject inside hinside) part hpart

end Object

namespace Registry

theorem mem_ids {held : List Object} {id : ObjectId} :
    id ∈ ids held ↔ ∃ object ∈ objects held, object.id = id := by
  rw [ids, List.mem_eraseDups, List.mem_map]

theorem eraseDups_nodup (ids : List ObjectId) : ids.eraseDups.Nodup := by
  induction hn : ids.length using Nat.strongRecOn generalizing ids with
  | ind n ih =>
    cases ids with
    | nil => exact List.nodup_nil
    | cons id ids =>
      rw [List.eraseDups_cons, List.nodup_cons]
      constructor
      · simp
      · refine ih _ ?_ _ rfl
        rw [← hn]
        exact Nat.lt_succ_of_le (List.length_filter_le ..)

theorem ids_nodup (held : List Object) : (ids held).Nodup :=
  eraseDups_nodup _

theorem mem_objects_cons {held : List Object} {holder object : Object} :
    object ∈ objects (holder :: held) ↔ object ∈ objects held ∨ object ∈ holder.parts := by
  simp only [objects, List.flatMap_cons, List.mem_append]
  tauto

theorem mem_objects_of_mem_parts {held : List Object} {holder object : Object}
    (hholder : holder ∈ held) (hpart : object ∈ holder.parts) : object ∈ objects held :=
  List.mem_append_right _ (List.mem_flatMap.2 ⟨holder, hholder, hpart⟩)

/-- The items of live objects are live. -/
theorem item_mem_objects {held : List Object} {object item : Object}
    (hobject : object ∈ objects held) (hitem : item ∈ object.items) : item ∈ objects held := by
  rcases List.mem_append.1 hobject with hsingle | hpart
  · simp only [singletons, List.mem_cons, List.not_mem_nil, or_false] at hsingle
    rcases hsingle with rfl | rfl | rfl | rfl <;> cases hitem
  · obtain ⟨holder, hholder, hpart⟩ := List.mem_flatMap.1 hpart
    exact mem_objects_of_mem_parts hholder (Object.mem_parts_of_mem_items hpart hitem)

end Registry

namespace Moment.Valid

variable {m : Moment} {h : Heap} {held : List Object} {object : Object} {id : ObjectId}

/-- The table has the identifiers of the singletons, and of all objects that somebody
refers to. -/
theorem mem_keys_iff (v : m.Valid) :
    id ∈ m.heap.keys ↔ id < Object.firstFreshId ∨ ∃ object ∈ m.references, object.id = id := by
  have hpositive : m.count id ≠ 0 ↔
      id < Object.firstFreshId ∨ ∃ object ∈ m.references, object.id = id := by
    rw [← Multiset.mem_map, ← Multiset.count_ne_zero, count]
    by_cases hfresh : id < Object.firstFreshId <;> simp [hfresh]
  rw [← hpositive]
  constructor
  · intro hkey
    obtain ⟨cell, hcell, hlive, rfl⟩ := v.exists_of_key hkey
    rw [← v.counted cell hcell]
    exact bne_iff_ne.1 hlive
  · intro hcount
    have hlt : id < m.heap.next := Nat.lt_of_not_le fun hle => hcount (v.count_of_next_le hle)
    obtain ⟨object, hobject, rfl⟩ := v.lawful.exists_made hlt
    obtain ⟨cell, hcell, rfl⟩ := List.mem_map.1 hobject
    refine (v.mem_keys hcell).2 (bne_iff_ne.2 ?_)
    rwa [v.counted cell hcell]

theorem keys_nodup (v : m.Valid) : m.heap.keys.Nodup := by
  rw [v.keys_eq]
  exact v.lawful.cell_ids_nodup.sublist (List.filter_sublist.map _)

/-- Items of objects in memory are in memory. -/
theorem item_mem_keys (v : m.Valid) (hobject : object ∈ m.heap.made)
    (hkey : object.id ∈ m.heap.keys) {item : Object} (hitem : item ∈ object.items) :
    item.id ∈ m.heap.keys := by
  obtain ⟨cell, hcell, rfl⟩ := List.mem_map.1 hobject
  have hlive := (v.mem_keys hcell).1 hkey
  refine v.mem_keys_iff.2 (.inr ⟨item, ?_, rfl⟩)
  refine Multiset.mem_add.2 (.inr (Multiset.mem_coe.2 (List.mem_flatMap.2 ⟨cell, hcell, ?_⟩)))
  rwa [Cell.items, if_pos hlive]

/-- What can be reached from what is held was made and is in memory. -/
theorem mem_keys_of_mem_objects (v : Valid ⟨h, held⟩) (hobject : object ∈ Registry.objects held) :
    object ∈ h.made ∧ object.id ∈ h.keys := by
  rcases List.mem_append.1 hobject with hsingle | hpart
  · refine ⟨v.lawful.constants.subset hsingle, v.mem_keys_iff.2 (.inl ?_)⟩
    simp only [Registry.singletons, List.mem_cons, List.not_mem_nil, or_false] at hsingle
    rcases hsingle with rfl | rfl | rfl | rfl <;> decide
  · obtain ⟨holder, hholder, hpart⟩ := List.mem_flatMap.1 hpart
    refine Object.forall_mem_parts (P := fun o => o ∈ h.made ∧ o.id ∈ h.keys) ?_ ?_ object hpart
    · rintro o ⟨hmade, hkey⟩ item hitem
      exact ⟨(v.lawful.items_made o hmade item hitem).1, v.item_mem_keys hmade hkey hitem⟩
    · have hmem : holder ∈ (held : Multiset Object) := Multiset.mem_coe.2 hholder
      exact ⟨v.held_made holder hmem,
        v.mem_keys_iff.2 (.inr ⟨holder, Multiset.mem_add.2 (.inl hmem), rfl⟩)⟩

/-- Whatever is in memory can be reached from what is held. Who refers to an object without
being held was made after it, so that going back from one to the next comes to an end. -/
theorem exists_mem_objects (v : Valid ⟨h, held⟩) (hkey : id ∈ h.keys) :
    ∃ object ∈ Registry.objects held, object.id = id := by
  induction hn : h.next - id using Nat.strongRecOn generalizing id with
  | ind n ih =>
    rcases v.mem_keys_iff.1 hkey with hfresh | ⟨object, hobject, rfl⟩
    · have hsingle : id ∈ Registry.singletons.map Object.id := by
        show id ∈ List.range Object.firstFreshId
        exact List.mem_range.2 hfresh
      obtain ⟨object, hobject, rfl⟩ := List.mem_map.1 hsingle
      exact ⟨object, List.mem_append_left _ hobject, rfl⟩
    · rcases Multiset.mem_add.1 hobject with hheld | hinner
      · exact ⟨object, Registry.mem_objects_of_held (Multiset.mem_coe.1 hheld), rfl⟩
      · obtain ⟨cell, hcell, hitem⟩ := List.mem_flatMap.1 (Multiset.mem_coe.1 hinner)
        rw [Cell.items] at hitem
        split at hitem
        next hlive =>
          -- the array that refers to it has a larger identifier and is in memory as well
          have hmade : cell.object ∈ h.made := List.mem_map_of_mem hcell
          obtain ⟨-, hlt⟩ := v.lawful.items_made cell.object hmade object hitem
          have hbound : cell.id < h.next := v.lawful.id_lt hmade
          have hless : h.next - cell.id < n := by
            rw [← hn]
            exact Nat.sub_lt_sub_left (Nat.lt_trans hlt hbound) hlt
          obtain ⟨holder, hholder, hid⟩ := ih _ hless ((v.mem_keys hcell).2 hlive) rfl
          obtain rfl : holder = cell.object :=
            v.lawful.object_eq (v.mem_keys_of_mem_objects hholder).1 hmade hid
          exact ⟨object, Registry.item_mem_objects hholder hitem, rfl⟩
        next => cases hitem

/-- The table has the identifiers of what can be reached from what is held. -/
theorem mem_keys_iff_mem_objects (v : Valid ⟨h, held⟩) :
    id ∈ h.keys ↔ ∃ object ∈ Registry.objects held, object.id = id := by
  constructor
  · exact v.exists_mem_objects
  · rintro ⟨object, hobject, rfl⟩
    exact (v.mem_keys_of_mem_objects hobject).2

/-- The registry finds what can be reached from what is held, however often each of them is
held. -/
theorem lookup_eq_of_same {around : List Object} (v : Valid ⟨h, held⟩)
    (hsame : ∀ object, object ∈ Registry.objects around ↔ object ∈ Registry.objects held)
    (id : ObjectId) : h.lookup id = Registry.lookup around id := by
  cases hfound : Registry.lookup around id with
  | some object =>
    have hid : object.id = id := by simpa using List.find?_some hfound
    have hobject := (hsame object).1 (List.mem_of_find?_eq_some hfound)
    obtain ⟨hmade, hkey⟩ := v.mem_keys_of_mem_objects hobject
    exact v.lookup_eq_some_iff.2 ⟨hid ▸ hkey, hmade, hid⟩
  | none =>
    refine if_neg fun hkey => ?_
    obtain ⟨object, hobject, hid⟩ := v.exists_mem_objects hkey
    exact absurd (List.find?_eq_none.1 hfound object ((hsame object).2 hobject)) (by simp [hid])

theorem lookup_eq (v : Valid ⟨h, held⟩) (id : ObjectId) : h.lookup id = Registry.lookup held id :=
  v.lookup_eq_of_same (fun _ => Iff.rfl) id

theorem lookup_of_mem_objects (v : Valid ⟨h, held⟩) (hobject : object ∈ Registry.objects held) :
    h.lookup object.id = some object := by
  obtain ⟨hmade, hkey⟩ := v.mem_keys_of_mem_objects hobject
  exact v.lookup_eq_some_iff.2 ⟨hkey, hmade, rfl⟩

theorem lookup_eq_some_iff_mem_objects (v : Valid ⟨h, held⟩) :
    h.lookup id = some object ↔ object ∈ Registry.objects held ∧ object.id = id := by
  constructor
  · intro hfound
    rw [v.lookup_eq] at hfound
    exact ⟨List.mem_of_find?_eq_some hfound, by simpa using List.find?_some hfound⟩
  · rintro ⟨hobject, rfl⟩
    exact v.lookup_of_mem_objects hobject

/-- Members of the view are the same, whether they are looked up in memory or among what is
held. -/
theorem member_eq {base key : Object} {around : List Object} (v : Valid ⟨h, held⟩)
    (hsame : base = .view →
      ∀ object, object ∈ Registry.objects (key :: around) ↔ object ∈ Registry.objects held) :
    h.member base key = base.member around key := by
  cases base with
  | view =>
    cases key with
    | integer id value =>
      rw [Heap.member, Object.member, v.lookup_eq_of_same (hsame rfl)]
    | null | view | boolean | array | bare => rfl
  | null | boolean | integer | array | bare => rfl

/-- A member that was found is in memory. -/
theorem lookup_of_member {base key : Object} (v : Valid ⟨h, held⟩)
    (hmember : h.member base key = some object) : h.lookup object.id = some object := by
  match base, key with
  | .view, .integer _ value =>
    by_cases hneg : value < 0
    · rw [Heap.member, if_pos hneg] at hmember
      cases hmember
    · rw [Heap.member, if_neg hneg] at hmember
      obtain ⟨-, -, hid⟩ := v.lookup_eq_some_iff.1 hmember
      rwa [hid]

theorem length_keys (v : Valid ⟨h, held⟩) : h.keys.length = Registry.size held := by
  refine List.Perm.length_eq ((List.perm_ext_iff_of_nodup v.keys_nodup ?_).2 fun id => ?_)
  · exact Registry.ids_nodup held
  · rw [v.mem_keys_iff_mem_objects, Registry.mem_ids]

end Moment.Valid

end Parley.Formula
