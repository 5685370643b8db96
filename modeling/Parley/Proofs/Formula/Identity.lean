import Mathlib.Data.List.Sort
import Parley.Proofs.Formula.Sessions

/-!
# Identity and lifetime of objects

What the counted references amount to. Identifiers tell objects apart, those of objects that
were released included, and the registry finds an object as long as somebody refers to it.
An array only refers to objects that were made before it, so that no circle of references
keeps objects in memory. And a formula leaves nothing in memory but its value.

- `Moment.Registered`: identifiers and the registry at one moment.
- `Moment.Outlasts`: the registry at a later moment.
- `Counted.Slots.registered_after`: every moment of a table with counted references.
- `Counted.Slots.onlySingletons_of_drops`: an empty table leaves the singletons.
- `Counted.parse_leaves`: what evaluating a text leaves in memory.
-/

namespace Parley.Formula

namespace Moment

variable {m m' : Moment} {h h' : Heap} {held : List Object} {object : Object} {id : ObjectId}

/-! ## Order -/

namespace Valid

theorem ids_increasing (v : m.Valid) : (m.heap.made.map Object.id).Pairwise (· < ·) := by
  rw [v.lawful.numbered]
  exact List.pairwise_lt_range

theorem keys_increasing (v : m.Valid) : m.heap.keys.Pairwise (· < ·) := by
  have hids := v.ids_increasing
  rw [Heap.made, List.map_map] at hids
  rw [v.keys_eq]
  exact hids.sublist (List.filter_sublist.map _)

/-- The keys of the registry only depend on what is held. -/
theorem keys_eq_of_held (v : Valid ⟨h, held⟩) (v' : Valid ⟨h', held⟩) : h.keys = h'.keys := by
  refine v.keys_increasing.eq_of_mem_iff v'.keys_increasing fun id => ?_
  rw [v.mem_keys_iff_mem_objects, v'.mem_keys_iff_mem_objects]

theorem lookup_eq_of_held (v : Valid ⟨h, held⟩) (v' : Valid ⟨h', held⟩) (id : ObjectId) :
    h.lookup id = h'.lookup id := by
  rw [v.lookup_eq, v'.lookup_eq]

/-- An object that was made later got a larger identifier. -/
theorem id_lt_of_first (v : m.Valid) {first : List Object} (hfirst : first <+: m.heap.made)
    (hmade : object ∈ m.heap.made) (hnew : object ∉ first) {older : Object}
    (holder : older ∈ first) : older.id < object.id := by
  obtain ⟨news, hnews⟩ := hfirst
  have hids := v.ids_increasing
  rw [← hnews, List.map_append, List.pairwise_append] at hids
  rw [← hnews, List.mem_append] at hmade
  have hobject : object ∈ news := hmade.resolve_left hnew
  exact hids.2.2 _ (List.mem_map_of_mem holder) _ (List.mem_map_of_mem hobject)

end Valid

/-! ## The registry at one moment -/

/-- Somebody refers to the object: it is held, or it is an item of an array in memory. -/
def Referenced (m : Moment) (object : Object) : Prop :=
  object ∈ m.held ∨ ∃ array ∈ m.heap.made, array.id ∈ m.heap.keys ∧ object ∈ array.items

/-- Identifiers tell objects apart, and the registry finds what somebody refers to. -/
structure Registered (m : Moment) : Prop where
  /-- Every identifier that was drawn belongs to the one object that was made under it, and
  later objects got larger ones. -/
  ids_eq : m.heap.made.map Object.id = List.range m.heap.next
  /-- A new object gets an identifier that is larger than all that were drawn before. -/
  fresh : ∀ content, Object.firstFreshId ≤ (m.heap.publish content).1.id ∧
    ∀ older ∈ m.heap.made, older.id < (m.heap.publish content).1.id
  /-- The registry has the singletons and those other objects that somebody refers to. -/
  mem_keys_iff : ∀ id, id ∈ m.heap.keys ↔ id < Object.firstFreshId ∨
    Object.firstFreshId ≤ id ∧ ∃ object ∈ m.heap.made, object.id = id ∧ m.Referenced object
  /-- It finds the object that was made under the identifier, as it was made. -/
  lookup_eq_some_iff : ∀ id object, m.heap.lookup id = some object ↔
    id ∈ m.heap.keys ∧ object ∈ m.heap.made ∧ object.id = id
  isSome_lookup_iff : ∀ id, (m.heap.lookup id).isSome ↔ id ∈ m.heap.keys
  /-- While fewer than `2 ^ 64 - 4` identifiers were drawn, they all fit 64 bits. -/
  id_lt : m.heap.drawn < 2 ^ 64 - 4 → ∀ object ∈ m.heap.made, object.id < 2 ^ 64

theorem Valid.mem_references_iff (v : m.Valid) : object ∈ m.references ↔ m.Referenced object := by
  rw [references, Multiset.mem_add, Referenced]
  refine or_congr Iff.rfl ?_
  rw [Multiset.mem_coe, Heap.inner, List.mem_flatMap]
  constructor
  · rintro ⟨cell, hcell, hitem⟩
    rw [Cell.items] at hitem
    split at hitem
    next hlive => exact ⟨cell.object, List.mem_map_of_mem hcell, (v.mem_keys hcell).2 hlive, hitem⟩
    next => cases hitem
  · rintro ⟨array, harray, hkey, hitem⟩
    obtain ⟨cell, hcell, rfl⟩ := List.mem_map.1 harray
    refine ⟨cell, hcell, ?_⟩
    rwa [Cell.items, if_pos ((v.mem_keys hcell).1 hkey)]

theorem Valid.registered (v : m.Valid) : m.Registered where
  ids_eq := v.lawful.next_eq ▸ v.lawful.numbered
  fresh := by
    intro content
    rw [Heap.publish_eq content v.next_notMem, Content.id_publish]
    exact ⟨v.lawful.firstFreshId_le_next, fun older holder => v.lawful.id_lt holder⟩
  mem_keys_iff := by
    intro id
    rw [v.mem_keys_iff]
    constructor
    · rintro (hconstant | ⟨object, hobject, rfl⟩)
      · exact .inl hconstant
      · rcases Nat.lt_or_ge object.id Object.firstFreshId with hlt | hge
        · exact .inl hlt
        · exact .inr ⟨hge, object, v.reference_made hobject, rfl, v.mem_references_iff.1 hobject⟩
    · rintro (hconstant | ⟨-, object, -, rfl, hobject⟩)
      · exact .inl hconstant
      · exact .inr ⟨object, v.mem_references_iff.2 hobject, rfl⟩
  lookup_eq_some_iff := fun _ _ => v.lookup_eq_some_iff
  isSome_lookup_iff := by
    intro id
    rw [Option.isSome_iff_exists]
    constructor
    · rintro ⟨object, hfound⟩
      exact (v.lookup_eq_some_iff.1 hfound).1
    · intro hkey
      obtain ⟨cell, hcell, -, hid⟩ := v.exists_of_key hkey
      exact ⟨cell.object, v.lookup_eq_some_iff.2 ⟨hkey, List.mem_map_of_mem hcell, hid⟩⟩
  id_lt := by
    intro hdrawn object hobject
    refine Nat.lt_trans (v.lawful.id_lt hobject) (Nat.lt_of_not_le fun hle => ?_)
    exact Nat.not_lt.2 (Nat.sub_le_sub_right hle Object.firstFreshId) hdrawn

/-- The registry at a later moment. -/
structure Outlasts (m m' : Moment) : Prop where
  /-- What was made stays on record as it is. -/
  made_prefix : m.heap.made <+: m'.heap.made
  /-- What was made in between has an identifier that was not drawn before. -/
  id_lt : ∀ object ∈ m'.heap.made, object ∉ m.heap.made →
    Object.firstFreshId ≤ object.id ∧ ∀ older ∈ m.heap.made, older.id < object.id
  /-- No other object is ever found under the identifier of one that was made. -/
  eq_of_lookup : ∀ object ∈ m.heap.made, ∀ found, m'.heap.lookup object.id = some found →
    found = object

theorem Valid.outlasts (v : m.Valid) (hleads : Leads m m') : m.Outlasts m' where
  made_prefix := hleads.made_prefix
  id_lt := by
    intro object hmade hnew
    have hlater : ∀ older ∈ m.heap.made, older.id < object.id := fun older holder =>
      (v.leads hleads).id_lt_of_first hleads.made_prefix hmade hnew holder
    -- the last of the singletons was there before
    have hconstant : Object.boolean false ∈ m.heap.made :=
      v.lawful.constants.subset (by simp [Registry.singletons])
    exact ⟨hlater _ hconstant, hlater⟩
  eq_of_lookup := by
    intro object hmade found hfound
    have v' := v.leads hleads
    obtain ⟨-, hfound, hid⟩ := v'.lookup_eq_some_iff.1 hfound
    exact v'.lawful.object_eq hfound (hleads.made_prefix.subset hmade) hid

end Moment

namespace Counted

open Moment

variable {steps : List Table.Step} {h : Heap} {held : List Object}

/-! ## Tables -/

namespace Slots

theorem valid_empty : Slots.empty.moment.Valid :=
  Valid.start

theorem leads_start (hproper : ∀ s ∈ steps, s.Proper) :
    Leads Moment.start (Slots.empty.after steps).moment :=
  leads_after valid_empty hproper

/-- Memory after any steps of a table: it gives the answers of a table without counting, its
slots hold the references that are counted, and so do the operands while a formula is read. -/
def Accounted (steps : List Table.Step) : Prop :=
  Slots.empty.run steps = Table.empty.run steps ∧
    Leads Moment.start (Slots.empty.after steps).moment ∧
      ∀ levels c (h : Heap) (held : List Object), Leads Moment.start ⟨h, held⟩ →
        ∃ operand c' h', unary levels c h = (operand, c', h') ∧
          Leads Moment.start ⟨h', handed (fun o => [o]) operand ++ held⟩

theorem accounted_of_proper (hproper : ∀ s ∈ steps, s.Proper) : Accounted steps := by
  refine ⟨run_eq valid_empty hproper, leads_start hproper, fun levels c h held hreached => ?_⟩
  obtain ⟨operand, c', h', hcounted, -, hleads⟩ :=
    unary_mirrors levels held c h (Valid.start.leads hreached)
  exact ⟨operand, c', h', hcounted, hreached.trans hleads⟩

/-- Whatever is done with a table, the registry finds exactly the objects that somebody
refers to, each under an identifier of its own. This holds at every moment that changes of
memory lead to, those in the middle of a formula included, where operands are held as well.
-/
theorem registered_after (steps : List Table.Step) (hproper : ∀ s ∈ steps, s.Proper) :
    Accounted steps ∧
      ∀ m, Leads Moment.start m → m.Registered ∧ ∀ m', Leads m m' → m.Outlasts m' := by
  refine ⟨accounted_of_proper hproper, fun m hm => ?_⟩
  have v := Valid.start.leads hm
  exact ⟨v.registered, fun m' hm' => v.outlasts hm'⟩

/-- An object in an array, both of which a formula finds again; the array stays in memory
after its slot is emptied. The operands `4` and `5` of the formula were objects as well. -/
def sharing : List Table.Step :=
  [.make .bare, .makeArray [some 0, none, some 0], .parse "[allobj.4,allobj.5]", .drop 1]

theorem proper_sharing : ∀ s ∈ sharing, s.Proper := by
  simp [sharing, Table.Step.Proper, Content.items]

theorem registered_after_sharing :
    (∀ s ∈ sharing, s.Proper) ∧ (Slots.empty.after sharing).heap.keys = [0, 1, 2, 3, 4, 5, 8] ∧
      (Slots.empty.after sharing).heap.drawn < 2 ^ 64 - 4 ∧
        Accounted sharing ∧
          ∀ m, Leads Moment.start m → m.Registered ∧ ∀ m', Leads m m' → m.Outlasts m' := by
  refine ⟨proper_sharing, by decide +kernel, by decide +kernel, ?_⟩
  exact registered_after sharing proper_sharing

/-! ### Empty tables -/

theorem lookup_singletons (id : ObjectId) : Registry.lookup [] id = Registry.singletons[id]? :=
  match id with
  | 0 | 1 | 2 | 3 => rfl
  | _ + 4 => rfl

/-- The registry has the singletons and nothing else. -/
def OnlySingletons (h : Heap) : Prop :=
  h.keys = [0, 1, 2, 3] ∧ ∀ id, h.lookup id = Registry.singletons[id]?

theorem onlySingletons_of_valid (v : Valid ⟨h, ([] : List Object)⟩) : OnlySingletons h := by
  constructor
  · have hstart : Valid ⟨Heap.start, ([] : List Object)⟩ := Valid.start
    exact v.keys_eq_of_held hstart
  · intro id
    rw [v.lookup_eq, lookup_singletons]

theorem onlySingletons_of_slots {t : Slots} (v : t.moment.Valid)
    (hempty : ∀ slot ∈ t.slots, slot = none) : OnlySingletons t.heap := by
  have hheld : t.held = [] := by
    rw [List.eq_nil_iff_forall_not_mem]
    intro object hobject
    cases hempty _ (mem_present.1 hobject)
  rw [moment, hheld] at v
  exact onlySingletons_of_valid v

/-- A slot that still has an object was not emptied. -/
theorem object?_after_drops {t : Slots} {order : List Nat} {slot : Nat} {object : Object}
    (hslot : (t.after (order.map .drop)).slots[slot]? = some (some object)) :
    t.slots[slot]? = some (some object) ∧ slot ∉ order := by
  induction order generalizing t with
  | nil => exact ⟨hslot, List.not_mem_nil⟩
  | cons first order ih =>
    obtain ⟨hbefore, hnotin⟩ := ih hslot
    have hset : (t.slots.set first none)[slot]? = some (some object) := hbefore
    rw [List.getElem?_set] at hset
    split at hset
    next => split at hset <;> cases hset
    next hne =>
      refine ⟨hset, fun hmem => ?_⟩
      rcases List.mem_cons.1 hmem with rfl | hmem
      · exact hne rfl
      · exact hnotin hmem

/-- The items of an array were made before it, whichever way they were found. So nothing keeps
itself in memory: once all slots are empty, in whatever order they were emptied, only the
singletons are left. -/
theorem onlySingletons_of_drops (steps : List Table.Step) (hproper : ∀ s ∈ steps, s.Proper) :
    let t := Slots.empty.after steps
    (∀ m, Leads Moment.start m → ∀ array ∈ m.heap.made, ∀ item ∈ array.items,
        item ∈ m.heap.made ∧ item.id < array.id) ∧
      Leads Moment.start t.moment ∧
        (∀ object ∈ t.held, ∀ array ∈ object.parts, ∀ item ∈ array.items, item.id < array.id) ∧
          ((∀ slot ∈ t.slots, slot = none) → OnlySingletons t.heap) ∧
            ∀ order : List Nat, (∀ slot < t.slots.length, slot ∈ order) →
              OnlySingletons (t.after (order.map .drop)).heap := by
  intro t
  have hleads : Leads Moment.start t.moment := leads_start hproper
  have v : t.moment.Valid := Valid.start.leads hleads
  have hitems : ∀ array ∈ t.heap.made, ∀ item ∈ array.items,
      item ∈ t.heap.made ∧ item.id < array.id := v.lawful.items_made
  refine ⟨fun m hm => (Valid.start.leads hm).lawful.items_made, hleads, ?_, ?_, ?_⟩
  · intro object hobject array harray item hitem
    have hparts : ∀ part ∈ object.parts, part ∈ t.heap.made :=
      Object.forall_mem_parts (fun o ho item hitem => (hitems o ho item hitem).1)
        (v.held_made object hobject)
    exact (hitems array (hparts array harray) item hitem).2
  · exact onlySingletons_of_slots v
  · intro order horder
    have hdrops : ∀ s ∈ order.map Table.Step.drop, s.Proper := by
      intro s hs
      obtain ⟨slot, -, rfl⟩ := List.mem_map.1 hs
      trivial
    refine onlySingletons_of_slots (v.leads (leads_after v hdrops)) fun object? hobject => ?_
    obtain ⟨slot, hslot⟩ := List.mem_iff_getElem?.1 hobject
    cases object? with
    | none => rfl
    | some object =>
      -- a slot with an object would have been one of those that were emptied
      obtain ⟨hbefore, hnotin⟩ := object?_after_drops hslot
      exact absurd (horder slot (List.getElem?_eq_some_iff.1 hbefore).1) hnotin

/-- Emptying the slots of shared objects from the last to the first. -/
theorem onlySingletons_of_drops_sharing :
    (∀ s ∈ sharing, s.Proper) ∧ OnlySingletons
      ((Slots.empty.after sharing).after ([2, 1, 0].map .drop)).heap := by
  refine ⟨proper_sharing, ?_⟩
  have hdrops := (onlySingletons_of_drops sharing proper_sharing).2.2.2.2 [2, 1, 0]
  exact hdrops (by decide +kernel)

end Slots

/-! ## Whole texts -/

/-- The value of a formula and what is inside it is all that evaluating leaves in memory; a
formula without a value leaves nothing, nor does one whose value was given up. What was there
before stays as it was. -/
theorem parse_leaves (hreached : Leads Moment.start ⟨h, held⟩) (text : String) :
    ∃ result h', parse text h = (result, h') ∧
      Formula.parse held text h.next = (result, h'.next) ∧
        h.next ≤ h'.next ∧ h.made <+: h'.made ∧
          match result with
          | .ok value =>
            (∀ id, id ∈ h'.keys ↔ id ∈ h.keys ∨ ∃ part ∈ value.parts, part.id = id) ∧
              (∀ id object, h'.lookup id = some object ↔
                h.lookup id = some object ∨ object ∈ value.parts ∧ object.id = id) ∧
              (h'.release [value]).keys = h.keys ∧
                ∀ id, (h'.release [value]).lookup id = h.lookup id
          | .error _ => h'.keys = h.keys ∧ ∀ id, h'.lookup id = h.lookup id := by
  have v := Valid.start.leads hreached
  obtain ⟨result, h', hcounted, hplain, hleads⟩ := parse_mirrors text v
  have v' := v.leads hleads
  refine ⟨result, h', hcounted, hplain, v.next_le hleads, hleads.made_prefix, ?_⟩
  cases result with
  | ok value =>
    have vgiven : Valid ⟨h'.release [value], held⟩ := v'.release [value]
    have v' : Valid ⟨h', value :: held⟩ := v'
    -- what is held decides about the registry, before and after the value is given up
    refine ⟨fun id => ?_, fun id object => ?_, ?_, ?_⟩
    · simp only [v'.mem_keys_iff_mem_objects, v.mem_keys_iff_mem_objects,
        Registry.mem_objects_cons, or_and_right, exists_or]
    · simp only [v'.lookup_eq_some_iff_mem_objects, v.lookup_eq_some_iff_mem_objects,
        Registry.mem_objects_cons, or_and_right]
    · exact vgiven.keys_eq_of_held v
    · exact vgiven.lookup_eq_of_held v
  | error fault => exact ⟨v'.keys_eq_of_held v, v'.lookup_eq_of_held v⟩

/-- A formula that finds an array which no slot holds, and keeps it in a new one. -/
theorem parse_leaves_sharing :
    Leads Moment.start (Slots.empty.after Slots.sharing).moment ∧
      ∃ value h', parse "[newobj,allobj.5]" (Slots.empty.after Slots.sharing).heap = (.ok value, h') ∧
        h'.keys = [0, 1, 2, 3, 4, 5, 8, 9, 11] ∧
          (h'.release [value]).keys = (Slots.empty.after Slots.sharing).heap.keys := by
  have hreached := Slots.leads_start Slots.proper_sharing
  refine ⟨hreached, ?_⟩
  obtain ⟨result, h', hparse, -, -, -, hleft⟩ := parse_leaves hreached "[newobj,allobj.5]"
  have hok : (parse "[newobj,allobj.5]" (Slots.empty.after Slots.sharing).heap).1.isOk = true := by
    decide +kernel
  have hkeys : (parse "[newobj,allobj.5]" (Slots.empty.after Slots.sharing).heap).2.keys =
      [0, 1, 2, 3, 4, 5, 8, 9, 11] := by
    decide +kernel
  rw [hparse] at hok hkeys
  cases result with
  | ok value => exact ⟨value, h', hparse, hkeys, hleft.2.2.1⟩
  | error fault => cases hok

end Counted

end Parley.Formula
