import Parley.Proofs.Formula.Ownership

/-!
# Tables with counted references

A table whose objects are kept by counted references gives the answers of a table that is
told which objects are alive, and its registry has as many keys. Whatever is done with it, its
heap only undergoes the changes for which the invariant of memory was shown.

- `Table.Step.Proper`: steps that do not bring in objects from elsewhere.
- `Counted.Slots.Follows`: a step of both tables, compared.
- `Counted.Slots.follows_step`: every proper step.
- `Counted.Slots.run_eq`, `Counted.Slots.leads_after`: any number of them.
-/

namespace Parley.Formula

open Moment

/-- A step makes its own objects: the singletons are the only ones that can be named, and an
array is made of what is in slots. -/
def Table.Step.Proper : Table.Step → Prop
  | .singleton object => object ∈ Registry.singletons
  | .make content => content.items = []
  | _ => True

namespace Counted.Slots

variable {t : Slots} {a b slot : Nat} {x y : Object} {s : Table.Step} {steps : List Table.Step}

/-- The same table without counting. -/
def table (t : Slots) : Table where
  slots := t.slots
  next := t.heap.next

/-- The heap of a table, and the references of its slots. -/
def moment (t : Slots) : Moment where
  heap := t.heap
  held := t.held

theorem held_table (t : Slots) : t.table.held = t.held := rfl

theorem next_table (t : Slots) : t.table.next = t.heap.next := rfl

theorem mem_held_of_object? (hx : t.object? a = some x) : x ∈ t.held := by
  obtain ⟨slot, hslot, rfl⟩ : ∃ slot, t.slots[a]? = some slot ∧ slot = some x := by
    simpa [object?, Option.join_eq_some_iff] using hx
  exact mem_present.2 (List.mem_of_getElem? hslot)

theorem coe_held_add (t : Slots) (object? : Option Object) :
    ((t.add object?).2.held : Multiset Object) = object?.toList + t.held := by
  have hheld : (t.add object?).2.held = t.held ++ object?.toList := by
    cases object? <;> simp [add, held]
  rw [hheld, ← Multiset.coe_add, add_comm]

/-- Emptying a slot takes its object from those that are held. -/
theorem coe_present_set (slots : List (Option Object)) (slot : Nat) :
    (present slots : Multiset Object) =
      (slots[slot]?).join.toList + present (slots.set slot none) := by
  induction slots generalizing slot with
  | nil => rfl
  | cons first slots ih =>
    cases slot with
    | zero =>
      cases first with
      | none => exact (zero_add _).symm
      | some object => rfl
    | succ slot =>
      cases first with
      | none => exact ih slot
      | some object =>
        have hrest := ih slot
        simp only [List.getElem?_cons_succ, List.set_cons_succ, present_some, ← Multiset.cons_coe]
          at hrest ⊢
        rw [hrest, Multiset.add_cons]

/-! ## One step -/

/-- What a step of a table comes to, compared with the same step without counting. -/
structure Follows (t : Slots) (counted : Table.Answer × Slots) (plain : Table.Answer × Table) :
    Prop where
  eq : plain = (counted.1, counted.2.table)
  leads : Leads t.moment counted.2.moment

namespace Follows

theorem refl (t : Slots) (answer : Table.Answer) : Follows t (answer, t) (answer, t.table) :=
  ⟨rfl, .refl⟩

/-- A slot takes over a reference. -/
theorem add {heap : Heap} {object? : Option Object}
    (hleads : Leads t.moment ⟨heap, object?.toList + t.held⟩) :
    Follows t (Slots.add { t with heap } object?)
      (Table.add { t.table with next := heap.next } object?) where
  eq := rfl
  leads := by
    show Leads t.moment ⟨heap, (Slots.add { t with heap } object?).2.held⟩
    rw [coe_held_add]
    exact hleads

/-- A slot takes a reference of its own to an object in memory. -/
theorem addShared {object? : Option Object} (v : t.moment.Valid)
    (hlive : ∀ o ∈ object?, t.heap.lookup o.id = some o) :
    Follows t (t.addShared object?) (t.table.add object?) := by
  have hleads := v.leads_retainAll object?.toList (by simpa using hlive)
  have hfollows := Follows.add hleads
  rwa [Heap.next_retainAll] at hfollows

/-- A slot for the result of an operation. -/
theorem addYield {yielded : Yield} (v : t.moment.Valid) (hdraws : yielded.DrawsOn t.held) :
    Follows t (t.addYield (.found yielded)) (t.table.addYield (.found yielded)) := by
  obtain ⟨hleads, heq⟩ := v.leads_settle fun o ho => v.lookup_of_mem_objects (hdraws o ho)
  show Follows t (Slots.add { t with heap := (t.heap.settle yielded).2 } _)
    (Table.add { t.table with next := (yielded.settle t.heap.next).2 }
      (some (yielded.settle t.heap.next).1))
  rw [← heq]
  exact .add hleads

/-- The same for operations that may have none. -/
theorem addOutcome {outcome : Outcome Fault Yield} (v : t.moment.Valid)
    (hdraws : ∀ yielded, outcome = .found yielded → yielded.DrawsOn t.held) :
    Follows t (t.addYield outcome) (t.table.addYield outcome) := by
  cases outcome with
  | found yielded => exact .addYield v (hdraws yielded rfl)
  | missing => exact Follows.add (.refl)
  | fault cause => exact .refl t _

theorem withObject {f : Object → Table.Answer × Slots} {g : Object → Table.Answer × Table}
    (hfollows : ∀ x, t.object? a = some x → Follows t (f x) (g x)) :
    Follows t (t.withObject a f) (t.table.withObject a g) := by
  have hobject : t.table.object? a = t.object? a := rfl
  rw [Slots.withObject, Table.withObject, hobject]
  cases hx : t.object? a with
  | some x => exact hfollows x hx
  | none => exact .refl t _

theorem withObjects {f : Object → Object → Table.Answer × Slots}
    {g : Object → Object → Table.Answer × Table}
    (hfollows : ∀ x y, x ∈ t.held → y ∈ t.held → Follows t (f x y) (g x y)) :
    Follows t (t.withObjects a b f) (t.table.withObjects a b g) :=
  withObject fun x hx => withObject fun y hy =>
    hfollows x y (mem_held_of_object? hx) (mem_held_of_object? hy)

end Follows

theorem follows_parse (v : t.moment.Valid) (text : String) :
    Follows t (t.step (.parse text)) (t.table.step (.parse text)) := by
  obtain ⟨result, h, hcounted, hplain, hleads⟩ := parse_mirrors text v
  unfold Slots.step Table.step
  simp only [held_table, next_table, hcounted, hplain]
  cases result with
  | ok value => exact .add hleads
  | error fault => exact ⟨rfl, hleads⟩

theorem follows_drop (t : Slots) (slot : Nat) :
    Follows t (t.step (.drop slot)) (t.table.step (.drop slot)) := by
  refine ⟨?_, ?_⟩
  · show (Table.Answer.dropped, (⟨t.slots.set slot none, t.heap.next⟩ : Table)) =
      (.dropped, ⟨t.slots.set slot none, (t.heap.release _).next⟩)
    rw [Heap.next_release]
  · have hheld : (t.held : Multiset Object) = _ := coe_present_set t.slots slot
    rw [moment, hheld]
    exact leads_release _

/-- Both tables do a step alike, and the heap undergoes changes only. -/
theorem follows_step (v : t.moment.Valid) (hproper : s.Proper) :
    Follows t (t.step s) (t.table.step s) := by
  cases s with
  | singleton object =>
    refine .addShared v fun o ho => ?_
    obtain rfl := Option.some.inj ho
    exact v.lookup_of_mem_objects (List.mem_append_left _ hproper)
  | make content =>
    have hdraws : Yield.DrawsOn t.held (.fresh content) := by
      intro o ho
      rw [Yield.sources, show content.items = [] from hproper] at ho
      cases ho
    exact .addYield v hdraws
  | makeArray items =>
    have hdraws : Yield.DrawsOn t.held
        (.fresh (.array (items.map fun item => item.bind t.object?))) := by
      intro o ho
      obtain ⟨item, -, hitem⟩ := List.mem_map.1 (mem_present.1 ho)
      obtain ⟨slot, -, hslot⟩ := Option.bind_eq_some_iff.1 hitem
      exact Registry.mem_objects_of_held (mem_held_of_object? hslot)
    exact .addYield v hdraws
  | unary op a =>
    exact .withObject fun x hx => .addOutcome v fun yielded hyielded =>
      Object.drawsOn_unary op (mem_held_of_object? hx) hyielded
  | binary op a b =>
    exact .withObjects fun x y hx hy => .addOutcome v fun yielded hyielded =>
      Object.drawsOn_apply hx hy hyielded
  | member a b =>
    refine .withObjects fun x y _ hy => ?_
    have hmember : t.heap.member x y = x.member t.held y := by
      refine v.member_eq fun _ object => ?_
      -- the key is held by a slot already
      rw [Registry.mem_objects_cons]
      exact or_iff_left_of_imp (Registry.mem_objects_of_mem_parts hy)
    show Follows t _ (t.table.add (x.member t.held y))
    rw [← hmember]
    exact .addShared v fun o ho => v.lookup_of_member ho
  | lookup id =>
    show Follows t _ (t.table.add (Registry.lookup t.held id))
    rw [← v.lookup_eq id]
    refine .addShared v fun o ho => ?_
    obtain ⟨-, -, hid⟩ := v.lookup_eq_some_iff.1 ho
    rw [hid]
    exact ho
  | parse text => exact follows_parse v text
  | equal a b => exact .withObjects fun x y _ _ => .refl t _
  | scalar a => exact .withObject fun x _ => .refl t _
  | drop slot => exact follows_drop t slot

/-! ## Any number of steps -/

theorem run_cons (t : Slots) (s : Table.Step) (steps : List Table.Step) :
    t.run (s :: steps) =
      ((t.step s).1, (t.step s).2.heap.keys.length) :: (t.step s).2.run steps := rfl

theorem table_run_cons (t : Table) (s : Table.Step) (steps : List Table.Step) :
    t.run (s :: steps) = ((t.step s).1, (t.step s).2.live) :: (t.step s).2.run steps := rfl

theorem live_table (v : t.moment.Valid) : t.table.live = t.heap.keys.length :=
  v.length_keys.symm

/-- Counting changes no answer, and the registry always has as many keys as there are live
objects. -/
theorem run_eq (v : t.moment.Valid) (hproper : ∀ s ∈ steps, s.Proper) :
    t.run steps = t.table.run steps := by
  induction steps generalizing t with
  | nil => rfl
  | cons s steps ih =>
    obtain ⟨heq, hleads⟩ := follows_step v (hproper s List.mem_cons_self)
    have v' := v.leads hleads
    have hrest := ih v' fun s hs => hproper s (List.mem_cons_of_mem _ hs)
    rw [run_cons, table_run_cons, heq, live_table v', hrest]

theorem leads_after (v : t.moment.Valid) (hproper : ∀ s ∈ steps, s.Proper) :
    Leads t.moment (t.after steps).moment := by
  induction steps generalizing t with
  | nil => exact .refl
  | cons s steps ih =>
    have hstep := (follows_step v (hproper s List.mem_cons_self)).leads
    exact hstep.trans (ih (v.leads hstep) fun s hs => hproper s (List.mem_cons_of_mem _ hs))

end Counted.Slots

end Parley.Formula
