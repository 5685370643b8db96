import Parley.Proofs.Formula.Identity
import Parley.Proofs.Formula.Printing

/-!
# Equality of objects

Objects are equal when they agree in all but the identifiers of their integers and arrays.
Nothing that can be done with objects tells equal ones apart: operations have equal results,
members are the same, and the printed forms are the same text. The printed form in turn tells
objects apart that have neither bare objects nor absent slots in them.

- `Object.face`: what equality looks at.
- `Yield.Equals`, `Outcome.Related`: results that are equal, whatever identifiers they draw.
- `Object.apply_congr` and its like: operations on equal objects.
- `Object.code_append_inj`: a printed value can be told from what stands behind it.
- `Object.equality_laws`: the laws of equality.
-/

namespace Parley.Formula

namespace Object

/-! ## Faces -/

mutual

/-- An object without the identifiers of its integers and arrays. A bare object has nothing
else to tell it by and keeps its own. -/
def face : Object → Object
  | .null => .null
  | .view => .view
  | .boolean value => .boolean value
  | .integer _ value => .integer 0 value
  | .array _ items => .array 0 (slotFaces items)
  | .bare id => .bare id

def slotFaces : List (Option Object) → List (Option Object)
  | [] => []
  | none :: items => none :: slotFaces items
  | some object :: items => some object.face :: slotFaces items

end

theorem slotFaces_eq (items : List (Option Object)) :
    slotFaces items = items.map (Option.map face) := by
  induction items with
  | nil => rfl
  | cons slot items ih => cases slot <;> simp [slotFaces, ih]

@[simp] theorem face_array (id : ObjectId) (items : List (Option Object)) :
    (Object.array id items).face = .array 0 (items.map (Option.map face)) := by
  rw [face, slotFaces_eq]

/-- Slots are equal one by one where their objects are told by their faces. -/
theorem equalSlots_iff_faces {items items' : List (Option Object)}
    (h : ∀ a, some a ∈ items → ∀ b : Object, a.equal b = true ↔ a.face = b.face) :
    equalSlots items items' = true ↔
      items.map (Option.map face) = items'.map (Option.map face) := by
  induction items generalizing items' with
  | nil => cases items' <;> simp [equalSlots]
  | cons slot items ih =>
    have hrest := fun items' => @ih items' fun a ha => h a (List.mem_cons_of_mem _ ha)
    cases items' with
    | nil => cases slot <;> simp [equalSlots]
    | cons slot' items' =>
      cases slot with
      | none => cases slot' <;> simp [equalSlots, hrest]
      | some a =>
        have hfirst := h a List.mem_cons_self
        cases slot' <;> simp [equalSlots, hrest, hfirst]

theorem equal_iff_face {a b : Object} : a.equal b = true ↔ a.face = b.face := by
  induction a using Object.induction generalizing b with
  | null | view | boolean | integer | bare => cases b <;> simp [equal, face]
  | array id items ih =>
    cases b with
    | array id' items' => simpa [equal] using equalSlots_iff_faces fun a ha b => ih a ha
    | null | view | boolean | integer | bare => simp [equal, face]

variable {a a' b b' c : Object}

theorem beq_iff_face : (a == b) = true ↔ a.face = b.face :=
  equal_iff_face

instance : EquivBEq Object where
  rfl := beq_iff_face.2 rfl
  symm h := beq_iff_face.2 (beq_iff_face.1 h).symm
  trans h h' := beq_iff_face.2 ((beq_iff_face.1 h).trans (beq_iff_face.1 h'))

/-! ### What a face shows -/

theorem integer?_congr (h : a == b) : a.integer? = b.integer? := by
  have hface : ∀ o : Object, o.face.integer? = o.integer? := fun o => by cases o <;> rfl
  rw [← hface a, beq_iff_face.1 h, hface b]

theorem boolean?_congr (h : a == b) : a.boolean? = b.boolean? := by
  have hface : ∀ o : Object, o.face.boolean? = o.boolean? := fun o => by cases o <;> rfl
  rw [← hface a, beq_iff_face.1 h, hface b]

/-- The slots of an array. -/
def slots? : Object → Option (List (Option Object))
  | .array _ items => some items
  | _ => none

/-- Slots whose objects have the same faces. -/
def SameSlots (items items' : List (Option Object)) : Prop :=
  items.map (Option.map face) = items'.map (Option.map face)

theorem SameSlots.append {xs xs' ys ys' : List (Option Object)} (h : SameSlots xs xs')
    (h' : SameSlots ys ys') : SameSlots (xs ++ ys) (xs' ++ ys') := by
  rw [SameSlots, List.map_append, List.map_append, h, h']

theorem slots?_congr (h : a == b) : Option.Rel SameSlots a.slots? b.slots? := by
  have hface := beq_iff_face.1 h
  cases a with
  | array id items =>
    cases b with
    | array id' items' =>
      rw [face_array, face_array] at hface
      exact .some (Object.array.inj hface).2
    | null | view | boolean | integer | bare => simp [face] at hface
  | null | view | boolean | integer | bare =>
    cases b with
    | array id' items' => simp [face] at hface
    | null | view | boolean | integer | bare => exact .none

@[simp] theorem shape_face (o : Object) : o.face.shape = o.shape := by
  induction o using Object.induction with
  | null | view | boolean | integer | bare => simp [face, shape]
  | array id items ih =>
    rw [face_array, shape_array, shape_array, List.map_map]
    refine congrArg Shape.array (List.map_congr_left fun slot hslot => ?_)
    cases slot with
    | none => rfl
    | some o => exact congrArg some (ih o hslot)

theorem shape_congr (h : a == b) : a.shape = b.shape := by
  rw [← shape_face, beq_iff_face.1 h, shape_face]

/-- Equal objects are printed alike. -/
theorem code_congr (h : a == b) : a.code = b.code := by
  rw [← code_shape, shape_congr h, code_shape]

end Object

/-! ## Equal results -/

/-- The objects that two operations result in are equal, whichever identifiers new ones get. -/
def Yield.Equals (yielded yielded' : Yield) : Prop :=
  ∀ next next', (yielded.settle next).1 == (yielded'.settle next').1

namespace Yield

variable {a b : Object} {items items' : List (Option Object)}

theorem equals_existing (h : a == b) : Equals (.existing a) (.existing b) :=
  fun _ _ => h

theorem equals_integer (value : Int64) :
    Equals (.fresh (.integer value)) (.fresh (.integer value)) :=
  fun _ _ => Object.beq_iff_face.2 rfl

theorem equals_array (h : Object.SameSlots items items') :
    Equals (.fresh (.array items)) (.fresh (.array items')) := by
  intro next next'
  refine Object.beq_iff_face.2 ?_
  show (Object.array next items).face = (Object.array next' items').face
  rw [Object.face_array, Object.face_array, h]

end Yield

namespace Outcome

variable {ε α β : Type} {r : α → β → Prop}

/-- Two outcomes of one kind: values that are related, no value, or the same fault. -/
inductive Related (r : α → β → Prop) : Outcome ε α → Outcome ε β → Prop
  | found {a : α} {b : β} (h : r a b) : Related r (.found a) (.found b)
  | missing : Related r .missing .missing
  | fault (cause : ε) : Related r (.fault cause) (.fault cause)

theorem related_ofOption {a? : Option α} {b? : Option β} (h : Option.Rel r a? b?) :
    Related (ε := ε) r (.ofOption a?) (.ofOption b?) := by
  cases h with
  | some h => exact .found h
  | none => exact .missing

end Outcome

namespace Object

variable {a a' b b' : Object}

/-! ## Operations on one object -/

theorem plus_congr (h : a == a') : Option.Rel Yield.Equals a.plus a'.plus := by
  have hplus : ∀ o : Object, o.plus = o.integer?.map fun _ => .existing o :=
    fun o => by cases o <;> rfl
  rw [hplus a, hplus a', integer?_congr h]
  cases a'.integer? with
  | none => exact .none
  | some value => exact .some (Yield.equals_existing h)

theorem minus_congr (h : a == a') : Option.Rel Yield.Equals a.minus a'.minus := by
  have hminus : ∀ o : Object, o.minus = o.integer?.map fun value => .fresh (.integer (-value)) :=
    fun o => by cases o <;> rfl
  rw [hminus a, hminus a', integer?_congr h]
  cases a'.integer? with
  | none => exact .none
  | some value => exact .some (Yield.equals_integer _)

theorem negate_congr (h : a == a') : Option.Rel Yield.Equals a.negate a'.negate := by
  have hnegate : ∀ o : Object, o.negate = o.boolean?.map fun value => .existing (.boolean !value) :=
    fun o => by cases o <;> rfl
  rw [hnegate a, hnegate a', boolean?_congr h]
  cases a'.boolean? with
  | none => exact .none
  | some value => exact .some (Yield.equals_existing BEq.rfl)

theorem unary_congr (op : Table.UnaryOp) (h : a == a') :
    Option.Rel Yield.Equals (op.apply a) (op.apply a') := by
  cases op with
  | clone => exact .some (Yield.equals_existing h)
  | plus => exact plus_congr h
  | minus => exact minus_congr h
  | negate => exact negate_congr h

/-! ## Operations on two objects -/

section Families

variable (ha : a == a') (hb : b == b')
include ha hb

theorem arithmetic_congr (f : Int64 → Int64 → Int64) :
    Option.Rel Yield.Equals (arithmetic f a b) (arithmetic f a' b') := by
  have heq : ∀ a b : Object, arithmetic f a b =
      a.integer?.bind fun x => b.integer?.map fun y => .fresh (.integer (f x y)) :=
    fun a b => by cases a <;> cases b <;> rfl
  rw [heq a, heq a', integer?_congr ha, integer?_congr hb]
  cases a'.integer? with
  | none => exact .none
  | some x =>
    cases b'.integer? with
    | none => exact .none
    | some y => exact .some (Yield.equals_integer _)

theorem quotient_congr (f : Int64 → Int64 → Int64) :
    Outcome.Related Yield.Equals (quotient f a b) (quotient f a' b') := by
  have heq : ∀ a b : Object, quotient f a b =
      (a.integer?.bind fun x => b.integer?.map fun y =>
        if y = 0 then .fault .divisionByZero else .found (.fresh (.integer (f x y)))).getD
        .missing :=
    fun a b => by cases a <;> cases b <;> rfl
  rw [heq a, heq a', integer?_congr ha, integer?_congr hb]
  cases a'.integer? with
  | none => exact .missing
  | some x =>
    cases b'.integer? with
    | none => exact .missing
    | some y =>
      dsimp only [Option.bind, Option.map, Option.getD]
      split
      · exact .fault _
      · exact .found (Yield.equals_integer _)

theorem logic_congr (f : Bool → Bool → Bool) :
    Option.Rel Yield.Equals (logic f a b) (logic f a' b') := by
  have heq : ∀ a b : Object, logic f a b =
      a.boolean?.bind fun x => b.boolean?.map fun y => .existing (.boolean (f x y)) :=
    fun a b => by cases a <;> cases b <;> rfl
  rw [heq a, heq a', boolean?_congr ha, boolean?_congr hb]
  cases a'.boolean? with
  | none => exact .none
  | some x =>
    cases b'.boolean? with
    | none => exact .none
    | some y => exact .some (Yield.equals_existing BEq.rfl)

theorem add_congr : Option.Rel Yield.Equals (a.add b) (a'.add b') := by
  have heq : ∀ a b : Object, a.add b =
      (a.slots?.bind fun xs => b.slots?.map fun ys =>
        if ys.isEmpty then .existing a else .fresh (.array (xs ++ ys))).or
        (arithmetic (· + ·) a b) := by
    intro a b
    cases a <;> cases b <;> try rfl
    case array.array i xs j ys => cases ys <;> rfl
  have harithmetic := arithmetic_congr ha hb (· + ·)
  have hxs := slots?_congr ha
  have hys := slots?_congr hb
  rw [heq a, heq a']
  generalize a.slots? = xs?, a'.slots? = xs'? at hxs
  generalize b.slots? = ys?, b'.slots? = ys'? at hys
  cases hxs with
  | none => exact harithmetic
  | some hxs =>
    cases hys with
    | none => exact harithmetic
    | @some ys ys' hys =>
      cases ys with
      | nil =>
        obtain rfl := List.map_eq_nil_iff.1 hys.symm
        exact .some (Yield.equals_existing ha)
      | cons y ys =>
        obtain ⟨y', ys', rfl, -, -⟩ := List.map_eq_cons_iff.1 hys.symm
        exact .some (Yield.equals_array (hxs.append hys))

end Families

/-- Operators on equal operands have equal results, or have none for the same reason. -/
theorem apply_congr (op : BinaryOp) (ha : a == a') (hb : b == b') :
    Outcome.Related Yield.Equals (a.apply op b) (a'.apply op b') := by
  cases op with
  | add => exact Outcome.related_ofOption (add_congr ha hb)
  | subtract | multiply => exact Outcome.related_ofOption (arithmetic_congr ha hb _)
  | divide | modulo => exact quotient_congr ha hb _
  | and | or | xor => exact Outcome.related_ofOption (logic_congr ha hb _)

/-- Members of the view go by the value of the integer alone. -/
theorem member_congr (h : Heap) (ha : a == a') (hb : b == b') : h.member a b = h.member a' b' := by
  have hface : ∀ a b : Object, h.member a.face b.face = h.member a b :=
    fun a b => by cases a <;> cases b <;> rfl
  rw [← hface a, ← hface a', beq_iff_face.1 ha, beq_iff_face.1 hb]

end Object

/-! ## Printed values and what stands behind them -/

/-- What may stand behind an item of an array: another item, or the end of the array. -/
def Stops (rest : List Char) : Prop :=
  ∀ ch ∈ rest.head?, ch = ',' ∨ ch = ']'

theorem stops_nil : Stops [] := nofun

theorem stops_cons {ch : Char} {rest : List Char} (h : ch = ',' ∨ ch = ']') :
    Stops (ch :: rest) := by
  intro ch' hch'
  cases hch'
  exact h

/-- A word ends where an item may end. -/
theorem append_inj_of_stops {word word' rest rest' : List Char}
    (hword : ∀ ch ∈ word, ch ≠ ',' ∧ ch ≠ ']') (hword' : ∀ ch ∈ word', ch ≠ ',' ∧ ch ≠ ']')
    (hrest : Stops rest) (hrest' : Stops rest') (h : word ++ rest = word' ++ rest') :
    word = word' ∧ rest = rest' := by
  have hno : ∀ {ch : Char} {word rest : List Char}, (∀ c ∈ ch :: word, c ≠ ',' ∧ c ≠ ']') →
      Stops rest → rest.head? ≠ some ch := by
    intro ch word rest hword hrest hhead
    obtain ⟨hcomma, hbracket⟩ := hword ch List.mem_cons_self
    exact (hrest ch hhead).elim hcomma hbracket
  induction word generalizing word' with
  | nil =>
    cases word' with
    | nil => exact ⟨rfl, h⟩
    | cons ch word' => exact absurd (congrArg List.head? h) (hno hword' hrest)
  | cons ch word ih =>
    cases word' with
    | nil => exact absurd (congrArg List.head? h).symm (hno hword hrest')
    | cons ch' word' =>
      obtain ⟨rfl, htail⟩ := List.cons.inj h
      obtain ⟨rfl, hrests⟩ := ih (fun c hc => hword c (List.mem_cons_of_mem _ hc))
        (fun c hc => hword' c (List.mem_cons_of_mem _ hc)) htail
      exact ⟨rfl, hrests⟩

namespace Object

/-- An object that is no array is printed as one word. -/
theorem mem_code_of_depth {o : Object} (h : o.depth = 0) :
    ∀ ch ∈ o.code.toList, ch ≠ '[' ∧ ch ≠ ',' ∧ ch ≠ ']' := by
  cases o with
  | array id items => simp at h
  | null | view | bare id => simp [code]
  | boolean value => cases value <;> simp [code, boolWord]
  | integer id value =>
    intro ch hch
    rw [code, ← Numeral.text_ofInt64] at hch
    obtain hdigit | ⟨sign, rfl⟩ := Numeral.of_mem_text hch
    · refine ⟨?_, ?_, ?_⟩ <;> rintro rfl <;> exact absurd hdigit (by decide)
    · cases sign <;> decide

/-- The printed form of an object that is not too deep can be evaluated to it, so that it tells
the shape. -/
theorem compact_eq_of_code_eq {v w : Object} (hv : v.depth ≤ maxNesting) (hw : w.depth ≤ maxNesting)
    (h : v.code = w.code) : v.shape.compact = w.shape.compact := by
  obtain ⟨v', hv', hvshape⟩ := parse_code_of_depth_le [] 0 hv
  obtain ⟨w', hw', hwshape⟩ := parse_code_of_depth_le [] 0 hw
  rw [h, hw'] at hv'
  rw [← hvshape, ← hwshape, Except.ok.inj hv']

/-- The items of an array can be told one from the other, and from what stands behind it. -/
theorem items_append_inj {v w : Object} {vs ws : List Object} {rest rest' : List Char}
    (hitems : ∀ o ∈ v :: vs, ∀ (o' : Object) {rest rest' : List Char}, Stops rest → Stops rest' →
      o.tree.spell rest = o'.tree.spell rest' → o.shape.compact = o'.shape.compact ∧ rest = rest')
    (h : (Items.ofList v.tree (vs.map tree)).spell rest =
      (Items.ofList w.tree (ws.map tree)).spell rest') :
    (v :: vs).map (fun o => some o.shape.compact) =
        (w :: ws).map (fun o => some o.shape.compact) ∧
      rest = rest' := by
  induction vs generalizing v w ws with
  | nil =>
    cases ws with
    | nil =>
      obtain ⟨hfirst, hrest⟩ :=
        hitems v (by simp) w (stops_cons (.inr rfl)) (stops_cons (.inr rfl)) h
      exact ⟨by simp [hfirst], (List.cons.inj hrest).2⟩
    | cons u ws =>
      obtain ⟨-, hrest⟩ := hitems v (by simp) w (stops_cons (.inr rfl)) (stops_cons (.inl rfl)) h
      exact absurd (List.cons.inj hrest).1 (by decide)
  | cons u vs ih =>
    cases ws with
    | nil =>
      obtain ⟨-, hrest⟩ := hitems v (by simp) w (stops_cons (.inl rfl)) (stops_cons (.inr rfl)) h
      exact absurd (List.cons.inj hrest).1 (by decide)
    | cons x ws =>
      obtain ⟨hfirst, hrest⟩ :=
        hitems v (by simp) w (stops_cons (.inl rfl)) (stops_cons (.inl rfl)) h
      obtain ⟨hothers, hrests⟩ :=
        ih (fun o ho => hitems o (List.mem_cons_of_mem _ ho)) (List.cons.inj hrest).2
      exact ⟨by rw [List.map_cons, hfirst, hothers]; rfl, hrests⟩

theorem compact_shape_array (id : ObjectId) (items : List (Option Object)) :
    (Object.array id items).shape.compact =
      .array ((present items).map fun o => some o.shape.compact) := by
  rw [shape_array, Shape.compact_array, present_map, List.map_map]
  rfl

theorem exists_spell_array (id : ObjectId) (items : List (Option Object)) (rest : List Char) :
    ∃ more, (Object.array id items).tree.spell rest = '[' :: more := by
  rw [tree_array]
  cases (present items).map tree <;> exact ⟨_, rfl⟩

/-- A word can be told from what stands behind it, and from an array. -/
theorem word_append_inj {v w : Object} {rest rest' : List Char} (hv : v.depth = 0)
    (hrest : Stops rest) (hrest' : Stops rest') (h : v.tree.spell rest = w.tree.spell rest') :
    v.shape.compact = w.shape.compact ∧ rest = rest' := by
  by_cases hw : w.depth = 0
  case pos =>
    rw [spell_tree, spell_tree] at h
    obtain ⟨hcode, hrests⟩ := append_inj_of_stops (fun ch hch => (mem_code_of_depth hv ch hch).2)
      (fun ch hch => (mem_code_of_depth hw ch hch).2) hrest hrest' h
    exact ⟨compact_eq_of_code_eq (hv.trans_le (Nat.zero_le _)) (hw.trans_le (Nat.zero_le _))
      (String.toList_inj.1 hcode), hrests⟩
  case neg =>
    cases w with
    | null | view | boolean | integer | bare => exact absurd rfl hw
    | array id items =>
      obtain ⟨more, hmore⟩ := exists_spell_array id items rest'
      rw [spell_tree, hmore] at h
      cases hcode : v.code.toList with
      | nil =>
        rw [hcode, List.nil_append] at h
        have hstop := hrest '[' (congrArg List.head? h)
        exact absurd hstop (by decide)
      | cons ch word =>
        rw [hcode] at h
        obtain ⟨rfl, -⟩ := List.cons.inj h
        exact absurd rfl (mem_code_of_depth hv '[' (hcode ▸ List.mem_cons_self)).1

/-- The printed form of an object tells its shape, absent slots apart, and where it ends. -/
theorem tree_append_inj {v w : Object} {rest rest' : List Char} (hrest : Stops rest)
    (hrest' : Stops rest') (h : v.tree.spell rest = w.tree.spell rest') :
    v.shape.compact = w.shape.compact ∧ rest = rest' := by
  induction v using Object.induction generalizing w rest rest' with
  | null | view | boolean | integer | bare => exact word_append_inj rfl hrest hrest' h
  | array id items ih =>
    by_cases hw : w.depth = 0
    case pos =>
      obtain ⟨hshape, hrests⟩ := word_append_inj hw hrest' hrest h.symm
      exact ⟨hshape.symm, hrests.symm⟩
    case neg =>
      cases w with
      | null | view | boolean | integer | bare => exact absurd rfl hw
      | array id' items' =>
        have hitems := fun o ho => @ih o (mem_present.1 ho)
        rw [compact_shape_array, compact_shape_array]
        rw [tree_array, tree_array] at h
        cases hp : present items with
        | nil =>
          cases hp' : present items' with
          | nil =>
            rw [hp, hp'] at h
            exact ⟨rfl, by simpa [Tree.ofList, Tree.spell] using h⟩
          | cons w ws =>
            -- no item begins with a bracket to the right
            rw [hp, hp'] at h
            have hhead := (Items.ofList w.tree (ws.map tree)).head_ne_bracket rest'
            rw [← (List.cons.inj h).2] at hhead
            exact absurd rfl hhead
        | cons v vs =>
          cases hp' : present items' with
          | nil =>
            rw [hp, hp'] at h
            have hhead := (Items.ofList v.tree (vs.map tree)).head_ne_bracket rest
            rw [(List.cons.inj h).2] at hhead
            exact absurd rfl hhead
          | cons w ws =>
            rw [hp, hp'] at h
            rw [hp] at hitems
            obtain ⟨hshapes, hrests⟩ :=
              items_append_inj (fun o ho o' _ _ => hitems o ho) (List.cons.inj h).2
            exact ⟨congrArg Shape.array hshapes, hrests⟩

theorem code_append_inj {v w : Object} {rest rest' : List Char} (hrest : Stops rest)
    (hrest' : Stops rest') (h : v.code.toList ++ rest = w.code.toList ++ rest') :
    v.shape.compact = w.shape.compact ∧ rest = rest' := by
  rw [← spell_tree, ← spell_tree] at h
  exact tree_append_inj hrest hrest' h

theorem compact_shape_of_plain {o : Object} (h : o.plain = true) :
    o.shape.compact = o.shape := by
  induction o using Object.induction with
  | null | view | boolean | integer | bare => simp [shape, Shape.compact]
  | array id items ih =>
    obtain ⟨hnone, hplain⟩ := plainSlots_iff.1 h
    have hitems : (present items).map (fun o => some o.shape.compact) =
        (present items).map (fun o => some o.shape) :=
      List.map_congr_left fun o ho =>
        congrArg some (ih o (mem_present.1 ho) (hplain o (mem_present.1 ho)))
    rw [compact_shape_array, hitems, shape_array, ← map_some_present hnone, List.map_map,
      present_map_some, List.map_id']
    rfl

/-- Plain objects that are printed alike are equal, however deep they are. -/
theorem beq_of_code_eq {v w : Object} (hv : v.plain = true) (hw : w.plain = true)
    (h : v.code = w.code) : v == w := by
  obtain ⟨hshape, -⟩ := code_append_inj (v := v) (w := w) stops_nil stops_nil (by rw [h])
  rw [compact_shape_of_plain hv] at hshape
  exact equal_of_shape hw hshape

/-! ## The laws -/

open Moment

/-- **Equality.** It is reflexive, symmetric and transitive. Equal objects show the same integer
or truth value; operations on them have equal results, or none for the same reason; in every
state of the registry the same members are found by them; and they are printed alike. Objects
without bare objects and absent slots that are printed alike are equal. -/
theorem equality_laws :
    (∀ a : Object, a == a) ∧
      (∀ a b : Object, a == b → b == a) ∧
      (∀ a b c : Object, a == b → b == c → a == c) ∧
      (∀ a b : Object, a == b → a.integer? = b.integer? ∧ a.boolean? = b.boolean?) ∧
      (∀ (op : Table.UnaryOp) (a a' : Object), a == a' →
        Option.Rel Yield.Equals (op.apply a) (op.apply a')) ∧
      (∀ (op : BinaryOp) (a a' b b' : Object), a == a' → b == b' →
        Outcome.Related Yield.Equals (a.apply op b) (a'.apply op b')) ∧
      (∀ (h : Heap) (held : List Object), Leads Moment.start ⟨h, held⟩ →
        ∀ a a' b b' : Object, b ∈ Registry.objects held → b' ∈ Registry.objects held →
          a == a' → b == b' →
            h.member a b = h.member a' b' ∧ a.member held b = h.member a b ∧
              a'.member held b' = h.member a' b') ∧
      (∀ a b : Object, a == b → a.code = b.code) ∧
      ∀ a b : Object, a.plain = true → b.plain = true → a.code = b.code → a == b := by
  refine ⟨fun a => BEq.rfl, fun a b => BEq.symm, fun a b c => BEq.trans,
    fun a b h => ⟨integer?_congr h, boolean?_congr h⟩, fun op a a' => unary_congr op,
    fun op a a' b b' => apply_congr op, ?_, fun a b => code_congr, fun a b => beq_of_code_eq⟩
  intro h held hreached a a' b b' hb hb' ha hbb
  have v := Valid.start.leads hreached
  -- a key that is alive is held by somebody already, so that looking it up makes no difference
  have hmember : ∀ base key : Object, key ∈ Registry.objects held →
      base.member held key = h.member base key := by
    intro base key hkey
    refine (v.member_eq fun _ object => ?_).symm
    rw [Registry.mem_objects_cons]
    refine or_iff_left_of_imp fun hpart => ?_
    exact forall_mem_parts (fun _ ho _ hitem => Registry.item_mem_objects ho hitem) hkey object
      hpart
  exact ⟨member_congr h ha hbb, hmember a b hb, hmember a' b' hb'⟩

/-- Two arrays that were made at different times around one bare object. -/
theorem equality_laws_bare :
    let a : Object := .array 7 [some (.integer 4 1), none, some (.bare 5)]
    let a' : Object := .array 9 [some (.integer 8 1), none, some (.bare 5)]
    a == a' ∧ Outcome.Related Yield.Equals (a.apply .add a) (a'.apply .add a') ∧
      a.code = a'.code := by
  intro a a'
  have hequal : a == a' := by decide
  obtain ⟨-, -, -, -, -, happly, -, hcode, -⟩ := equality_laws
  exact ⟨hequal, happly .add a a' a a' hequal hequal, hcode a a' hequal⟩

end Object

end Parley.Formula
