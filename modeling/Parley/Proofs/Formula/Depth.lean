import Parley.Proofs.Formula.Printing

/-!
# How deep a value can be

The levels of nesting of a text bound how deep its value is as long as there is
no member access in it. An operand that is still held may be looked up and put
into an array again, which makes the value deeper than the text is nested. Each
member access can add no more than all the levels once.

- `Tree.accesses`: the number of member accesses, each with a point in the text.
- `Object.depth_apply`: operators do not make objects deeper.
- `depthBound`: the depth that so many accesses and levels of nesting allow.
- `Tree.depth_le`: values keep to the bound, by induction on trees.
- `depth_le_of_parse`: the bound for whole texts.
- `exists_deeper_than_nesting`: a flat text whose value is too deep to be printed
  and evaluated again.
-/

namespace Parley.Formula

/-! ## Accesses -/

section Accesses

variable {access : Bool}

mutual

/-- The number of member accesses in a tree. -/
def Tree.accesses : {k : Kind} → Tree access k → Nat
  | _, .chain first tail => first.accesses + tail.accesses
  | _, .plain value => value.accesses
  | _, .member _ base _ name => base.accesses + name.accesses + 1
  | _, .signed _ _ operand => operand.accesses
  | _, .negated _ operand => operand.accesses
  | _, .parens _ inner _ => inner.accesses
  | _, .emptyArray _ _ => 0
  | _, .array _ items => items.accesses
  | _, .word _ _ => 0
  | _, .number _ _ => 0

def Tail.accesses : {l : Level} → Tail access l → Nat
  | _, .nil => 0
  | _, .cons _ _ _ operand tail => operand.accesses + tail.accesses

def Items.accesses : Items access → Nat
  | .last item _ => item.accesses
  | .cons item _ items => item.accesses + items.accesses

end

/-- Characters put before a text do not take points away. -/
theorem count_le_append_cons (text : List Char) (ch : Char) (rest : List Char) :
    rest.count '.' ≤ (text ++ ch :: rest).count '.' := by
  rw [List.count_append, List.count_cons]
  omega

theorem count_le_append (text rest : List Char) : rest.count '.' ≤ (text ++ rest).count '.' := by
  rw [List.count_append]
  omega

mutual

/-- Each member access has a point in the text. -/
theorem Tree.accesses_le : ∀ {k : Kind} (t : Tree access k) (rest : List Char),
    t.accesses + rest.count '.' ≤ (t.spell rest).count '.'
  | _, .chain first tail, rest => by
    have hfirst := first.accesses_le (tail.spell rest)
    have htail := tail.accesses_le rest
    rw [Tree.accesses, Tree.spell]
    omega
  | _, .plain value, rest => value.accesses_le rest
  | _, .member _ base before name, rest => by
    have hbase := base.accesses_le (before.chars ++ '.' :: name.spell rest)
    have hname := name.accesses_le rest
    rw [List.count_append, List.count_cons_self] at hbase
    rw [Tree.accesses, Tree.spell]
    omega
  | _, .signed before sign operand, rest =>
    Nat.le_trans (operand.accesses_le rest) (count_le_append_cons before.chars sign.symbol _)
  | _, .negated before operand, rest =>
    Nat.le_trans (operand.accesses_le rest) (count_le_append_cons before.chars '!' _)
  | _, .parens before inner after, rest => by
    have hinner := inner.accesses_le (after.chars ++ ')' :: rest)
    have hafter := count_le_append_cons after.chars ')' rest
    have hbefore := count_le_append_cons before.chars '(' (inner.spell (after.chars ++ ')' :: rest))
    rw [Tree.accesses, Tree.spell]
    omega
  | _, .emptyArray before inside, rest => by
    have hinside := count_le_append_cons inside.chars ']' rest
    have hbefore := count_le_append_cons before.chars '[' (inside.chars ++ ']' :: rest)
    rw [Tree.accesses, Tree.spell]
    omega
  | _, .array before items, rest =>
    Nat.le_trans (items.accesses_le rest) (count_le_append_cons before.chars '[' _)
  | _, .word before keyword, rest => by
    rw [Tree.accesses, Tree.spell, Nat.zero_add, ← List.append_assoc]
    exact count_le_append _ rest
  | _, .number before numeral, rest => by
    rw [Tree.accesses, Tree.spell, Nat.zero_add, ← List.append_assoc]
    exact count_le_append _ rest

theorem Tail.accesses_le : ∀ {l : Level} (t : Tail access l) (rest : List Char),
    t.accesses + rest.count '.' ≤ (t.spell rest).count '.'
  | _, .nil, rest => Nat.le_of_eq (Nat.zero_add _)
  | _, .cons before op _ operand tail, rest => by
    have hoperand := operand.accesses_le (tail.spell rest)
    have htail := tail.accesses_le rest
    have hbefore := count_le_append_cons before.chars op.symbol (operand.spell (tail.spell rest))
    rw [Tail.accesses, Tail.spell]
    omega

theorem Items.accesses_le : ∀ (t : Items access) (rest : List Char),
    t.accesses + rest.count '.' ≤ (t.spell rest).count '.'
  | .last item after, rest => by
    have hitem := item.accesses_le (after.chars ++ ']' :: rest)
    have hafter := count_le_append_cons after.chars ']' rest
    rw [Items.accesses, Items.spell]
    omega
  | .cons item after items, rest => by
    have hitem := item.accesses_le (after.chars ++ ',' :: items.spell rest)
    have hitems := items.accesses_le rest
    have hafter := count_le_append_cons after.chars ',' (items.spell rest)
    rw [Items.accesses, Items.spell]
    omega

end

theorem Statement.accesses_le (e : Statement access) :
    e.body.accesses ≤ e.text.toList.count '.' := by
  rw [text, String.toList_ofList]
  exact Nat.le_trans (Nat.le_add_right _ _) (e.body.accesses_le e.ending)

end Accesses

/-! ## Operations -/

namespace Object

section Families

variable {a b : Object} {yielded : Yield} {next : ObjectId}

theorem depth_arithmetic {f : Int64 → Int64 → Int64}
    (h : (Outcome.ofOption (arithmetic f a b) : Outcome Fault Yield) = .found yielded) :
    (yielded.settle next).1.depth = 0 := by
  cases a <;> cases b <;> cases h
  rfl

theorem depth_quotient {f : Int64 → Int64 → Int64} (h : quotient f a b = .found yielded) :
    (yielded.settle next).1.depth = 0 := by
  cases a <;> cases b <;> try cases h
  case integer.integer i x j y =>
    rw [quotient] at h
    split at h <;> cases h
    rfl

theorem depth_logic {f : Bool → Bool → Bool}
    (h : (Outcome.ofOption (logic f a b) : Outcome Fault Yield) = .found yielded) :
    (yielded.settle next).1.depth = 0 := by
  cases a <;> cases b <;> cases h
  rfl

theorem slotDepth_append (xs ys : List (Option Object)) :
    slotDepth (xs ++ ys) = max (slotDepth xs) (slotDepth ys) := by
  induction xs with
  | nil => simp [slotDepth]
  | cons slot xs ih => cases slot <;> simp [slotDepth, ih, Nat.max_assoc]

theorem depth_add
    (h : (Outcome.ofOption (a.add b) : Outcome Fault Yield) = .found yielded) :
    (yielded.settle next).1.depth ≤ max a.depth b.depth := by
  match a, b with
  | .array i xs, .array j [] =>
    cases h
    exact Nat.le_max_left ..
  | .array i xs, .array j (y :: ys) =>
    cases h
    simp only [Yield.settle, Content.publish, depth_array, slotDepth_append]
    omega
  | .integer i x, .integer j y =>
    cases h
    exact Nat.zero_le _

end Families

/-- Operators do not make objects deeper. -/
theorem depth_apply {op : BinaryOp} {a b : Object} {yielded : Yield}
    (h : a.apply op b = .found yielded) (next : ObjectId) :
    (yielded.settle next).1.depth ≤ max a.depth b.depth := by
  cases op with
  | add => exact depth_add h
  | subtract | multiply => exact (depth_arithmetic h).trans_le (Nat.zero_le _)
  | divide | modulo => exact (depth_quotient h).trans_le (Nat.zero_le _)
  | and | or | xor => exact (depth_logic h).trans_le (Nat.zero_le _)

theorem depth_withSign {sign : Sign} {a : Object} {yielded : Yield}
    (h : a.withSign sign = some yielded) (next : ObjectId) :
    (yielded.settle next).1.depth = 0 := by
  cases sign <;> cases a <;> cases h <;> rfl

theorem depth_negate {a : Object} {yielded : Yield} (h : a.negate = some yielded)
    (next : ObjectId) : (yielded.settle next).1.depth = 0 := by
  cases a <;> cases h
  rfl

/-- What is looked up is part of something that is held. -/
theorem depth_member {held : List Object} {L : Nat} (hheld : ∀ o ∈ held, o.depth ≤ L)
    {a key object : Object} (h : a.member held key = some object) : object.depth ≤ L := by
  refine le_of_member depth_le_depth_array ?_ (fun _ _ => Nat.zero_le _) hheld h
  intro o ho
  simp only [Registry.singletons, List.mem_cons, List.not_mem_nil, or_false] at ho
  rcases ho with rfl | rfl | rfl | rfl <;> exact Nat.zero_le _

/-- The depth of the deepest of these objects. -/
def deepest (objects : List Object) : Nat :=
  slotDepth (objects.map some)

theorem deepest_le_iff {objects : List Object} {n : Nat} :
    deepest objects ≤ n ↔ ∀ o ∈ objects, o.depth ≤ n := by
  rw [deepest, slotDepth_le_iff]
  simp

end Object

/-! ## Values -/

/-- The depth that `accesses` member accesses and `nesting` levels of nesting
allow, while no object that is held is deeper than `L`. Without an access it does
not matter what is held; each access but the last one may take up all levels. -/
def depthBound (L accesses nesting : Nat) : Nat :=
  if accesses = 0 then nesting else L + (accesses - 1) * maxNesting + nesting

section Bound

variable {L k n : Nat}

theorem depthBound_zero (L n : Nat) : depthBound L 0 n = n := rfl

theorem depthBound_succ (L k n : Nat) : depthBound L (k + 1) n = L + k * maxNesting + n := rfl

theorem depthBound_add_one (L k n : Nat) : depthBound L k n + 1 = depthBound L k (n + 1) := by
  cases k <;> rfl

theorem depthBound_le (hL : maxNesting ≤ L) (hn : n ≤ maxNesting) :
    depthBound L k n ≤ L + k * maxNesting := by
  cases k with
  | zero =>
    rw [depthBound_zero]
    omega
  | succ k =>
    rw [depthBound_succ, Nat.succ_mul]
    omega

/-- What was read before, with a depth of `m`, is held and may be looked up from
then on. -/
theorem depthBound_add {k₁ n₁ m : Nat} (k₂ n₂ : Nat) (hL : maxNesting ≤ L)
    (hm : m ≤ depthBound L k₁ n₁) (h₁ : n₁ ≤ maxNesting) :
    max m (depthBound (max L m) k₂ n₂) ≤ depthBound L (k₁ + k₂) (max n₁ n₂) := by
  cases k₁ with
  | zero =>
    -- without an access it is no deeper than what is held already
    rw [depthBound_zero] at hm
    rw [Nat.zero_add, Nat.max_eq_left (Nat.le_trans hm (Nat.le_trans h₁ hL))]
    cases k₂ with
    | zero =>
      rw [depthBound_zero, depthBound_zero]
      omega
    | succ k₂ =>
      rw [depthBound_succ, depthBound_succ]
      omega
  | succ k₁ =>
    rw [depthBound_succ] at hm
    rw [Nat.add_right_comm, depthBound_succ, Nat.add_mul]
    cases k₂ with
    | zero =>
      rw [depthBound_zero]
      omega
    | succ k₂ =>
      rw [depthBound_succ, Nat.succ_mul]
      omega

theorem forall_mem_cons_le {held : List Object} (h : ∀ o ∈ held, o.depth ≤ L) (object : Object) :
    ∀ o ∈ object :: held, o.depth ≤ max L object.depth := by
  intro o ho
  rcases List.mem_cons.1 ho with rfl | ho
  · exact Nat.le_max_right ..
  · exact Nat.le_trans (h o ho) (Nat.le_max_left ..)

end Bound

mutual

/-- The value of a tree is no deeper than its accesses and its levels allow. -/
theorem Tree.depth_le : ∀ {k : Kind} (t : Tree true k) {held : List Object} {low high : ObjectId}
    {object : Object} {L : Nat}, t.Evaluates held low object high →
      (∀ o ∈ held, o.depth ≤ L) → maxNesting ≤ L → t.nesting ≤ maxNesting →
        object.depth ≤ depthBound L t.accesses t.nesting
  | _, .chain first tail, held, low, high, object, L, h, hheld, hL, hn => by
    obtain ⟨left, mid, hleft, htail⟩ := h
    obtain ⟨hfirst, hrest⟩ := Nat.max_le.1 hn
    exact tail.depth_le htail hheld hL hrest hfirst (first.depth_le hleft hheld hL hfirst)
  | _, .plain value, held, low, high, object, L, h, hheld, hL, hn =>
    value.depth_le h hheld hL hn
  | _, .member _ base before name, held, low, high, object, L, h, hheld, hL, hn => by
    -- what is looked up was held before, however deep the parts of the tree are
    obtain ⟨a, mid, key, -, -, hmember⟩ := h
    have hobject := Object.depth_member hheld hmember
    rw [Tree.accesses, depthBound_succ]
    omega
  | _, .signed before sign operand, held, low, high, object, L, h, hheld, hL, hn => by
    obtain ⟨a, mid, yielded, -, hyield, next, -, rfl, -⟩ := h
    rw [Object.depth_withSign hyield]
    exact Nat.zero_le _
  | _, .negated before operand, held, low, high, object, L, h, hheld, hL, hn => by
    obtain ⟨a, mid, yielded, -, hyield, next, -, rfl, -⟩ := h
    rw [Object.depth_negate hyield]
    exact Nat.zero_le _
  | _, .parens before inner after, held, low, high, object, L, h, hheld, hL, hn => by
    have hinner := inner.depth_le h hheld hL (Nat.le_of_succ_le hn)
    rw [Tree.accesses, Tree.nesting, ← depthBound_add_one]
    exact Nat.le_succ_of_le hinner
  | _, .emptyArray before inside, held, low, high, object, L, h, hheld, hL, hn => by
    obtain ⟨next, -, rfl, -⟩ := h
    exact Nat.le_refl 1
  | _, .array before items, held, low, high, object, L, h, hheld, hL, hn => by
    obtain ⟨objects, mid, hitems, next, -, rfl, -⟩ := h
    have hdepth := items.depth_le hitems hheld hL (Nat.le_of_succ_le hn)
    rw [Tree.accesses, Tree.nesting, ← depthBound_add_one]
    exact Nat.succ_le_succ (Object.deepest_le_iff.2 hdepth)
  | _, .word before keyword, held, low, high, object, L, h, hheld, hL, hn => by
    obtain ⟨next, -, rfl, -⟩ := h
    rcases keyword with - | - | - | - | - <;> exact Nat.le_refl 0
  | _, .number before numeral, held, low, high, object, L, h, hheld, hL, hn => by
    obtain ⟨next, -, rfl, -⟩ := h
    exact Nat.le_refl 0

/-- The same with the value of the chain so far, which came of `k₁` accesses and
`n₁` levels. -/
theorem Tail.depth_le : ∀ {l : Level} (t : Tail true l) {held : List Object} {low high : ObjectId}
    {left object : Object} {L k₁ n₁ : Nat}, t.Evaluates held left low object high →
      (∀ o ∈ held, o.depth ≤ L) → maxNesting ≤ L → t.nesting ≤ maxNesting → n₁ ≤ maxNesting →
        left.depth ≤ depthBound L k₁ n₁ →
          object.depth ≤ depthBound L (k₁ + t.accesses) (max n₁ t.nesting)
  | _, .nil, held, low, high, left, object, L, k₁, n₁, h, hheld, hL, hn, hn₁, hleft => by
    obtain ⟨rfl, -⟩ := h
    rw [Tail.accesses, Tail.nesting, Nat.add_zero, Nat.max_zero]
    exact hleft
  | _, .cons before op _ operand tail, held, low, high, left, object, L, k₁, n₁, h, hheld, hL, hn,
      hn₁, hleft => by
    obtain ⟨right, mid, yielded, left', mid', hright, happly, ⟨next, -, rfl, -⟩, htail⟩ := h
    obtain ⟨hoperand, hrest⟩ := Nat.max_le.1 hn
    -- the value so far is held while the operand is read
    have hdepth := operand.depth_le hright (forall_mem_cons_le hheld left)
      (Nat.le_trans hL (Nat.le_max_left ..)) hoperand
    have hbound := depthBound_add operand.accesses operand.nesting hL hleft hn₁
    have hleft' := Object.depth_apply happly next
    have hnext := tail.depth_le htail hheld hL hrest (Nat.max_le.2 ⟨hn₁, hoperand⟩)
      (show _ ≤ depthBound L (k₁ + operand.accesses) (max n₁ operand.nesting) by omega)
    rw [Tail.accesses, Tail.nesting, ← Nat.add_assoc, ← Nat.max_assoc]
    exact hnext

theorem Items.depth_le : ∀ (t : Items true) {held objects : List Object} {low high : ObjectId}
    {L : Nat}, t.Evaluates held low objects high → (∀ o ∈ held, o.depth ≤ L) → maxNesting ≤ L →
      t.nesting ≤ maxNesting → ∀ o ∈ objects, o.depth ≤ depthBound L t.accesses t.nesting
  | .last item after, held, objects, low, high, L, h, hheld, hL, hn => by
    obtain ⟨object, hitem, rfl⟩ := h
    intro o ho
    obtain rfl := List.mem_singleton.1 ho
    exact item.depth_le hitem hheld hL hn
  | .cons item after items, held, objects, low, high, L, h, hheld, hL, hn => by
    obtain ⟨object, mid, others, hitem, hitems, rfl⟩ := h
    obtain ⟨hfirst, hrest⟩ := Nat.max_le.1 hn
    have hobject := item.depth_le hitem hheld hL hfirst
    have hothers := items.depth_le hitems (forall_mem_cons_le hheld object)
      (Nat.le_trans hL (Nat.le_max_left ..)) hrest
    obtain ⟨hbound, hbounds⟩ :=
      Nat.max_le.1 (depthBound_add items.accesses items.nesting hL hobject hfirst)
    rw [Items.accesses, Items.nesting]
    intro o ho
    rcases List.mem_cons.1 ho with rfl | ho
    · exact hbound
    · exact Nat.le_trans (hothers o ho) hbounds

end

/-! ## Whole texts -/

/-- The value of a text without a point in it is no deeper than nesting allows, so
that its printed form is accepted again. With points, it may be deeper than the
deepest object that is held by all the levels for each point. -/
theorem depth_le_of_parse {held : List Object} {text : String} {next : ObjectId} {v : Object}
    (h : (parse held text next).1 = .ok v) :
    ('.' ∉ text.toList → v.depth ≤ maxNesting ∧
        ∀ held' next', ∃ w, (parse held' v.code next').1 = .ok w) ∧
      v.depth ≤ max maxNesting (Object.deepest held) + text.toList.count '.' * maxNesting := by
  obtain ⟨e, rfl, -, hn, heval⟩ := parse_ok h
  have hheld : ∀ o ∈ held, o.depth ≤ max maxNesting (Object.deepest held) :=
    Object.deepest_le_iff.1 (Nat.le_max_right ..)
  have hdepth := e.body.depth_le heval hheld (Nat.le_max_left ..) hn
  have haccesses := e.accesses_le
  constructor
  · -- without a point there is no access, and what is held does not matter
    intro hpoint
    rw [List.count_eq_zero_of_not_mem hpoint] at haccesses
    rw [Nat.le_zero.1 haccesses, depthBound_zero] at hdepth
    have hv : v.depth ≤ maxNesting := Nat.le_trans hdepth hn
    refine ⟨hv, fun held' next' => ?_⟩
    obtain ⟨w, hw, -⟩ := parse_code_of_depth_le held' next' hv
    exact ⟨w, hw⟩
  · calc
      v.depth ≤ depthBound _ e.body.accesses e.body.nesting := hdepth
      _ ≤ max maxNesting (Object.deepest held) + e.body.accesses * maxNesting :=
        depthBound_le (Nat.le_max_left ..) hn
      _ ≤ max maxNesting (Object.deepest held) + e.text.toList.count '.' * maxNesting :=
        Nat.add_le_add_left (Nat.mul_le_mul_right _ haccesses) _

theorem depth_le_of_parse_array :
    (parse [] "[true]" 4).1 = .ok (.array 4 [some (.boolean true)]) ∧
      (Object.array 4 [some (.boolean true)]).depth ≤ maxNesting := by
  have h : (parse [] "[true]" 4).1 = .ok (.array 4 [some (.boolean true)]) := rfl
  exact ⟨h, ((depth_le_of_parse h).1 (by decide)).1⟩

/-- The value of a text, checked by running the rule on its characters. -/
theorem exists_parse_of_check (held : List Object) (chars : List Char) (next : ObjectId)
    {p : Object → Bool}
    (h : (match statement held (.ofText chars) next with
      | (.found v, c, _) => c.skipSpaces.isAtEnd && p v
      | _ => false) = true) :
    ∃ v, (parse held (String.ofList chars) next).1 = .ok v ∧ p v = true := by
  rcases hs : statement held (.ofText chars) next with ⟨v | - | cause, c, s⟩ <;>
    simp only [hs] at h
  · obtain ⟨hend, hcheck⟩ := Bool.and_eq_true_iff.1 h
    refine ⟨v, ?_, hcheck⟩
    simp only [parse, String.toList_ofList, hs, hend, if_true]
  · cases h
  · cases h

/-- An array of two items. The first one is 127 arrays in each other; the second
one is an array with the outermost of these in it, which it looks up. -/
def flatText : List Char :=
  '[' :: List.replicate 127 '[' ++ List.replicate 127 ']' ++
    [',', '[', 'a', 'l', 'l', 'o', 'b', 'j', '.', '1', '3', '0', ']', ']']

/-- Member access does make a value deeper than nesting allows: the array that is
looked up is an item of the array that is still being read. The value is printed,
but not accepted again. -/
theorem exists_deeper_than_nesting :
    ∃ v, (parse [] (String.ofList flatText) Object.firstFreshId).1 = .ok v ∧
      v.depth = maxNesting + 1 ∧ ¬ ∃ w, (parse [] v.code Object.firstFreshId).1 = .ok w := by
  obtain ⟨v, hv, hdepth⟩ :=
    exists_parse_of_check [] flatText Object.firstFreshId (p := fun v => v.depth == maxNesting + 1)
      (by decide +kernel)
  replace hdepth : v.depth = maxNesting + 1 := eq_of_beq hdepth
  refine ⟨v, hv, hdepth, ?_⟩
  rintro ⟨w, hw⟩
  have hle := depth_le_of_parse_code hw
  omega

end Parley.Formula
