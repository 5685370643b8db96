import Parley.Proofs.Formula.Shape
import Parley.Proofs.Formula.Tree

/-!
# What a tree stands for

Trees are evaluated from left to right, all of their parts, up to the first
operation that has no result.

- `Tree.value`: the value of a tree without member access, up to identifiers, or
  the reason why there is none. It depends on nothing but the tree.
- `Tree.Evaluates`: a tree evaluates to an object while the objects `held` are
  alive, with new identifiers between two bounds. Objects that are part of the
  tree are alive once they are made, and member access may find them.
- `Tree.evaluates_weaken`: the bounds may be wider.
-/

namespace Parley.Formula

def Keyword.shape : Keyword → Shape
  | .null => .null
  | .newobj => .bare
  | .allobj => .view
  | .boolean value => .boolean value

/-! ## Values -/

mutual

/-- The value of a tree. The parts are evaluated in the order in which they are
written, and the first one that has no value decides. -/
def Tree.value : {k : Kind} → Tree false k → Except Undefined Shape
  | _, .chain first tail => do tail.value (← first.value)
  | _, .plain value => value.value
  | _, .member allowed _ _ _ => nomatch allowed
  | _, .signed _ sign operand => do Shape.signed sign (← operand.value)
  | _, .negated _ operand => do Shape.negated (← operand.value)
  | _, .parens _ inner _ => inner.value
  | _, .emptyArray _ _ => .ok (.array [])
  | _, .array _ items => do return .array ((← items.values).map some)
  | _, .word _ keyword => .ok keyword.shape
  | _, .number _ numeral => .ok (.integer numeral.integer)

/-- The value of a chain of which `left` is the value so far. -/
def Tail.value : {l : Level} → Tail false l → (left : Shape) → Except Undefined Shape
  | _, .nil, left => .ok left
  | _, .cons _ op _ operand tail, left => do
    tail.value (← Shape.apply op left (← operand.value))

def Items.values : Items false → Except Undefined (List Shape)
  | .last item _ => do return [← item.value]
  | .cons item _ items => do
    let first ← item.value
    return first :: (← items.values)

end

def Statement.value (e : Statement false) : Except Undefined Shape :=
  e.body.value

/-! ## Evaluation with identifiers -/

/-- What a keyword stands for. -/
def Keyword.yielded : Keyword → Yield
  | .null => .existing .null
  | .newobj => .fresh .bare
  | .allobj => .existing .view
  | .boolean value => .existing (.boolean value)

/-- The result is `object`, where an identifier that is needed lies between the
bounds. -/
def Yield.Settles (yielded : Yield) (low : ObjectId) (object : Object) (high : ObjectId) : Prop :=
  ∃ next, low ≤ next ∧ (yielded.settle next).1 = object ∧ (yielded.settle next).2 ≤ high

theorem Yield.settles_settle (yielded : Yield) (next : ObjectId) :
    yielded.Settles next (yielded.settle next).1 (yielded.settle next).2 :=
  ⟨next, Nat.le_refl _, rfl, Nat.le_refl _⟩

theorem Yield.Settles.weaken {yielded : Yield} {low high low' high' : ObjectId} {object : Object}
    (h : yielded.Settles low object high) (hl : low' ≤ low) (hh : high ≤ high') :
    yielded.Settles low' object high' := by
  obtain ⟨next, hn, ho, hle⟩ := h
  exact ⟨next, Nat.le_trans hl hn, ho, Nat.le_trans hle hh⟩

variable {access : Bool}

mutual

/-- The tree evaluates to `object` while `held` is alive. All identifiers that
are drawn lie between `low` and `high`, in the order of evaluation. -/
def Tree.Evaluates : {k : Kind} → Tree access k → (held : List Object) → (low : ObjectId) →
    (object : Object) → (high : ObjectId) → Prop
  | _, .chain first tail, held, low, object, high =>
    ∃ left mid, first.Evaluates held low left mid ∧ tail.Evaluates held left mid object high
  | _, .plain value, held, low, object, high => value.Evaluates held low object high
  | _, .member _ base _ name, held, low, object, high =>
    ∃ a mid key, base.Evaluates held low a mid ∧
      name.Evaluates (a :: held) mid key high ∧ a.member held key = some object
  | _, .signed _ sign operand, held, low, object, high =>
    ∃ a mid yielded, operand.Evaluates held low a mid ∧ a.withSign sign = some yielded ∧
      yielded.Settles mid object high
  | _, .negated _ operand, held, low, object, high =>
    ∃ a mid yielded, operand.Evaluates held low a mid ∧ a.negate = some yielded ∧
      yielded.Settles mid object high
  | _, .parens _ inner _, held, low, object, high => inner.Evaluates held low object high
  | _, .emptyArray _ _, _, low, object, high =>
    (Yield.fresh (.array [])).Settles low object high
  | _, .array _ items, held, low, object, high =>
    ∃ objects mid, items.Evaluates held low objects mid ∧
      (Yield.fresh (.array (objects.map some))).Settles mid object high
  | _, .word _ keyword, _, low, object, high => keyword.yielded.Settles low object high
  | _, .number _ numeral, _, low, object, high =>
    (Yield.fresh (.integer numeral.integer)).Settles low object high

/-- A chain of which `left` is the value so far evaluates to `object`. The value
so far is alive while the next operand is evaluated. -/
def Tail.Evaluates : {l : Level} → Tail access l → (held : List Object) → (left : Object) →
    (low : ObjectId) → (object : Object) → (high : ObjectId) → Prop
  | _, .nil, _, left, low, object, high => object = left ∧ low ≤ high
  | _, .cons _ op _ operand tail, held, left, low, object, high =>
    ∃ right mid yielded left' mid', operand.Evaluates (left :: held) low right mid ∧
      left.apply op right = .found yielded ∧ yielded.Settles mid left' mid' ∧
      tail.Evaluates held left' mid' object high

/-- Each item is alive while the next ones are evaluated. -/
def Items.Evaluates : Items access → (held : List Object) → (low : ObjectId) →
    (objects : List Object) → (high : ObjectId) → Prop
  | .last item _, held, low, objects, high =>
    ∃ object, item.Evaluates held low object high ∧ objects = [object]
  | .cons item _ items, held, low, objects, high =>
    ∃ object mid others, item.Evaluates held low object mid ∧
      items.Evaluates (object :: held) mid others high ∧ objects = object :: others

end

/-- Blanks do not matter. -/
theorem Tree.evaluates_indent (b : Blank) :
    ∀ {k : Kind} (t : Tree access k) {held : List Object} {low high : ObjectId}
      {object : Object}, t.Evaluates held low object high →
        (t.indent b).Evaluates held low object high
  | _, .chain first _, _, _, _, _, h => by
    obtain ⟨left, mid, h₁, h₂⟩ := h
    exact ⟨left, mid, first.evaluates_indent b h₁, h₂⟩
  | _, .plain value, _, _, _, _, h => value.evaluates_indent b h
  | _, .member _ base _ _, _, _, _, _, h => by
    obtain ⟨a, mid, key, h₁, h₂⟩ := h
    exact ⟨a, mid, key, base.evaluates_indent b h₁, h₂⟩
  | _, .signed _ _ _, _, _, _, _, h | _, .negated _ _, _, _, _, _, h
  | _, .parens _ _ _, _, _, _, _, h | _, .emptyArray _ _, _, _, _, _, h
  | _, .array _ _, _, _, _, _, h | _, .word _ _, _, _, _, _, h
  | _, .number _ _, _, _, _, _, h => h

theorem Items.evaluates_indent (b : Blank) {items : Items access} {held objects : List Object}
    {low high : ObjectId} (h : items.Evaluates held low objects high) :
    (items.indent b).Evaluates held low objects high := by
  cases items with
  | last item _ =>
    obtain ⟨object, h₁, ho⟩ := h
    exact ⟨object, item.evaluates_indent b h₁, ho⟩
  | cons item _ _ =>
    obtain ⟨object, mid, others, h₁, h₂⟩ := h
    exact ⟨object, mid, others, item.evaluates_indent b h₁, h₂⟩

mutual

/-- Identifiers between two bounds lie between wider bounds. -/
theorem Tree.evaluates_weaken : ∀ {k : Kind} (t : Tree access k) {held : List Object}
    {object : Object} {low high low' high' : ObjectId}, t.Evaluates held low object high →
      low' ≤ low → high ≤ high' → t.Evaluates held low' object high'
  | _, .chain first tail, _, _, _, _, _, _, h, hl, hh => by
    obtain ⟨left, mid, h₁, h₂⟩ := h
    exact ⟨left, mid, first.evaluates_weaken h₁ hl (Nat.le_refl _),
      tail.evaluates_weaken h₂ (Nat.le_refl _) hh⟩
  | _, .plain value, _, _, _, _, _, _, h, hl, hh => value.evaluates_weaken h hl hh
  | _, .member _ base _ name, _, _, _, _, _, _, h, hl, hh => by
    obtain ⟨a, mid, key, h₁, h₂, hm⟩ := h
    exact ⟨a, mid, key, base.evaluates_weaken h₁ hl (Nat.le_refl _),
      name.evaluates_weaken h₂ (Nat.le_refl _) hh, hm⟩
  | _, .signed _ _ operand, _, _, _, _, _, _, h, hl, hh => by
    obtain ⟨a, mid, yielded, h₁, hy, hs⟩ := h
    exact ⟨a, mid, yielded, operand.evaluates_weaken h₁ hl (Nat.le_refl _), hy,
      hs.weaken (Nat.le_refl _) hh⟩
  | _, .negated _ operand, _, _, _, _, _, _, h, hl, hh => by
    obtain ⟨a, mid, yielded, h₁, hy, hs⟩ := h
    exact ⟨a, mid, yielded, operand.evaluates_weaken h₁ hl (Nat.le_refl _), hy,
      hs.weaken (Nat.le_refl _) hh⟩
  | _, .parens _ inner _, _, _, _, _, _, _, h, hl, hh => inner.evaluates_weaken h hl hh
  | _, .emptyArray _ _, _, _, _, _, _, _, h, hl, hh => Yield.Settles.weaken h hl hh
  | _, .array _ items, _, _, _, _, _, _, h, hl, hh => by
    obtain ⟨objects, mid, h₁, hs⟩ := h
    exact ⟨objects, mid, items.evaluates_weaken h₁ hl (Nat.le_refl _),
      hs.weaken (Nat.le_refl _) hh⟩
  | _, .word _ _, _, _, _, _, _, _, h, hl, hh => Yield.Settles.weaken h hl hh
  | _, .number _ _, _, _, _, _, _, _, h, hl, hh => Yield.Settles.weaken h hl hh

theorem Tail.evaluates_weaken : ∀ {l : Level} (t : Tail access l) {held : List Object}
    {left object : Object} {low high low' high' : ObjectId},
    t.Evaluates held left low object high → low' ≤ low → high ≤ high' →
      t.Evaluates held left low' object high'
  | _, .nil, _, _, _, _, _, _, _, h, hl, hh => by
    obtain ⟨ho, hle⟩ := h
    exact ⟨ho, Nat.le_trans hl (Nat.le_trans hle hh)⟩
  | _, .cons _ _ _ operand tail, _, _, _, _, _, _, _, h, hl, hh => by
    obtain ⟨right, mid, yielded, left', mid', h₁, hy, hs, h₂⟩ := h
    exact ⟨right, mid, yielded, left', mid', operand.evaluates_weaken h₁ hl (Nat.le_refl _),
      hy, hs, tail.evaluates_weaken h₂ (Nat.le_refl _) hh⟩

theorem Items.evaluates_weaken : ∀ (t : Items access) {held objects : List Object}
    {low high low' high' : ObjectId}, t.Evaluates held low objects high →
      low' ≤ low → high ≤ high' → t.Evaluates held low' objects high'
  | .last item _, _, _, _, _, _, _, h, hl, hh => by
    obtain ⟨object, h₁, ho⟩ := h
    exact ⟨object, item.evaluates_weaken h₁ hl hh, ho⟩
  | .cons item _ items, _, _, _, _, _, _, h, hl, hh => by
    obtain ⟨object, mid, others, h₁, h₂, ho⟩ := h
    exact ⟨object, mid, others, item.evaluates_weaken h₁ hl (Nat.le_refl _),
      items.evaluates_weaken h₂ (Nat.le_refl _) hh, ho⟩

end

end Parley.Formula
