import Parley.Formula.Counted
import Parley.Proofs.Formula.Balance
import Parley.Proofs.Formula.Reach

/-!
# Who owns a reference

The rules with counted references do what the plain rules do, which are told the objects
that are alive. And they handle references with care: what a rule was given it hands over
with what it finds, and if it finds nothing or ends with a fault it has given all of it up.
So no object stays in memory for an alternative that was tried in vain.

- `Counted.Mirrors`: both properties of a rule, with one lemma for each combinator.
- `Counted.unary_mirrors`, `Counted.statement_mirrors`: they hold of the grammar.
- `Counted.parse_mirrors`: they hold of the evaluation of a whole text.
-/

namespace Parley.Formula

open Moment

/-- Rules in sequence may be grouped in any way. -/
theorem Rule.bind_assoc {σ ε α β γ : Type} (rule : Rule σ ε α) (f : α → Rule σ ε β)
    (g : β → Rule σ ε γ) : rule >>= f >>= g = rule >>= fun a => f a >>= g := by
  funext c s
  show Rule.bind (Rule.bind rule f) g c s = Rule.bind rule (fun a => Rule.bind (f a) g) c s
  rcases hr : rule c s with ⟨a | - | cause, c₁, s₁⟩ <;> simp only [Rule.bind, hr]

/-! ## Taking and giving up -/

namespace Moment

variable {h : Heap} {held : Multiset Object}

/-- References that are held can be given up. -/
theorem leads_release (todo : List Object) : Leads ⟨h, todo + held⟩ ⟨h.release todo, held⟩ := by
  induction todo generalizing h with
  | nil =>
    rw [Heap.release_nil, Multiset.coe_nil, zero_add]
    exact .refl
  | cons object rest ih =>
    have hrest := h.release_append [object] rest
    rw [List.singleton_append] at hrest
    rw [hrest, ← Multiset.cons_coe, Multiset.cons_add]
    exact .head (.release h object (rest + held)) ih

/-- References to objects in memory can be taken. -/
theorem Valid.leads_retainAll (objects : List Object) (v : Valid ⟨h, held⟩)
    (hlive : ∀ object ∈ objects, h.lookup object.id = some object) :
    Leads ⟨h, held⟩ ⟨h.retainAll objects, objects + held⟩ := by
  induction objects generalizing h held with
  | nil =>
    rw [Multiset.coe_nil, zero_add]
    exact .refl
  | cons object rest ih =>
    have hobject := hlive object List.mem_cons_self
    have hstep : Change ⟨h, held⟩ ⟨h.retain object, object ::ₘ held⟩ := .retain h object held hobject
    have v' : Valid ⟨h.retain object, object ::ₘ held⟩ := hstep.valid v
    have hrest := ih v' fun other hother => by
      -- taking a reference changes neither what was made nor the table
      have hother := v.lookup_eq_some_iff.1 (hlive other (List.mem_cons_of_mem _ hother))
      refine v'.lookup_eq_some_iff.2 ⟨hother.1, ?_, rfl⟩
      exact (Heap.made_recount ..).symm ▸ hother.2.1
    rw [← Multiset.cons_coe, Multiset.cons_add, ← Multiset.add_cons]
    exact .head hstep hrest

/-- A new object takes over the references to its items, and gets the next identifier. -/
theorem Valid.leads_publish {content : Content} (v : Valid ⟨h, content.items + held⟩) :
    Leads ⟨h, content.items + held⟩ ⟨(h.publish content).2, (h.publish content).1 ::ₘ held⟩ ∧
      ((h.publish content).1, (h.publish content).2.next) =
        (Yield.fresh content).settle h.next := by
  refine ⟨.single (.publish h content held), ?_⟩
  rw [Heap.publish_eq content v.next_notMem]
  rfl

end Moment

/-! ## Operations -/

/-- The objects that the result of an operation refers to: itself, if it was there before, and
the items of a new array. -/
def Yield.sources : Yield → List Object
  | .existing object => [object]
  | .fresh content => content.items

/-- The result of an operation comes from what is alive while these objects are held. -/
def Yield.DrawsOn (held : List Object) (yielded : Yield) : Prop :=
  ∀ o ∈ yielded.sources, o ∈ Registry.objects held

theorem Content.items_array_some (items : List Object) :
    (Content.array (items.map some)).items = items := by
  show present (items.map some) = items
  simpa using present_map_some id items

namespace Object

variable {held : List Object} {a b : Object} {yielded : Yield}

/-- The singletons are alive, whatever is held. -/
theorem drawsOn_singleton (hsingle : a ∈ Registry.singletons) :
    Yield.DrawsOn held (.existing a) := by
  intro o ho
  obtain rfl := List.mem_singleton.1 ho
  exact List.mem_append_left _ hsingle

theorem drawsOn_boolean (value : Bool) : Yield.DrawsOn held (.existing (.boolean value)) :=
  drawsOn_singleton (by cases value <;> simp [Registry.singletons])

theorem drawsOn_integer (value : Int64) : Yield.DrawsOn held (.fresh (.integer value)) :=
  fun _ ho => nomatch ho

theorem drawsOn_arithmetic {f : Int64 → Int64 → Int64}
    (h : (Outcome.ofOption (arithmetic f a b) : Outcome Fault Yield) = .found yielded) :
    yielded.DrawsOn held := by
  cases a <;> cases b <;> cases h
  exact drawsOn_integer _

theorem drawsOn_quotient {f : Int64 → Int64 → Int64} (h : quotient f a b = .found yielded) :
    yielded.DrawsOn held := by
  cases a <;> cases b <;> try cases h
  case integer.integer i x j y =>
    rw [quotient] at h
    split at h <;> cases h
    exact drawsOn_integer _

theorem drawsOn_logic {f : Bool → Bool → Bool}
    (h : (Outcome.ofOption (logic f a b) : Outcome Fault Yield) = .found yielded) :
    yielded.DrawsOn held := by
  cases a <;> cases b <;> cases h
  exact drawsOn_boolean _

theorem drawsOn_add (ha : a ∈ held) (hb : b ∈ held)
    (h : (Outcome.ofOption (a.add b) : Outcome Fault Yield) = .found yielded) :
    yielded.DrawsOn held := by
  match a, b with
  | .array i xs, .array j [] =>
    cases h
    intro o ho
    obtain rfl := List.mem_singleton.1 ho
    exact Registry.mem_objects_of_held ha
  | .array i xs, .array j (y :: ys) =>
    cases h
    intro o ho
    -- each item is an item of one of the operands
    have hitem : o ∈ (Object.array i xs).items ∨ o ∈ (Object.array j (y :: ys)).items := by
      simpa [Yield.sources, Content.items, items, or_assoc] using ho
    rcases hitem with ho | ho
    · exact Registry.item_mem_objects (Registry.mem_objects_of_held ha) ho
    · exact Registry.item_mem_objects (Registry.mem_objects_of_held hb) ho
  | .integer i x, .integer j y =>
    cases h
    exact drawsOn_integer _

/-- Operators draw on their operands. -/
theorem drawsOn_apply {op : BinaryOp} (ha : a ∈ held) (hb : b ∈ held)
    (h : a.apply op b = .found yielded) : yielded.DrawsOn held := by
  cases op with
  | add => exact drawsOn_add ha hb h
  | subtract | multiply => exact drawsOn_arithmetic h
  | divide | modulo => exact drawsOn_quotient h
  | and | or | xor => exact drawsOn_logic h

theorem drawsOn_unary (op : Table.UnaryOp) (ha : a ∈ held)
    (h : (Outcome.ofOption (op.apply a) : Outcome Fault Yield) = .found yielded) :
    yielded.DrawsOn held := by
  have hself : Yield.DrawsOn held (.existing a) := fun o ho =>
    List.mem_singleton.1 ho ▸ Registry.mem_objects_of_held ha
  cases op with
  | clone =>
    cases h
    exact hself
  | plus =>
    cases a <;> cases h
    exact hself
  | minus =>
    cases a <;> cases h
    exact drawsOn_integer _
  | negate =>
    cases a <;> cases h
    exact drawsOn_boolean _

end Object

namespace Moment

variable {h : Heap} {held : Multiset Object}

/-- An operation on objects in memory results in a reference to an object, the one that it
results in without any counting. -/
theorem Valid.leads_settle {yielded : Yield} (v : Valid ⟨h, held⟩)
    (hlive : ∀ o ∈ yielded.sources, h.lookup o.id = some o) :
    Leads ⟨h, held⟩ ⟨(h.settle yielded).2, (h.settle yielded).1 ::ₘ held⟩ ∧
      ((h.settle yielded).1, (h.settle yielded).2.next) = yielded.settle h.next := by
  cases yielded with
  | existing o => exact ⟨.single (.retain h o held (hlive o List.mem_cons_self)), rfl⟩
  | fresh content =>
    have hretain := v.leads_retainAll _ hlive
    obtain ⟨hpublish, heq⟩ := (v.leads hretain).leads_publish
    rw [Heap.next_retainAll] at heq
    exact ⟨hretain.trans hpublish, heq⟩

end Moment

namespace Counted

/-- The references that a rule hands over with its outcome. -/
def handed {α : Type} (after : α → List Object) : Outcome Fault α → List Object
  | .found value => after value
  | _ => []

/-- While `held` is held around it, the counted rule does what the plain rule does. It
begins with the references `before`, hands over `after` with what it finds, and has no
references left otherwise. -/
def Mirrors {α : Type} (held before : List Object) (plain : Rule ObjectId Fault α)
    (counted : Rule Heap Fault α) (after : α → List Object) : Prop :=
  ∀ c h, Valid ⟨h, before ++ held⟩ → ∃ outcome c' h', counted c h = (outcome, c', h') ∧
    plain c h.next = (outcome, c', h'.next) ∧
      Leads ⟨h, before ++ held⟩ ⟨h', handed after outcome ++ held⟩

namespace Mirrors

variable {α β : Type} {held before before' extra released : List Object}
  {plain plain₁ plain₂ : Rule ObjectId Fault α} {counted counted₁ counted₂ : Rule Heap Fault α}
  {after after' : α → List Object}

/-! ### Sequence and choice -/

theorem pure {a : α} (hperm : (after a).Perm before) :
    Mirrors held before (Pure.pure a) (Pure.pure a) after := by
  intro c h _
  refine ⟨.found a, c, h, rfl, rfl, ?_⟩
  rw [handed, Multiset.coe_eq_coe.2 (hperm.append_right held)]
  exact .refl

theorem bind {next : α → Rule ObjectId Fault β} {next' : α → Rule Heap Fault β}
    {last : β → List Object} (hrule : Mirrors held before plain counted after)
    (hnext : ∀ a, Mirrors held (after a) (next a) (next' a) last) :
    Mirrors held before (plain >>= next) (counted >>= next') last := by
  intro c h v
  obtain ⟨outcome, c₁, h₁, hcounted, hplain, hleads⟩ := hrule c h v
  show ∃ _ _ _, Rule.bind counted next' c h = _ ∧ Rule.bind plain next c h.next = _ ∧ _
  simp only [Rule.bind, hcounted, hplain]
  cases outcome with
  | found a =>
    obtain ⟨outcome, c₂, h₂, hcounted, hplain, hleads'⟩ := hnext a c₁ h₁ (v.leads hleads)
    exact ⟨outcome, c₂, h₂, hcounted, hplain, hleads.trans hleads'⟩
  | missing => exact ⟨.missing, c₁, h₁, rfl, rfl, hleads⟩
  | fault cause => exact ⟨.fault cause, c₁, h₁, rfl, rfl, hleads⟩

theorem orElse (hfirst : Mirrors held before plain₁ counted₁ after)
    (hsecond : Mirrors held [] plain₂ counted₂ after) :
    Mirrors held before (plain₁ <|> plain₂) (counted₁ <|> counted₂) after := by
  intro c h v
  obtain ⟨outcome, c₁, h₁, hcounted, hplain, hleads⟩ := hfirst c h v
  show ∃ _ _ _, Rule.orElse counted₁ (fun _ => counted₂) c h = _ ∧
    Rule.orElse plain₁ (fun _ => plain₂) c h.next = _ ∧ _
  simp only [Rule.orElse, hcounted, hplain]
  cases outcome with
  | found a => exact ⟨.found a, c₁, h₁, rfl, rfl, hleads⟩
  | missing =>
    obtain ⟨outcome, c₂, h₂, hcounted, hplain, hleads'⟩ := hsecond c₁ h₁ (v.leads hleads)
    exact ⟨outcome, c₂, h₂, hcounted, hplain, hleads.trans hleads'⟩
  | fault cause => exact ⟨.fault cause, c₁, h₁, rfl, rfl, hleads⟩

theorem optional (hrule : Mirrors held before plain counted after) :
    Mirrors held before plain.optional counted.optional fun a? => a?.elim [] after := by
  intro c h v
  obtain ⟨outcome, c₁, h₁, hcounted, hplain, hleads⟩ := hrule c h v
  simp only [Rule.optional, hcounted, hplain]
  cases outcome with
  | found a => exact ⟨.found (some a), c₁, h₁, rfl, rfl, hleads⟩
  | missing => exact ⟨.found none, c₁, h₁, rfl, rfl, hleads⟩
  | fault cause => exact ⟨.fault cause, c₁, h₁, rfl, rfl, hleads⟩

theorem attempt (hrule : Mirrors held before plain counted after) :
    Mirrors held before plain.attempt counted.attempt after := by
  intro c h v
  obtain ⟨outcome, c₁, h₁, hcounted, hplain, hleads⟩ := hrule c.beginScope h v
  refine ⟨outcome, c₁.endScope (!outcome.isFound), h₁, ?_, ?_, hleads⟩
  · simp only [Rule.attempt, hcounted]
  · simp only [Rule.attempt, hplain]

theorem nested (hrule : Mirrors held [] plain counted after) :
    Mirrors held [] plain.nested counted.nested after := by
  intro c h v
  by_cases hlt : c.nesting < maxNesting
  · obtain ⟨outcome, c₁, h₁, hcounted, hplain, hleads⟩ := hrule.attempt c.deeper h v
    refine ⟨outcome, c₁.shallower, h₁, ?_, ?_, hleads⟩
    · rw [Rule.nested_of_lt _ h hlt, hcounted]
    · rw [Rule.nested_of_lt _ h.next hlt, hplain]
  · have hfull := Nat.le_of_not_lt hlt
    exact ⟨.missing, c, h, Rule.nested_of_full _ h hfull, Rule.nested_of_full _ h.next hfull, .refl⟩

/-! ### Reading -/

theorem missing : Mirrors (α := α) held [] .missing .missing after :=
  fun c h _ => ⟨.missing, c, h, rfl, rfl, .refl⟩

theorem look (f : Cursor → α) : Mirrors held before (.look f) (.look f) fun _ => before :=
  fun c h _ => ⟨.found (f c), c, h, rfl, rfl, .refl⟩

theorem move (f : Cursor → Cursor) : Mirrors held before (.move f) (.move f) fun _ => before :=
  fun c h _ => ⟨.found (), f c, h, rfl, rfl, .refl⟩

theorem choose (f : Cursor → Bool × Cursor) :
    Mirrors held before (.choose f) (.choose f) fun _ => before :=
  fun c h _ => ⟨.found (f c).1, (f c).2, h, rfl, rfl, .refl⟩

theorem read (f : Cursor → Option α × Cursor) :
    Mirrors held [] (.read f) (.read f) fun _ => [] := by
  intro c h _
  refine ⟨.ofOption (f c).1, (f c).2, h, rfl, rfl, ?_⟩
  cases (f c).1 <;> exact .refl

theorem expect (f : Cursor → Bool × Cursor) :
    Mirrors held [] (.expect f) (.expect f) fun _ => [] := by
  intro c h _
  refine ⟨if (f c).1 then .found () else .missing, (f c).2, h, rfl, rfl, ?_⟩
  cases (f c).1 <;> exact .refl

/-! ### References -/

theorem leads_release_of_perm (h : Heap) (held : List Object) (hperm : released.Perm extra) :
    Leads ⟨h, extra ++ held⟩ ⟨h.release released, held⟩ := by
  rw [← Multiset.coe_add, ← Multiset.coe_eq_coe.2 hperm]
  exact leads_release released

/-- What is held around a rule is given up unless the rule finds something. -/
theorem keeping (hrule : Mirrors (extra ++ held) [] plain counted after)
    (hperm : released.Perm extra) :
    Mirrors held extra plain (Counted.keeping released counted) fun a => after a ++ extra := by
  intro c h v
  obtain ⟨outcome, c₁, h₁, hcounted, hplain, hleads⟩ := hrule c h v
  have hgiven := leads_release_of_perm h₁ held hperm
  simp only [Counted.keeping, hcounted]
  cases outcome with
  | found a =>
    refine ⟨.found a, c₁, h₁, rfl, hplain, ?_⟩
    rw [handed, List.append_assoc]
    exact hleads
  | missing =>
    exact ⟨.missing, c₁, _, rfl, by rw [hplain, Heap.next_release], hleads.trans hgiven⟩
  | fault cause =>
    exact ⟨.fault cause, c₁, _, rfl, by rw [hplain, Heap.next_release], hleads.trans hgiven⟩

theorem keeping_missing (hperm : released.Perm extra) :
    Mirrors (α := α) held extra .missing (Counted.keeping released .missing) after := by
  intro c h _
  refine ⟨.missing, c, h.release released, rfl, ?_, leads_release_of_perm h held hperm⟩
  rw [Heap.next_release]
  rfl

/-- What is held around a rule is given up after it. -/
theorem spending (hrule : Mirrors (extra ++ held) [] plain counted after)
    (hperm : released.Perm extra) :
    Mirrors held extra plain (Counted.spending released counted) after := by
  intro c h v
  obtain ⟨outcome, c₁, h₁, hcounted, hplain, hleads⟩ := hrule c h v
  simp only [Counted.spending, hcounted]
  refine ⟨outcome, c₁, _, rfl, by rw [hplain, Heap.next_release], hleads.trans ?_⟩
  have hgiven := leads_release_of_perm h₁ (handed after outcome ++ held) hperm
  refine Eq.subst (motive := fun m => Leads ⟨h₁, m⟩ _) ?_ hgiven
  rw [Multiset.coe_eq_coe]
  exact List.perm_append_comm_assoc ..

/-- An operation that has a result or not. -/
theorem ofOutcome {outcome : Outcome Fault α} {next : α → Rule ObjectId Fault β}
    {next' : α → Rule Heap Fault β} {last : β → List Object}
    (hnext : ∀ a, outcome = .found a → Mirrors held [] (next a) (next' a) last) :
    Mirrors held [] (Rule.ofOutcome outcome >>= next) (Rule.ofOutcome outcome >>= next') last := by
  intro c h v
  cases outcome with
  | found a => exact hnext a rfl c h v
  | missing => exact ⟨.missing, c, h, rfl, rfl, .refl⟩
  | fault cause => exact ⟨.fault cause, c, h, rfl, rfl, .refl⟩

/-- Taking a reference to what an operation on live objects results in. -/
theorem settle {yielded : Yield} (hdraws : yielded.DrawsOn held) :
    Mirrors held [] (Formula.settle yielded) (Counted.settle yielded) fun o => [o] := by
  intro c h v
  rw [List.nil_append] at v
  obtain ⟨hleads, heq⟩ := v.leads_settle fun o ho => v.lookup_of_mem_objects (hdraws o ho)
  refine ⟨.found (h.settle yielded).1, c, (h.settle yielded).2, rfl, ?_, hleads⟩
  show (Outcome.found (yielded.settle h.next).1, c, (yielded.settle h.next).2) = _
  rw [← heq]

/-- A new object takes its items over. -/
theorem publish {content : Content} (hitems : content.items = before) :
    Mirrors held before (Formula.settle (.fresh content)) (Counted.publish content) fun o => [o] := by
  obtain rfl := hitems
  intro c h v
  rw [← Multiset.coe_add] at v
  obtain ⟨hleads, heq⟩ := v.leads_publish
  refine ⟨.found (h.publish content).1, c, (h.publish content).2, rfl, ?_, ?_⟩
  · show (Outcome.found (Yield.settle h.next (.fresh content)).1, c,
      (Yield.settle h.next (.fresh content)).2) = _
    rw [← heq]
  · rw [← Multiset.coe_add]
    exact hleads

/-- Looking up a member, while both operands are held. -/
theorem member (base key : Object) :
    Mirrors ([key, base] ++ held) [] (Rule.ofOutcome (.ofOption (base.member held key)))
      (Counted.member base key) fun o => [o] := by
  intro c h v
  rw [List.nil_append] at v
  have hsame : base = .view → ∀ object, object ∈ Registry.objects (key :: held) ↔
      object ∈ Registry.objects ([key, base] ++ held) := by
    rintro rfl object
    -- the view is alive without being held
    have hview : object ∈ Object.view.parts → object ∈ Registry.objects held := by
      intro hpart
      obtain rfl := List.mem_singleton.1 hpart
      exact List.mem_append_left _ (by simp [Registry.singletons])
    show _ ↔ object ∈ Registry.objects (key :: .view :: held)
    rw [Registry.mem_objects_cons, Registry.mem_objects_cons, Registry.mem_objects_cons,
      or_iff_left_of_imp hview]
  rw [← v.member_eq hsame]
  refine ⟨.ofOption (h.member base key), c, h.retain? (h.member base key), rfl, ?_, ?_⟩
  · rw [Heap.retain?, Heap.next_retainAll]
    rfl
  · cases hmember : h.member base key with
    | none => exact .refl
    | some object =>
      have hlive := v.lookup_of_member hmember
      exact v.leads_retainAll [object] (by simpa using hlive)

end Mirrors

/-! ## The grammar -/

open Mirrors

variable {held : List Object}

theorem constant_mirrors (word : String) {yielded : Yield} (hdraws : yielded.DrawsOn held) :
    Mirrors held [] (Formula.constant word yielded) (constant word yielded) fun o => [o] :=
  Mirrors.bind (Mirrors.expect _) fun _ => Mirrors.settle hdraws

section Chains

variable {operator? : Char → Option BinaryOp} {plain : List Object → GrammarRule}
  {counted : CountedRule}

/-- A chain holds its value so far. -/
theorem chainFrom_mirrors (hoperand : ∀ held, Mirrors held [] (plain held) counted fun o => [o])
    (room : List Char) (left : Object) :
    Mirrors held [left] (Formula.chainFrom operator? plain held room left)
      (chainFrom operator? counted room left) fun o => [o] := by
  induction room generalizing left with
  | nil => exact Mirrors.pure (.refl _)
  | cons _ room ih =>
    refine Mirrors.bind (Mirrors.move _) fun _ => Mirrors.bind (Mirrors.look _) fun ch? => ?_
    cases ch?.bind operator? with
    | none => exact Mirrors.pure (.refl _)
    | some op =>
      have hright : Mirrors (left :: held) [] _ _ fun right? : Option Object => right?.elim [] fun o => [o] :=
        Mirrors.optional (Mirrors.attempt
          (Mirrors.bind (Mirrors.move fun c => c.advance.2) fun _ => hoperand (left :: held)))
      refine Mirrors.bind (Mirrors.keeping hright (.refl [left])) fun right? => ?_
      cases right? with
      | none => exact Mirrors.pure (.refl _)
      | some right =>
        have hvalue : Mirrors ([right, left] ++ held) []
            (Rule.ofOutcome (left.apply op right) >>= Formula.settle) _ fun o => [o] :=
          Mirrors.ofOutcome fun yielded hyielded =>
            Mirrors.settle (Object.drawsOn_apply (by simp) (by simp) hyielded)
        -- the operands are given up before the chain goes on with the new value
        have hrest := Mirrors.bind (Mirrors.spending hvalue (.swap right left [])) ih
        rwa [Rule.bind_assoc] at hrest

theorem chain_mirrors (hoperand : ∀ held, Mirrors held [] (plain held) counted fun o => [o])
    (held : List Object) :
    Mirrors held [] (Formula.chain operator? plain held) (chain operator? counted) fun o => [o] :=
  Mirrors.attempt <| Mirrors.bind (hoperand held) fun first =>
    Mirrors.bind (Mirrors.look _) fun room => chainFrom_mirrors hoperand room first

end Chains

theorem expressionOver_mirrors {plain : List Object → GrammarRule} {counted : CountedRule}
    (hunary : ∀ held, Mirrors held [] (plain held) counted fun o => [o]) (held : List Object) :
    Mirrors held [] (Formula.expressionOver plain held) (expressionOver counted) fun o => [o] :=
  chain_mirrors (chain_mirrors (chain_mirrors hunary)) held

section Values

variable {plain : List Object → GrammarRule} {counted : CountedRule}
  (hexpression : ∀ held, Mirrors held [] (plain held) counted fun o => [o])
include hexpression

/-- An array holds the items that were read so far. -/
theorem itemsFrom_mirrors (held : List Object) (room : List Char) (items : List Object) :
    Mirrors held items (Formula.itemsFrom plain (items ++ held) room items)
      (itemsFrom counted room items) fun items => items := by
  induction room generalizing items with
  | nil => exact Mirrors.keeping_missing items.reverse_perm
  | cons _ room ih =>
    refine Mirrors.bind (Mirrors.keeping (hexpression (items ++ held)) items.reverse_perm)
      fun item => Mirrors.bind (Mirrors.move _) fun _ =>
        Mirrors.bind (Mirrors.choose _) fun more => ?_
    cases more with
    | true => exact ih (item :: items)
    | false =>
      have hlast : Mirrors (item :: items ++ held) [] (Formula.expectChar ']') _ fun _ => [] :=
        Mirrors.expect _
      exact Mirrors.bind (Mirrors.keeping hlast (List.reverse_perm _)) fun _ =>
        Mirrors.pure (List.reverse_perm _)

theorem array_mirrors (held : List Object) :
    Mirrors held [] (Formula.array plain held) (array counted) fun o => [o] := by
  refine Mirrors.bind (Mirrors.expect _) fun _ => Mirrors.bind (Mirrors.move _) fun _ =>
    Mirrors.bind (Mirrors.choose _) fun empty => ?_
  have hpublish : ∀ items : List Object, Mirrors held items _ _ fun o => [o] := fun items =>
    Mirrors.publish (Content.items_array_some items)
  cases empty with
  | true => exact hpublish []
  | false =>
    exact Mirrors.bind (Mirrors.look _) fun room =>
      Mirrors.bind (itemsFrom_mirrors hexpression held room []) hpublish

theorem parenthesized_mirrors (held : List Object) :
    Mirrors held [] (Formula.parenthesized plain held) (parenthesized counted) fun o => [o] := by
  refine Mirrors.bind (Mirrors.move _) fun _ => Mirrors.bind (Mirrors.expect _) fun _ =>
    Mirrors.bind (hexpression held) fun value => ?_
  have hclosing : Mirrors (value :: held) []
      (Formula.skipSpaces >>= fun _ => Formula.expectChar ')') _ fun _ => [] :=
    Mirrors.bind (Mirrors.move _) fun _ => Mirrors.expect _
  have hvalue : Mirrors held [value] (pure value) (pure value) fun o => [o] :=
    Mirrors.pure (.refl _)
  have hrest := Mirrors.bind (Mirrors.keeping hclosing (.refl [value])) fun _ => hvalue
  rwa [Rule.bind_assoc] at hrest

theorem literalOver_mirrors (held : List Object) :
    Mirrors held [] (Formula.literalOver plain held) (literalOver counted) fun o => [o] := by
  have hnull : Yield.DrawsOn held (.existing .null) :=
    Object.drawsOn_singleton (by simp [Registry.singletons])
  have hview : Yield.DrawsOn held (.existing .view) :=
    Object.drawsOn_singleton (by simp [Registry.singletons])
  refine Mirrors.bind (Mirrors.move _) fun _ => ?_
  refine Mirrors.orElse (Mirrors.nested (array_mirrors hexpression held)) <|
    Mirrors.orElse (constant_mirrors "null" hnull) <|
    Mirrors.orElse (constant_mirrors "newobj" fun _ ho => absurd ho List.not_mem_nil) <|
    Mirrors.orElse (constant_mirrors "allobj" hview) <|
    Mirrors.orElse (constant_mirrors "true" (Object.drawsOn_boolean true)) <|
    Mirrors.orElse (constant_mirrors "false" (Object.drawsOn_boolean false)) ?_
  exact Mirrors.bind (Mirrors.read _) fun value => Mirrors.settle (Object.drawsOn_integer value)

theorem valueOver_mirrors (held : List Object) :
    Mirrors held [] (Formula.valueOver plain held) (valueOver counted) fun o => [o] :=
  Mirrors.orElse (Mirrors.nested (parenthesized_mirrors hexpression held))
    (literalOver_mirrors hexpression held)

theorem memberOver_mirrors (held : List Object) :
    Mirrors held [] (Formula.memberOver plain held) (memberOver counted) fun o => [o] := by
  refine Mirrors.bind (valueOver_mirrors hexpression held) fun base => ?_
  have hkey : Mirrors (base :: held) [] _ _ fun key? : Option Object => key?.elim [] fun o => [o] :=
    Mirrors.optional <| Mirrors.attempt <| Mirrors.bind (Mirrors.move Cursor.skipSpaces) fun _ =>
      Mirrors.bind (Mirrors.expect (Cursor.advanceIf '.')) fun _ =>
        valueOver_mirrors hexpression (base :: held)
  refine Mirrors.bind (Mirrors.keeping hkey (.refl [base])) fun key? => ?_
  cases key? with
  | none => exact Mirrors.pure (.refl _)
  | some key => exact Mirrors.spending (Mirrors.member base key) (.refl _)

end Values

section Signs

variable {plain : List Object → GrammarRule} {counted : CountedRule}
  (hunary : ∀ held, Mirrors held [] (plain held) counted fun o => [o])
include hunary

theorem signed_mirrors (held : List Object) :
    Mirrors held [] (Formula.signed plain held) (signed counted) fun o => [o] := by
  refine Mirrors.bind (Mirrors.move _) fun _ => Mirrors.bind (Mirrors.read _) fun sign =>
    Mirrors.bind (hunary held) fun operand => ?_
  refine Mirrors.spending (Mirrors.ofOutcome fun yielded hyielded => Mirrors.settle ?_) (.refl _)
  cases sign with
  | plus => exact Object.drawsOn_unary .plus List.mem_cons_self hyielded
  | minus => exact Object.drawsOn_unary .minus List.mem_cons_self hyielded

theorem negated_mirrors (held : List Object) :
    Mirrors held [] (Formula.negated plain held) (negated counted) fun o => [o] := by
  refine Mirrors.bind (Mirrors.move _) fun _ => Mirrors.bind (Mirrors.expect _) fun _ =>
    Mirrors.bind (hunary held) fun operand => ?_
  refine Mirrors.spending (Mirrors.ofOutcome fun yielded hyielded => Mirrors.settle ?_) (.refl _)
  exact Object.drawsOn_unary .negate List.mem_cons_self hyielded

end Signs

theorem unary_mirrors (levels : Nat) (held : List Object) :
    Mirrors held [] (Formula.unary levels held) (unary levels) fun o => [o] := by
  induction levels generalizing held with
  | zero => exact Mirrors.missing
  | succ levels ih =>
    exact Mirrors.orElse
      (Mirrors.attempt (memberOver_mirrors (expressionOver_mirrors ih) held))
      (Mirrors.orElse (Mirrors.nested (signed_mirrors ih held))
        (Mirrors.nested (negated_mirrors ih held)))

theorem expression_mirrors (held : List Object) :
    Mirrors held [] (Formula.expression held) expression fun o => [o] :=
  expressionOver_mirrors (unary_mirrors maxLevels) held

theorem statement_mirrors (held : List Object) :
    Mirrors held [] (Formula.statement held) statement fun o => [o] :=
  Mirrors.attempt <| Mirrors.bind (expression_mirrors held) fun _ =>
    Mirrors.bind (Mirrors.move _) fun _ => Mirrors.bind (Mirrors.choose _) fun _ =>
      Mirrors.pure (.refl _)

/-! ## Whole texts -/

/-- The references that come with a result. -/
def handedResult : Except Fault Object → List Object
  | .ok value => [value]
  | .error _ => []

/-- Evaluating a text with counted references comes to the same as without, and hands over
one reference to the value. -/
theorem parse_mirrors (text : String) {h : Heap} (v : Valid ⟨h, held⟩) :
    ∃ result h', parse text h = (result, h') ∧
      Formula.parse held text h.next = (result, h'.next) ∧
        Leads ⟨h, held⟩ ⟨h', handedResult result ++ held⟩ := by
  obtain ⟨outcome, stopped, h', hcounted, hplain, hleads⟩ :=
    statement_mirrors held (.ofText text.toList) h v
  unfold parse Formula.parse
  simp only [hcounted, hplain]
  cases outcome with
  | found value =>
    by_cases hend : stopped.skipSpaces.isAtEnd
    · exact ⟨.ok value, h', if_pos hend, if_pos hend, hleads⟩
    · have hgiven := Mirrors.leads_release_of_perm h' held (.refl [value])
      refine ⟨_, h'.release [value], if_neg hend, ?_, hleads.trans hgiven⟩
      rw [Heap.next_release]
      exact if_neg hend
  | missing => exact ⟨_, h', rfl, rfl, hleads⟩
  | fault cause => exact ⟨_, h', rfl, rfl, hleads⟩

end Counted

end Parley.Formula
