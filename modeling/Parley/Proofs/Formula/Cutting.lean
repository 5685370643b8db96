import Parley.Proofs.Formula.Alternatives
import Parley.Proofs.Formula.Soundness

/-!
# Cutting a text where it was left

Where a rule has stopped, the rest of the text decides nothing any more. The same rule finds the
same value in the text that ends there. Only what was tried in vain behind that place is missing
then, so that the identifiers may differ that are drawn afterwards; the shape of the value does
not depend on them.

- `CutAt`: a cursor in the text that ends before a tail.
- `Rule.Exact`: a rule that does not look at the tail, with one lemma for each combinator.
- `Kind.Cuts`: a rule for trees of a kind, which may look at the tail in vain.
- `expressionOver_cuts`: chains do, if their operands do.
-/

namespace Parley.Formula

open Rule

/-! ## Cutting -/

/-- `c'` is `c` in the text that ends before `tail`, which begins with no blank. -/
structure CutAt (tail : List Char) (c c' : Cursor) : Prop where
  tail_ne_nil : tail ≠ []
  skipBlank_tail : skipBlank tail = tail
  nesting_eq : c'.nesting = c.nesting
  rest_eq : c.rest = c'.rest ++ tail

namespace CutAt

variable {tail x : List Char} {c c' : Cursor}

theorem beginScope (h : CutAt tail c c') : CutAt tail c.beginScope c'.beginScope :=
  ⟨h.tail_ne_nil, h.skipBlank_tail, h.nesting_eq, h.rest_eq⟩

theorem deeper (h : CutAt tail c c') : CutAt tail c.deeper c'.deeper :=
  ⟨h.tail_ne_nil, h.skipBlank_tail, congrArg (· + 1) h.nesting_eq, h.rest_eq⟩

theorem seek (h : CutAt tail c c') (x : List Char) : CutAt tail (c.seek (x ++ tail)) (c'.seek x) :=
  ⟨h.tail_ne_nil, h.skipBlank_tail, h.nesting_eq, rfl⟩

/-- Blanks end before the tail at the latest. -/
theorem skipBlank_append (h : CutAt tail c c') (x : List Char) :
    skipBlank (x ++ tail) = skipBlank x ++ tail := by
  obtain ⟨b, hb⟩ := exists_blank x
  have hskip : skipBlank (x ++ tail) = skipBlank (skipBlank x ++ tail) := by
    rw [← b.skipBlank_append (skipBlank x ++ tail), ← List.append_assoc, ← hb]
  rw [hskip]
  match hx : skipBlank x with
  | [] => exact h.skipBlank_tail
  | ch :: more => exact skipBlank_cons (isSpace_of_skipBlank hx) _

theorem skipBlank_rest (h : CutAt tail c c') : skipBlank c.rest = skipBlank c'.rest ++ tail := by
  rw [h.rest_eq, h.skipBlank_append]

theorem skip (h : CutAt tail c c') :
    CutAt tail (c.seek (skipBlank c.rest)) (c'.seek (skipBlank c'.rest)) :=
  ⟨h.tail_ne_nil, h.skipBlank_tail, h.nesting_eq, h.skipBlank_rest⟩

end CutAt

theorem exists_append_of_suffix {y tail rest : List Char} (h : y ++ tail <:+ rest) :
    ∃ z, rest = z ++ tail := by
  obtain ⟨w, rfl⟩ := h
  exact ⟨w ++ y, (List.append_assoc w y tail).symm⟩

/-! ## Rules that do not look at the tail -/

theorem found_inj {σ ε α : Type} {a b : α} {c c' : Cursor} {s s' : σ}
    (h : ((.found a, c, s) : Outcome ε α × Cursor × σ) = (.found b, c', s')) :
    a = b ∧ c = c' ∧ s = s' := by
  cases h
  exact ⟨rfl, rfl, rfl⟩

namespace Rule

variable {ε α β : Type} {rule : Rule ObjectId ε α}

/-- What the rule finds without reading the tail, it finds where the text ends before the tail. -/
structure Exact (rule : Rule ObjectId ε α) : Prop where
  balanced : rule.Balanced
  cut : ∀ ⦃tail c c' s y a s'⦄, CutAt tail c c' → rule c s = (.found a, c.seek (y ++ tail), s') →
    rule c' s = (.found a, c'.seek y, s')

/-- A rule before another one that stops before the tail stops before the tail as well. -/
theorem exists_cut {next : Rule ObjectId ε β} (hb : rule.Balanced) (hnext : next.Balanced)
    {tail y : List Char} {c c₁ c₂ : Cursor} {s s₁ s₂ : ObjectId} {a : α} {b : β}
    (h : rule c s = (.found a, c₁, s₁)) (h₂ : next c₁ s₁ = (.found b, c₂.seek (y ++ tail), s₂)) :
    ∃ z, c₁ = c.seek (z ++ tail) := by
  obtain ⟨⟨rest, -, hc⟩, -⟩ := hb c s
  rw [h] at hc
  obtain rfl : c₁ = c.seek rest := hc
  have hsuffix := (hnext (c.seek rest) s₁).1.rest_suffix
  rw [h₂] at hsuffix
  obtain ⟨z, rfl⟩ := exists_append_of_suffix hsuffix
  exact ⟨z, rfl⟩

namespace Exact

theorem bind {next : α → Rule ObjectId ε β} (h : rule.Exact) (hnext : ∀ a, (next a).Exact) :
    (rule >>= next).Exact where
  balanced := balanced_bind h.balanced fun a => (hnext a).balanced
  cut tail c c' s y b s' hcut hr := by
    obtain ⟨a, c₁, s₁, hfirst, hsecond⟩ := bind_found hr
    obtain ⟨z, rfl⟩ := exists_cut h.balanced (hnext a).balanced hfirst hsecond
    rw [bind_of_found (h.cut hcut hfirst)]
    exact (hnext a).cut (hcut.seek z) hsecond

theorem nested (h : rule.Exact) : rule.nested.Exact where
  balanced := balanced_nested h.balanced
  cut tail c c' s y a s' hcut hr := by
    obtain ⟨hlt, rest, hfound, hrest⟩ := nested_found h.balanced hr
    obtain rfl : y ++ tail = rest := congrArg Cursor.rest hrest
    rw [nested_of_lt rule s (hcut.nesting_eq ▸ hlt), Rule.attempt,
      h.cut hcut.deeper.beginScope hfound]
    rfl

end Exact

end Rule

theorem skipSpaces_exact : skipSpaces.Exact where
  balanced := skipSpaces_balanced
  cut tail c c' s y _ s' hcut h := by
    obtain ⟨-, hc, rfl⟩ := found_inj ((skipSpaces_of_skipBlank rfl).symm.trans h)
    have hrest : skipBlank c.rest = y ++ tail := congrArg Cursor.rest hc
    obtain rfl := List.append_cancel_right (hcut.skipBlank_rest.symm.trans hrest)
    rfl

theorem expectChar_exact (ch : Char) : (expectChar ch).Exact where
  balanced := expectChar_balanced ch
  cut tail c c' s y _ s' hcut h := by
    obtain ⟨rest, hrest, hc, rfl⟩ := expectChar_found h
    obtain rfl : y ++ tail = rest := congrArg Cursor.rest hc
    rw [hcut.rest_eq] at hrest
    obtain hrest' : c'.rest = ch :: y := List.append_cancel_right hrest
    exact expectChar_of_head hrest'

/-! ## Rules that look at the tail in vain -/

/-- Of a value that was found before `y`, only the shape is the same if nothing but blanks is left
there, because something may have been tried behind them in one text and not in the other. -/
structure Same (y : List Char) (v v' : Object) (s s' : ObjectId) : Prop where
  shape_eq : v'.shape = v.shape
  eq_of_more : skipBlank y ≠ [] → v' = v ∧ s' = s

theorem Same.refl (y : List Char) (v : Object) (s : ObjectId) : Same y v v s s :=
  ⟨rfl, fun _ => ⟨rfl, rfl⟩⟩

/-- An operation that only looks at shapes. -/
theorem Same.settle {y : List Char} {a a' : Object} {s s' : ObjectId} (h : Same y a a' s s')
    {f : Object → Outcome Fault Yield} {g : Shape → Except Undefined Shape}
    (hf : ∀ o, (f o).Agrees (g o.shape)) {yielded : Yield} (hfound : f a = .found yielded) :
    ∃ yielded', f a' = .found yielded' ∧
      Same y (yielded.settle s).1 (yielded'.settle s').1 (yielded.settle s).2
        (yielded'.settle s').2 := by
  have ha := hf a
  have ha' := hf a'
  rw [h.shape_eq] at ha'
  rcases hg : g a.shape with (- | -) | shape <;> rw [hg] at ha ha'
  · exact nomatch hfound.symm.trans ha
  · exact nomatch hfound.symm.trans ha
  · obtain ⟨yielded₁, h₁, hshape⟩ := ha
    obtain ⟨yielded', h₂, hshape'⟩ := ha'
    obtain rfl : yielded = yielded₁ := Outcome.found.inj (hfound.symm.trans h₁)
    refine ⟨yielded', h₂, ?_, fun hmore => ?_⟩
    · rw [Yield.shape_settle, Yield.shape_settle, hshape, hshape']
    · obtain ⟨rfl, rfl⟩ := h.eq_of_more hmore
      obtain rfl : yielded' = yielded := Outcome.found.inj (h₂.symm.trans h₁)
      exact ⟨rfl, rfl⟩

/-- A rule for the kind finds the same value before a quiet place if the text ends behind it. -/
structure Kind.Cuts (k : Kind) (rule : List Object → GrammarRule) : Prop where
  balanced : ∀ held, (rule held).Balanced
  cut : ∀ ⦃held tail c c' s y v s'⦄, CutAt tail c c' → k.Quiet y →
    rule held c s = (.found v, c.seek (y ++ tail), s') →
      ∃ v' s'', rule held c' s = (.found v', c'.seek y, s'') ∧ Same y v v' s' s''

/-! ### Chains -/

section Chains

variable {l : Level} {operand : List Object → GrammarRule} {held : List Object}
  {room room' y tail : List Char} {left v : Object} {c c' : Cursor} {s s' : ObjectId}

/-- A chain that has stopped before a quiet place stops there if the text is cut behind it. -/
theorem chainFrom_cut_stop (operand : List Object → GrammarRule) (held : List Object)
    (hroom' : c'.rest.length ≤ room'.length)
    (hquiet : (Kind.chain l).Quiet c'.rest) {left' : Object} {s₁ : ObjectId}
    (hsame : Same c'.rest left left' s s₁) :
    ∃ v' s'', chainFrom l.operator? operand held room' left' c' s₁ =
        (.found v', c'.seek (skipBlank c'.rest), s'') ∧ Same (skipBlank c'.rest) left v' s s'' := by
  refine ⟨left', s₁, chainFrom_stop hquiet.operator?_eq_none fun hroom => ?_, hsame.shape_eq, ?_⟩
  · rw [hroom] at hroom'
    rw [List.eq_nil_of_length_eq_zero (Nat.le_zero.1 hroom')]
    rfl
  · rw [skipBlank_skipBlank]
    exact hsame.eq_of_more

/-- An operator that was applied before the tail is applied if the text is cut there. -/
theorem chainFrom_cut_step (hop : l.operand.Cuts operand) {op : BinaryOp} (hlevel : op.level = l)
    (hcut : CutAt tail c c') {input z : List Char} (hc : skipBlank c'.rest = op.symbol :: input)
    (hquiet : l.operand.Quiet z) {right : Object} {s₁ : ObjectId}
    (hright : operand (left :: held)
      ((c.seek (op.symbol :: (input ++ tail))).beginScope.seek (input ++ tail)) s =
        (.found right, (c.seek (op.symbol :: (input ++ tail))).beginScope.seek (z ++ tail), s₁))
    {yielded : Yield} (happly : left.apply op right = .found yielded) (a : Char)
    (room : List Char) :
    ∃ left' s', Same z (yielded.settle s₁).1 left' (yielded.settle s₁).2 s' ∧
      chainFrom l.operator? operand held (a :: room) left c' s =
        chainFrom l.operator? operand held room left' (c'.seek z) s' := by
  obtain ⟨right', s₂, hright', hsame⟩ :=
    hop.cut ((hcut.seek (op.symbol :: input)).beginScope.seek input) hquiet hright
  obtain ⟨yielded', happly', hsettled⟩ :=
    hsame.settle (fun o => left.apply_agrees op o) happly
  have hattempt : (Rule.attempt do advance; operand (left :: held) : GrammarRule)
      (c'.seek (op.symbol :: input)) s = (.found right', c'.seek z, s₂) := by
    have hinside : (do advance; operand (left :: held) : GrammarRule)
        (c'.seek (op.symbol :: input)).beginScope s =
          (.found right', (c'.seek (op.symbol :: input)).beginScope.seek z, s₂) :=
      (bind_of_found rfl).trans hright'
    rw [Rule.attempt, hinside]
    rfl
  refine ⟨_, _, hsettled, ?_⟩
  rw [chainFrom_step hlevel hc, bind_of_found (optional_of_found hattempt)]
  show Rule.bind (Rule.ofOutcome (left.apply op right')) _ _ _ = _
  rw [happly']
  rfl

theorem chainFrom_cut (hop : l.operand.Cuts operand) (hcut : CutAt tail c c')
    (hroom : c.rest.length ≤ room.length) (hroom' : c'.rest.length ≤ room'.length)
    (hquiet : (Kind.chain l).Quiet y)
    (h : chainFrom l.operator? operand held room left c s = (.found v, c.seek (y ++ tail), s')) :
    l.operand.Quiet c'.rest ∧ ∀ left' s₁, Same c'.rest left left' s s₁ →
      ∃ v' s'', chainFrom l.operator? operand held room' left' c' s₁ = (.found v', c'.seek y, s'') ∧
        Same y v v' s' s'' := by
  induction room generalizing c c' left s room' with
  | nil =>
    have hrest : c.rest = [] := List.eq_nil_of_length_eq_zero (Nat.le_zero.1 hroom)
    rw [hcut.rest_eq] at hrest
    exact absurd (List.append_eq_nil_iff.1 hrest).2 hcut.tail_ne_nil
  | cons a room ih =>
    rcases hnext : (skipBlank c.rest).head?.bind l.operator? with - | op
    · -- no operator of the chain comes next
      rw [chainFrom_stop (Option.bind_eq_none_iff.1 hnext)
        fun h => absurd h (List.cons_ne_nil a room)] at h
      obtain ⟨rfl, hc, rfl⟩ := found_inj h
      have hrest : skipBlank c.rest = y ++ tail := congrArg Cursor.rest hc
      obtain rfl := List.append_cancel_right (hcut.skipBlank_rest.symm.trans hrest)
      have hquiet' : (Kind.chain l).Quiet c'.rest := by
        rwa [Kind.Quiet, skipBlank_skipBlank] at hquiet
      exact ⟨hquiet'.operand, fun left' s₁ hsame => chainFrom_cut_stop _ _ hroom' hquiet' hsame⟩
    · obtain ⟨ch, hch, hsym⟩ := Option.bind_eq_some_iff.1 hnext
      obtain ⟨input, hinput⟩ := List.head?_eq_some_iff.1 hch
      obtain ⟨hlevel, rfl⟩ := Level.operator?_eq_some_iff.1 hsym
      rw [chainFrom_step hlevel hinput] at h
      obtain ⟨right?, c₁, s₁, h₁, g₁⟩ := bind_found h
      have hstep := balanced_bind (balanced_move Cursor.reaches_advance)
        fun _ => hop.balanced (left :: held)
      rcases optional_found h₁ with ⟨right, rfl, hright⟩ | ⟨rfl, hright⟩
      · obtain ⟨r, hinside, rfl⟩ := attempt_found hstep hright
        obtain ⟨⟨⟩, c₂, s₂, h₂, hoperand⟩ := bind_found hinside
        cases h₂
        obtain ⟨yielded, c₃, s₃, h₃, g₃⟩ := bind_found g₁
        obtain ⟨happly, rfl, rfl⟩ := ofOutcome_found h₃
        obtain ⟨left₂, c₄, s₄, h₄, hchain⟩ := bind_found g₃
        obtain ⟨rfl, rfl, rfl⟩ := found_inj h₄
        -- what was read so far ends before the tail
        have hbalanced : (chainFrom l.operator? operand held room (yielded.settle s₃).1).Balanced :=
          chainFrom_balanced hop.balanced held room _
        obtain ⟨z, rfl⟩ := exists_append_of_suffix (found_suffix (c := c.seek r) hbalanced hchain)
        have hz : z ++ tail <:+ input := found_suffix (hop.balanced (left :: held)) hoperand
        obtain ⟨u, rfl⟩ := exists_append_of_suffix hz
        have hc' : skipBlank c'.rest = op.symbol :: u :=
          List.append_cancel_right (hcut.skipBlank_rest.symm.trans hinput)
        have hlt : u.length < c'.rest.length := length_lt_of_skipBlank hc'
        have hzu : z.length ≤ u.length := by simpa using hz.length_le
        match room', hroom' with
        | [], hroom' => exact absurd (Nat.lt_of_lt_of_le hlt hroom') (Nat.not_lt_zero _)
        | a' :: room', hroom' =>
          have hroom₁ : (z ++ tail).length ≤ room.length := by
            have hlength := congrArg List.length hcut.rest_eq
            simp only [List.length_append, List.length_cons] at hlength hroom hroom' ⊢
            omega
          have hroom₂ : z.length ≤ room'.length := by
            rw [List.length_cons] at hroom'
            omega
          obtain ⟨hz, htail⟩ := ih (hcut.seek z) hroom₁ hroom₂ hchain
          refine ⟨.of_operator hlevel hc', fun left' s₂ hsame => ?_⟩
          obtain ⟨rfl, rfl⟩ := hsame.eq_of_more (by rw [hc']; exact List.cons_ne_nil _ _)
          obtain ⟨left₂, s₄, hsettled, hstep⟩ :=
            chainFrom_cut_step hop hlevel hcut hc' hz hoperand happly a' room'
          rw [hstep]
          exact htail left₂ s₄ hsettled
      · -- without an operand, the operator is left unread, and the text was cut before it
        obtain ⟨rfl, -⟩ := restores_attempt hstep hright
        obtain ⟨rfl, hc, rfl⟩ := found_inj g₁
        have hrest : op.symbol :: input = y ++ tail := congrArg Cursor.rest hc
        obtain rfl := List.append_cancel_right
          (hcut.skipBlank_rest.symm.trans (hinput.trans hrest))
        have hquiet' : (Kind.chain l).Quiet c'.rest := by
          rwa [Kind.Quiet, skipBlank_skipBlank] at hquiet
        have hblank : skipBlank c'.rest = [] := by
          by_contra hmore
          obtain ⟨ch, more, hc'⟩ := List.exists_cons_of_ne_nil hmore
          have hhead : ch = op.symbol := by
            have happend := hcut.skipBlank_rest
            rw [hinput, hc'] at happend
            exact (List.cons.inj happend).1.symm
          exact Kind.Quiet.not_of_operator hlevel (hhead ▸ hc') hquiet'
        refine ⟨hquiet'.operand, fun left' s₂ hsame => ?_⟩
        obtain ⟨v', s'', hstop, hshape, -⟩ := chainFrom_cut_stop operand held hroom' hquiet' hsame
        exact ⟨v', s'', hstop, hshape, fun hmore => absurd (by rw [hblank]; rfl) hmore⟩

theorem chain_cuts (hop : l.operand.Cuts operand) :
    (Kind.chain l).Cuts (chain l.operator? operand) where
  balanced := chain_balanced hop.balanced
  cut held tail c c' s y v s' hcut hquiet h := by
    have hrest : ∀ first, (do chainFrom l.operator? operand held (← .look Cursor.rest) first :
        GrammarRule).Balanced := fun first =>
      balanced_bind (balanced_look _) fun room => chainFrom_balanced hop.balanced held room first
    obtain ⟨r, hinside, hr⟩ := attempt_found (balanced_bind (hop.balanced held) hrest) h
    obtain rfl : y ++ tail = r := congrArg Cursor.rest hr
    obtain ⟨first, c₁, s₁, hfirst, hchain⟩ := bind_found hinside
    replace hchain : chainFrom l.operator? operand held c₁.rest first c₁ s₁ = _ := hchain
    obtain ⟨z, rfl⟩ := exists_cut (hop.balanced held)
      (chainFrom_balanced hop.balanced held c₁.rest first) hfirst hchain
    obtain ⟨hz, htail⟩ := chainFrom_cut hop (hcut.beginScope.seek z) (Nat.le_refl _) (Nat.le_refl _)
      hquiet hchain
    obtain ⟨first', s₂, hfirst', hsame⟩ := hop.cut hcut.beginScope hz hfirst
    obtain ⟨v', s'', hchain', hsame'⟩ := htail first' s₂ hsame
    have hinside' : (do
        let first ← operand held
        chainFrom l.operator? operand held (← .look Cursor.rest) first : GrammarRule)
          c'.beginScope s = (.found v', c'.beginScope.seek y, s'') :=
      (bind_of_found hfirst').trans hchain'
    refine ⟨v', s'', ?_, hsame'⟩
    rw [chain, Rule.attempt, hinside']
    rfl

theorem expressionOver_cuts {unary : List Object → GrammarRule} (hu : Kind.unary.Cuts unary) :
    Kind.expression.Cuts (expressionOver unary) :=
  chain_cuts (l := .logical) (chain_cuts (l := .additive) (chain_cuts (l := .multiplicative) hu))

end Chains

end Parley.Formula
