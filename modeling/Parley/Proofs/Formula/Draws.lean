import Parley.Proofs.Formula.Spending

/-!
# How many identifiers a formula draws

A signed numeral before a point is tried twice, as a value with a member and as an operand
behind a sign, and so is what follows the point. That does not multiply. The text is read again
only if a whole value was found behind the point, and no value that is found has a point behind a
digit in it.

- `Kind.Frugal`, `unary_frugal`: rules that draw no more than their text allows.
- `parse_draws_le`: at most two identifiers for each character of a text.
-/

namespace Parley.Formula

open Rule

/-! ## Frugal rules -/

/-- The rule stays within the budget of its text. What it finds before a quiet place has been
paid for by the characters that were read. -/
def Kind.Frugal (k : Kind) (rule : List Object → GrammarRule) : Prop :=
  ∀ held c s, Within (budget c.rest s)
    (fun _ rest s' => k.Quiet rest → Spends ⟨false, c.rest, s⟩ ⟨true, rest, s'⟩) (rule held c s)

/-- The same for values, which have ended wherever they were found. A point behind a digit comes
next only if the value is a number. -/
def ValueFrugal (rule : List Object → GrammarRule) : Prop :=
  ∀ held c s, Within (budget c.rest s)
    (fun v rest s' => Spends ⟨false, c.rest, s⟩ ⟨v.integer?.isSome, rest, s'⟩) (rule held c s)

/-! ### Words -/

theorem Keyword.ne_point_and_not_isDigit (keyword : Keyword) :
    ∀ ch ∈ keyword.text, ch ≠ '.' ∧ ch.isDigit = false := by
  rcases keyword with - | - | - | _ | _ <;> simp [Keyword.text, Char.isDigit]

theorem Numeral.ne_point (n : Numeral) : ∀ ch ∈ n.text, ch ≠ '.' := by
  intro ch hch
  rcases List.mem_append.1 hch with hsign | hdigit
  · rcases hs : n.sign with - | sign
    · simp [hs, signText] at hsign
    · obtain rfl : ch = sign.symbol := by simpa [hs, signText] using hsign
      cases sign <;> decide
  · rintro rfl
    exact absurd (n.isDigit_of_mem '.' hdigit) (by decide)

theorem Word.spends {text rest : List Char} {yielded : Yield} (h : Word text yielded rest)
    (s : Nat) :
    Spends ⟨false, text, s⟩
      ⟨(yielded.settle s).1.integer?.isSome, rest, (yielded.settle s).2⟩ := by
  have hnext := settle_next_le yielded s
  cases h with
  | keyword keyword ends =>
    have hlength : 0 < keyword.text.length := by
      rcases keyword with - | - | - | _ | _ <;> decide
    refine Spends.of_false (b := _) ⟨?_, reread_append_le fun ch hch => ?_⟩
    · refine Nat.le_trans (Nat.add_le_add_right hnext rest.length) ?_
      show s + 1 + rest.length ≤ s + (keyword.text ++ rest).length
      rw [List.length_append]
      omega
    · obtain ⟨hpoint, hdigit⟩ := keyword.ne_point_and_not_isDigit ch hch
      exact ⟨hpoint, fun h => by simp [hdigit] at h⟩
  | numeral n ends =>
    have hlength : 0 < n.text.length := by
      obtain ⟨ch, more, htext, -⟩ := n.exists_cons
      simp [htext]
    constructor
    · show s + 1 + rest.length ≤ s + (n.text ++ rest).length
      rw [List.length_append]
      omega
    · exact Nat.le_trans (reread_le_true false _)
        (reread_append_le fun ch hch => ⟨n.ne_point ch hch, fun _ => rfl⟩)

theorem wordOrNumber_within (c : Cursor) (s : Nat) : Within (budget c.rest s)
    (fun v rest s' => Spends ⟨false, c.rest, s⟩ ⟨v.integer?.isSome, rest, s'⟩)
    (wordOrNumber c s) := by
  rcases readsWord_wordOrNumber c with ⟨yielded, rest, hword, hr⟩ | hgives
  · have hspends := hword.spends s
    rw [hr]
    exact .found hspends.le_budget hspends
  · exact .of_givesUp hgives (le_budget _ _)

/-! ### Chains -/

section Chains

variable {l : Level} {operand : List Object → GrammarRule}

/-- A chain that goes on behind an operand keeps what the operand has left. -/
theorem chainFrom_within {held : List Object} {room : List Char} {left : Object} {b : Bool}
    {text : List Char} {low : Nat} {c : Cursor} {s : Nat} (hsuffix : c.rest <:+ text)
    (hs : s ≤ budget text low)
    (hsettled : l.operand.Quiet c.rest → Spends ⟨b, text, low⟩ ⟨true, c.rest, s⟩)
    (h : Within (budget c.rest s)
      (fun _ rest s' => (Kind.chain l).Quiet rest → Spends ⟨true, c.rest, s⟩ ⟨true, rest, s'⟩)
      (chainFrom l.operator? operand held room left c s)) :
    Within (budget text low)
      (fun _ rest s' => (Kind.chain l).Quiet rest → Spends ⟨b, text, low⟩ ⟨true, rest, s'⟩)
      (chainFrom l.operator? operand held room left c s) := by
  by_cases hquiet : l.operand.Quiet c.rest
  · have hspends := hsettled hquiet
    exact h.mono (budget_le hsuffix hspends) fun _ rest s' hnext hq => hspends.trans (hnext hq)
  · -- the chain is stuck where the operand is
    obtain ⟨rest, hr, hskip⟩ := chainFrom_of_not_quiet hquiet
    rw [hr]
    refine .found hs fun hq => absurd hq.operand ?_
    rwa [Kind.Quiet, Cursor.rest_seek, hskip]

theorem chainFrom_frugal (hb : ∀ held, (operand held).Balanced) (hop : l.operand.Frugal operand)
    (held : List Object) (room : List Char) (left : Object) (c : Cursor) (s : Nat) :
    Within (budget c.rest s)
      (fun _ rest s' => (Kind.chain l).Quiet rest → Spends ⟨true, c.rest, s⟩ ⟨true, rest, s'⟩)
      (chainFrom l.operator? operand held room left c s) := by
  induction room generalizing left c s with
  | nil => exact .found (le_budget _ _) fun _ => .refl _
  | cons a room ih =>
    rcases hnext : (skipBlank c.rest).head?.bind l.operator? with - | op
    · -- no operator of the chain comes next
      rw [chainFrom_stop (Option.bind_eq_none_iff.1 hnext)
        fun h => absurd h (List.cons_ne_nil a room)]
      exact .found (le_budget _ _) fun _ => .blank true c.rest s
    · obtain ⟨ch, hch, hsym⟩ := Option.bind_eq_some_iff.1 hnext
      obtain ⟨input, hc⟩ := List.head?_eq_some_iff.1 hch
      obtain ⟨hlevel, rfl⟩ := Level.operator?_eq_some_iff.1 hsym
      rw [chainFrom_step hlevel hc]
      have htake : budget input s + 1 ≤ budget c.rest s := budget_take hc s
      have hinput : op.symbol :: input <:+ c.rest := hc ▸ List.dropWhile_suffix isSpace
      have hstep := balanced_bind (balanced_move Cursor.reaches_advance) fun _ => hb (left :: held)
      refine Within.bind (balanced_optional (balanced_attempt hstep)) (Within.optional_attempt hstep
        (hop (left :: held) ((c.seek (op.symbol :: input)).beginScope.seek input) s))
        (Nat.le_of_succ_le htake) ?_
      rintro right? c' s' hsuffix hs' (⟨right, rfl, hsettled⟩ | ⟨rfl, hrest⟩)
      · -- the operator's character pays for the value of the operation
        refine Within.settle_bind (Nat.le_trans hs' (Nat.le_of_succ_le htake))
          fun left' s₂ hs₂ => ?_
        have hbound : s₂ ≤ budget c.rest s :=
          Nat.le_trans hs₂ (Nat.le_trans (Nat.succ_le_succ hs') htake)
        refine chainFrom_within (hsuffix.trans hinput) hbound (fun hquiet => ?_) (ih left' c' s₂)
        have hop : Spends ⟨true, c.rest, s⟩ ⟨false, input, s + 1⟩ :=
          .take true s hc (by cases op <;> decide) (by cases op <;> exact (by decide))
        exact (hop.trans ((hsettled hquiet).shift 1)).early hs₂
      · -- without an operand, the operator is left unread
        refine .found (Nat.le_trans hs' (Nat.le_of_succ_le htake)) fun hquiet => ?_
        rw [hrest] at hquiet
        exact absurd hquiet (Kind.Quiet.not_of_operator hlevel (skipBlank_cons op.isSpace_symbol _))

theorem chain_frugal (hb : ∀ held, (operand held).Balanced) (hop : l.operand.Frugal operand) :
    (Kind.chain l).Frugal (chain l.operator? operand) := by
  intro held c s
  have hrest : ∀ first, (do chainFrom l.operator? operand held (← .look Cursor.rest) first :
      GrammarRule).Balanced := fun first =>
    balanced_bind (balanced_look _) fun room => chainFrom_balanced hb held room first
  refine Within.attempt (balanced_bind (hb held) hrest) ?_
  refine Within.bind (hb held) (hop held c.beginScope s) (Nat.le_refl _) ?_
  intro first c' s' hsuffix hs' hsettled
  exact chainFrom_within hsuffix hs' hsettled (chainFrom_frugal hb hop held c'.rest first c' s')

theorem expressionOver_frugal {unary : List Object → GrammarRule}
    (hb : ∀ held, (unary held).Balanced) (hu : Kind.unary.Frugal unary) :
    Kind.expression.Frugal (expressionOver unary) :=
  chain_frugal (l := .logical) (chain_balanced (chain_balanced hb)) <|
    chain_frugal (l := .additive) (chain_balanced hb) <|
      chain_frugal (l := .multiplicative) hb hu

end Chains

/-! ### Values -/

section Values

variable {expression : List Object → GrammarRule} {c : Cursor} {s : Nat} {input : List Char}

theorem parenthesized_frugal (hb : ∀ held, (expression held).Balanced)
    (hx : Kind.expression.Frugal expression) : ValueFrugal (parenthesized expression) := by
  intro held c s
  by_cases hopen : (skipBlank c.rest).head? = some '('
  · obtain ⟨input, hc⟩ := List.head?_eq_some_iff.1 hopen
    have htake : Spends ⟨false, c.rest, s⟩ ⟨false, input, s⟩ :=
      (Spends.take false s hc (by decide) (by decide)).early (Nat.le_succ s)
    rw [show parenthesized expression held c s =
      (do let value ← expression held; skipSpaces; expectChar ')'; pure value : GrammarRule)
        (c.seek input) s from skip_expect_of_head hc]
    refine Within.bind (hb held) (hx held (c.seek input) s)
      (Nat.le_of_succ_le (budget_take hc s)) ?_
    intro v c' s' hsuffix hs' hsettled
    have hbound : s' ≤ budget c.rest s := Nat.le_trans hs' (Nat.le_of_succ_le (budget_take hc s))
    by_cases hclose : (skipBlank c'.rest).head? = some ')'
    · obtain ⟨more, hc'⟩ := List.head?_eq_some_iff.1 hclose
      have hlast : Spends ⟨true, c'.rest, s'⟩ ⟨false, more, s'⟩ :=
        (Spends.take true s' hc' (by decide) (by decide)).early (Nat.le_succ s')
      rw [skip_expect_of_head hc']
      exact .found hbound
        ((htake.trans ((hsettled (.of_closing hc' (by decide))).trans hlast)).of_false _)
    · exact .of_givesUp (skip_expect_givesUp hclose) hbound
  · exact .of_givesUp (skip_expect_givesUp hopen) (le_budget _ _)

theorem itemsFrom_frugal (hb : ∀ held, (expression held).Balanced)
    (hx : Kind.expression.Frugal expression) (held : List Object) (room : List Char)
    (items : List Object) (c : Cursor) (s : Nat) :
    Within (budget c.rest s) (fun _ rest s' => Spends ⟨false, c.rest, s⟩ ⟨false, rest, s'⟩)
      (itemsFrom expression held room items c s) := by
  induction room generalizing held items c s with
  | nil => exact .missing (le_budget _ _)
  | cons a room ih =>
    refine Within.bind (hb held) (hx held c s) (Nat.le_refl _) ?_
    intro item c' s' hsuffix hs' hsettled
    -- a comma or a bracket closes the item, which has then ended for good
    have hclose : ∀ {ch more}, skipBlank c'.rest = ch :: more → ch ∈ closing → ch ≠ '.' →
        ch.isDigit = false → Spends ⟨false, c.rest, s⟩ ⟨false, more, s'⟩ := by
      intro ch more hc' hch hpoint hdigit
      exact (hsettled (.of_closing hc' hch)).trans
        ((Spends.take true s' hc' hdigit fun h => absurd h hpoint).early (Nat.le_succ s'))
    by_cases hcomma : (skipBlank c'.rest).head? = some ','
    · obtain ⟨more, hc'⟩ := List.head?_eq_some_iff.1 hcomma
      have hspends := hclose hc' (by decide) (by decide) (by decide)
      rw [bind_of_found (skipSpaces_of_skipBlank hc'), bind_of_found (acceptChar_of_head rfl)]
      have hmore : more <:+ c.rest :=
        ((List.suffix_cons ',' more).trans (hc' ▸ List.dropWhile_suffix isSpace)).trans hsuffix
      exact (ih (item :: held) (item :: items) (c'.seek more) s').mono (budget_le hmore hspends)
        fun _ rest s₂ h => hspends.trans h
    · by_cases hbracket : (skipBlank c'.rest).head? = some ']'
      · obtain ⟨more, hc'⟩ := List.head?_eq_some_iff.1 hbracket
        rw [bind_of_found (skipSpaces_of_skipBlank hc'),
          bind_of_found (acceptChar_of_not_head (by simp))]
        exact .found hs' (hclose hc' (by decide) (by decide) (by decide))
      · exact .of_givesUp (items_givesUp hcomma hbracket) hs'

theorem array_frugal (hb : ∀ held, (expression held).Balanced)
    (hx : Kind.expression.Frugal expression) : ValueFrugal (array expression) := by
  intro held c s
  by_cases hopen : c.rest.head? = some '['
  · obtain ⟨input, hc⟩ := List.head?_eq_some_iff.1 hopen
    have hskip : skipBlank c.rest = '[' :: input := by rw [hc, skipBlank_cons (by decide)]
    -- the first bracket pays for the array
    have htake : Spends ⟨false, c.rest, s⟩ ⟨false, skipBlank input, s + 1⟩ :=
      (Spends.take false s hskip (by decide) (by decide)).trans (.blank false input (s + 1))
    by_cases hclose : (skipBlank input).head? = some ']'
    · obtain ⟨more, hmore⟩ := List.head?_eq_some_iff.1 hclose
      have hlast : Spends ⟨false, skipBlank input, s + 1⟩ ⟨false, more, s + 1⟩ :=
        (Spends.take false (s + 1) (by rw [hmore, skipBlank_cons (by decide)]) (by decide)
          (by decide)).early (Nat.le_succ _)
      rw [array_of_close hc hmore]
      exact .found (htake.trans hlast).le_budget (htake.trans hlast)
    · have hsuffix : skipBlank input <:+ c.rest :=
        (List.dropWhile_suffix isSpace).trans (hc ▸ List.suffix_cons '[' input)
      have hbudget : budget (skipBlank input) s + 1 ≤ budget c.rest s := by
        have hle := budget_le hsuffix htake
        unfold budget at hle ⊢
        omega
      rw [array_of_items hc hclose]
      refine Within.bind (itemsFrom_balanced hb held _ _) (itemsFrom_frugal hb hx held _ [] _ s)
        (Nat.le_of_succ_le hbudget) fun items c' s' _ hs' hsettled => ?_
      exact .found (Nat.le_trans (Nat.succ_le_succ hs') hbudget) (htake.trans (hsettled.shift 1))
  · exact .of_givesUp ((expectChar_givesUp hopen).bind _) (le_budget _ _)

theorem Within.of_skipBlank {text : List Char} {result : Outcome Fault Object × Cursor × Nat}
    (h : Within (budget (skipBlank text) s)
      (fun v rest s' => Spends ⟨false, skipBlank text, s⟩ ⟨v.integer?.isSome, rest, s'⟩) result) :
    Within (budget text s)
      (fun v rest s' => Spends ⟨false, text, s⟩ ⟨v.integer?.isSome, rest, s'⟩) result :=
  h.mono (budget_le (List.dropWhile_suffix isSpace) (.blank false text s))
    fun _ _ _ hspends => (Spends.blank false text s).trans hspends

theorem valueOver_frugal (hb : ∀ held, (expression held).Balanced)
    (hx : Kind.expression.Frugal expression) : ValueFrugal (valueOver expression) := by
  intro held c s
  by_cases hparen : (skipBlank c.rest).head? = some '('
  · obtain ⟨input, hc⟩ := List.head?_eq_some_iff.1 hparen
    exact (Within.nested (parenthesized_balanced hb held) (le_budget _ _)
      (parenthesized_frugal hb hx held c.deeper.beginScope s)).alike (valueOver_of_paren hb hc)
  · by_cases hbracket : (skipBlank c.rest).head? = some '['
    · obtain ⟨input, hc⟩ := List.head?_eq_some_iff.1 hbracket
      refine Within.of_skipBlank (Within.alike ?_ (valueOver_of_bracket hb hc))
      rw [hc]
      exact Within.nested (array_balanced hb held) (le_budget _ _)
        (array_frugal hb hx held (c.seek ('[' :: input)).deeper.beginScope s)
    · rw [valueOver_eq_literalOver held s hb hparen, literalOver_eq_wordOrNumber held s hb hbracket]
      exact .of_skipBlank (wordOrNumber_within (c.seek (skipBlank c.rest)) s)

/-- A member behind a value was looked up in the view, which is not a number. -/
theorem memberOver_frugal (hb : ∀ held, (expression held).Balanced)
    (hx : Kind.expression.Frugal expression) : Kind.unary.Frugal (memberOver expression) := by
  intro held c s
  have hvalue := valueOver_frugal hb hx
  rw [memberOver_eq]
  refine Within.bind (valueOver_balanced hb held) (hvalue held c s) (Nat.le_refl _) ?_
  intro base c' s' hsuffix hs' hspends
  by_cases hpoint : (skipBlank c'.rest).head? = some '.'
  · obtain ⟨input, hc'⟩ := List.head?_eq_some_iff.1 hpoint
    have hbound : budget input s' ≤ budget c.rest s :=
      Nat.le_trans (Nat.le_of_succ_le (budget_take hc' s')) (budget_le hsuffix hspends)
    have hmember := hvalue (base :: held) (c'.beginScope.seek input) s'
    rw [memberAfter_of_point hb hc']
    rcases hr : valueOver expression (base :: held) (c'.beginScope.seek input) s' with
      ⟨member | - | cause, c₁, s₁⟩ <;> rw [hr] at hmember
    · have hs₁ : s₁ ≤ budget c.rest s := Nat.le_trans hmember.1 hbound
      show Within _ _ (Outcome.ofOption (base.member held member), c₁.endScope false, s₁)
      rcases hobject : base.member held member with - | object
      · exact .missing hs₁
      · refine .found hs₁ fun _ => Spends.weaken (b := member.integer?.isSome) ?_
        rw [Cursor.rest_endScope_false]
        obtain rfl : base = .view := by
          cases base <;> simp [Object.member] at hobject
          rfl
        have htake : Spends ⟨false, c'.rest, s'⟩ ⟨false, input, s'⟩ :=
          (Spends.take false s' hc' (by decide) (fun _ => rfl)).early (Nat.le_succ s')
        exact (hspends.trans htake).trans (hmember.2 member c₁ s₁ rfl)
    · refine .found (Nat.le_trans hmember.1 hbound) fun hquiet => ?_
      exact absurd rfl (hquiet '.' hpoint).1
    · exact .fault (Nat.le_trans hmember.1 hbound)
  · rw [memberAfter_of_no_point hb base hpoint]
    exact .found hs' fun _ => hspends.weaken

end Values

/-! ### Operands -/

section Unary

variable {c : Cursor} {s : Nat} {held : List Object} {input digits rest : List Char} {ch : Char}

/-- The character before an operand pays for the value that is made of it. -/
theorem prefixed_within {operand : GrammarRule} {outcome : Object → Outcome Fault Yield}
    (hb : operand.Balanced) (h : skipBlank c.rest = ch :: input) (hdigit : ch.isDigit = false)
    {c' : Cursor}
    (hop : Within (budget input s)
      (fun _ rest s' => Kind.unary.Quiet rest → Spends ⟨false, input, s⟩ ⟨true, rest, s'⟩)
      (operand c' s)) :
    Within (budget c.rest s)
      (fun _ rest s' => Kind.unary.Quiet rest → Spends ⟨false, c.rest, s⟩ ⟨true, rest, s'⟩)
      ((do
        let object ← operand
        settle (← .ofOutcome (outcome object)) : GrammarRule) c' s) := by
  have htake : budget input s + 1 ≤ budget c.rest s := budget_take h s
  refine Within.bind hb hop (Nat.le_of_succ_le htake) fun object c₁ s₁ _ hs₁ hsettled => ?_
  refine Within.settle (Nat.le_trans hs₁ (Nat.le_of_succ_le htake)) fun v s₂ hs₂ => ?_
  refine ⟨Nat.le_trans hs₂ (Nat.le_trans (Nat.succ_le_succ hs₁) htake), fun hquiet => ?_⟩
  have hsymbol : Spends ⟨false, c.rest, s⟩ ⟨false, input, s + 1⟩ :=
    .take false s h hdigit fun _ => rfl
  exact (hsymbol.trans ((hsettled hquiet).shift 1)).early hs₂

theorem reread_digits {b : Bool} (hne : digits ≠ []) (h : ∀ ch ∈ digits, ch.isDigit = true) :
    reread b (digits ++ rest) = reread true rest := by
  induction digits generalizing b with
  | nil => exact absurd rfl hne
  | cons d ds ih =>
    have hd : d.isDigit = true := h d List.mem_cons_self
    have hpoint : ¬(d = '.' ∧ b = true) := by
      rintro ⟨rfl, -⟩
      exact absurd hd (by decide)
    rw [List.cons_append, reread_cons, if_neg hpoint, isSpace_of_isDigit hd, hd]
    rcases ds with - | ⟨d', ds⟩
    · rfl
    · exact ih (List.cons_ne_nil _ _) fun ch hch => h ch (List.mem_cons_of_mem _ hch)

/-- A number before a point: what is behind the point is read once, and is no member of it. -/
theorem unary_digits_within {levels : Nat} (hu : ∀ k < levels, Kind.unary.Frugal (unary k))
    (hne : digits ≠ []) (hdigits : ∀ ch ∈ digits, ch.isDigit = true)
    (hend : ∀ ch ∈ rest.head?, ch.isDigit = false) (hpoint : skipBlank rest = '.' :: input)
    (h : c.rest = digits ++ rest) :
    Within (budget input (s + 1)) (fun _ after _ => ¬ Kind.unary.Quiet after)
      (unary levels held c s) := by
  cases levels with
  | zero => exact .missing (Nat.le_of_succ_le (le_budget input (s + 1)))
  | succ levels =>
    have hb := expressionOver_balanced (unary_balanced levels)
    have hx := expressionOver_frugal (unary_balanced levels) (hu levels (Nat.lt_succ_self levels))
    have hhead : ∀ ch ∈ (skipBlank c.rest).head?, Sign.ofChar? ch = none ∧ ch ≠ '!' :=
      prefix_of_digits hne hdigits h
    refine Within.alike (Within.attempt (memberOver_balanced hb held) ?_) (unary_of_head hhead)
    rcases valueOver_digits (c := c.beginScope) hb hne hdigits hend h with ⟨n, -, -, hr⟩ | hgives
    · rw [memberOver_eq, bind_of_found (hr held s),
        memberAfter_of_point (c := c.beginScope.seek rest) hb hpoint]
      have hvalue := valueOver_frugal hb hx (.integer s n.integer :: held)
        ((c.beginScope.seek rest).beginScope.seek input) (s + 1)
      rcases hm : valueOver (expressionOver (unary levels)) (.integer s n.integer :: held)
        ((c.beginScope.seek rest).beginScope.seek input) (s + 1) with
          ⟨member | - | cause, c', s'⟩ <;> rw [hm] at hvalue
      · exact .missing hvalue.1
      · exact .found hvalue.1 fun hquiet => absurd rfl (hquiet '.' (by simp [hpoint])).1
      · exact .fault hvalue.1
    · exact .of_givesUp ((hgives held).bind _) (Nat.le_of_succ_le (le_budget input (s + 1)))

/-- A signed numeral with a value behind a point. Both are read a second time under the sign. -/
theorem signed_again_within {levels : Nat} (hu : ∀ k ≤ levels, Kind.unary.Frugal (unary k))
    {sign : Sign} (h : skipBlank c.rest = sign.symbol :: (digits ++ rest)) (hne : digits ≠ [])
    (hdigits : ∀ ch ∈ digits, ch.isDigit = true) (hend : ∀ ch ∈ rest.head?, ch.isDigit = false)
    (hpoint : skipBlank rest = '.' :: input) {b : Bool} {after : List Char} {s' : Nat}
    (hmember : Spends ⟨false, input, s + 1⟩ ⟨b, after, s'⟩) :
    Within (budget c.rest s)
      (fun _ rest s' => Kind.unary.Quiet rest → Spends ⟨false, c.rest, s⟩ ⟨true, rest, s'⟩)
      (nested (signed (unary levels) held) c s') := by
  have hdraws : s' + after.length ≤ s + 1 + input.length := hmember.draws_le
  have hreread : reread false input ≤ after.length :=
    Nat.le_trans hmember.reread_le (reread_le_length b after)
  -- everything from the point on is in the budget twice
  have hbudget : budget input (s' + 1) + 1 ≤ budget c.rest s := by
    have hlength := length_lt_of_skipBlank h
    have hinput := length_lt_of_skipBlank hpoint
    have hpos := List.length_pos_iff.2 hne
    have htwice : reread false c.rest = input.length + 1 := by
      rw [← reread_skipBlank, h, reread_other (by cases sign <;> rfl) (Cursor.isDigit_symbol sign)
        (fun _ => rfl), reread_digits hne hdigits, ← reread_skipBlank, hpoint, reread_point]
    rw [List.length_append] at hlength
    unfold budget
    omega
  refine Within.nested (signed_balanced (unary_balanced levels) held)
    (Nat.le_trans (Nat.le_add_right s' 2) (Nat.le_trans ?_ hbudget)) ?_
  · exact Nat.succ_le_succ (le_budget input (s' + 1))
  · rw [signed_of_sign (c := c.deeper.beginScope) h]
    refine Within.bind (unary_balanced levels held)
      (unary_digits_within (fun k hk => hu k (Nat.le_of_lt hk)) hne hdigits hend hpoint rfl)
      (Nat.le_of_succ_le hbudget) fun object c₁ s₁ _ hs₁ hstuck => ?_
    refine Within.settle (Nat.le_trans hs₁ (Nat.le_of_succ_le hbudget)) fun v s₂ hs₂ => ?_
    exact ⟨Nat.le_trans hs₂ (Nat.le_trans (Nat.succ_le_succ hs₁) hbudget),
      fun hquiet => absurd hquiet hstuck⟩

theorem unary_within_of_sign {levels : Nat} (hu : ∀ k ≤ levels, Kind.unary.Frugal (unary k))
    {sign : Sign} (h : skipBlank c.rest = sign.symbol :: input) :
    Within (budget c.rest s)
      (fun _ rest s' => Kind.unary.Quiet rest → Spends ⟨false, c.rest, s⟩ ⟨true, rest, s'⟩)
      (unary (levels + 1) held c s) := by
  have hb := unary_balanced levels
  have hx := expressionOver_balanced hb
  have hfrugal := expressionOver_frugal hb (hu levels (Nat.le_refl levels))
  refine Within.orElse (Within.attempt (memberOver_balanced hx held)
    (memberOver_frugal hx hfrugal held c.beginScope s)) fun c' s' hattempt => ?_
  obtain ⟨rfl, -⟩ := restores_attempt (memberOver_balanced hx held) hattempt
  obtain ⟨c₁, hmissing⟩ := attempt_missing hattempt
  refine Within.alike ?_ (prefixes_of_sign hb h s')
  rcases valueOver_of_sign (c := c'.beginScope) hx h with ⟨n, rest, -, rfl, hend, hr⟩ | hgives
  · -- a signed numeral was read, which is a value with something behind it
    rcases memberOver_missing hx hmissing with hnone |
      ⟨base, rest₁, s₁, after, member, rest', hbase, hpoint, hfound, -⟩
    · rw [hr] at hnone
      cases hnone
    · rw [hr] at hbase
      cases hbase
      have hmember := (valueOver_frugal hx hfrugal _ _ _).2 _ _ _ hfound
      exact signed_again_within hu h n.digits_ne_nil n.isDigit_of_mem hend hpoint hmember
  · -- the sign belongs to no value, and nothing was drawn
    obtain ⟨c₂, hr⟩ := (hgives held).bind (memberAfter (expressionOver (unary levels)) held) s
    obtain rfl : s = s' := congrArg (fun result => result.2.2) (hr.symm.trans hmissing)
    refine Within.nested (signed_balanced hb held) (le_budget _ _) ?_
    rw [signed_of_sign (c := c'.deeper.beginScope) h]
    exact prefixed_within (c := c') (hb held) h (Cursor.isDigit_symbol sign)
      (hu levels (Nat.le_refl levels) held (c'.deeper.beginScope.seek input) s)

theorem unary_frugal (levels : Nat) : Kind.unary.Frugal (unary levels) := by
  -- what is tried again runs two levels further in
  induction levels using Nat.strongRecOn with
  | ind levels ih =>
    cases levels with
    | zero => exact fun held c s => .missing (le_budget _ _)
    | succ levels =>
      intro held c s
      have hb := unary_balanced levels
      have hx := expressionOver_balanced hb
      have hu := ih levels (Nat.lt_succ_self levels)
      by_cases hbang : (skipBlank c.rest).head? = some '!'
      · obtain ⟨input, hc⟩ := List.head?_eq_some_iff.1 hbang
        rw [unary_of_bang hc]
        refine Within.nested (negated_balanced hb held) (le_budget _ _) ?_
        rw [negated_of_bang (c := c.deeper.beginScope) hc]
        exact prefixed_within (c := c) (hb held) hc (by decide)
          (hu held (c.deeper.beginScope.seek input) s)
      · rcases hsign : (skipBlank c.rest).head?.bind Sign.ofChar? with - | sign
        · refine Within.alike (Within.attempt (memberOver_balanced hx held)
            (memberOver_frugal hx (expressionOver_frugal hb hu) held c.beginScope s))
            (unary_of_head fun ch hch => ⟨Option.bind_eq_none_iff.1 hsign ch hch, ?_⟩)
          rintro rfl
          exact hbang hch
        · obtain ⟨ch, hch, hsymbol⟩ := Option.bind_eq_some_iff.1 hsign
          obtain ⟨input, hc⟩ := List.head?_eq_some_iff.1 hch
          obtain rfl := Cursor.symbol_of_ofChar? hsymbol
          exact unary_within_of_sign (fun k hk => ih k (Nat.lt_succ_of_le hk)) hc

end Unary

/-! ## Whole texts -/

theorem statement_within (held : List Object) (c : Cursor) (s : Nat) :
    Within (budget c.rest s) (fun _ _ _ => True) (statement held c s) := by
  have hexpression : Kind.expression.Frugal expression :=
    expressionOver_frugal (unary_balanced maxLevels) (unary_frugal maxLevels)
  have hbody : Within (budget c.rest s) (fun _ _ _ => True) ((do
      let value ← expression held
      skipSpaces
      let _ ← acceptChar ';'
      pure value : GrammarRule) c.beginScope s) :=
    Within.bind (expression_balanced held) (hexpression held c.beginScope s) (Nat.le_refl _)
      fun _ _ _ _ hs' _ => ⟨hs', fun _ _ _ _ => trivial⟩
  exact hbody.attempt (balanced_bind (expression_balanced held) semicolon_balanced)

theorem parse_snd (held : List Object) (text : String) (next : ObjectId) :
    (parse held text next).2 = (statement held (.ofText text.toList) next).2.2 := by
  unfold parse
  rcases statement held (.ofText text.toList) next with ⟨value | - | cause, c, s⟩
  · dsimp only
    split <;> rfl
  · rfl
  · rfl

/-- A text draws at most one identifier for each character before its first point behind a digit,
and two for each character from there on. -/
theorem parse_le_budget (held : List Object) (text : String) (next : ObjectId) :
    (parse held text next).2 ≤ budget text.toList next := by
  have hwithin := statement_within held (.ofText text.toList) next
  rw [parse_snd]
  generalize statement held (.ofText text.toList) next = result at hwithin ⊢
  exact hwithin.1

/-- Work is linear: at most two identifiers are drawn for each character. -/
theorem parse_draws_le (held : List Object) (text : String) (next : ObjectId) :
    (parse held text next).2 ≤ next + 2 * text.length := by
  refine Nat.le_trans (parse_le_budget held text next) ?_
  have hreread := reread_le_length false text.toList
  unfold budget
  rw [String.length_toList] at hreread ⊢
  rw [Nat.add_assoc]
  exact Nat.add_le_add_left (by omega) next

end Parley.Formula
