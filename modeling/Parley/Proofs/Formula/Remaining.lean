import Parley.Proofs.Formula.Cutting
import Parley.Proofs.Formula.Faults

/-!
# What remains of a text that is not a formula

A text that is not a formula is refused with what remains of it. What was read before that is a
formula itself, unless nothing was found at all.

- `valueOver_exact`, `memberOver_cuts`, `unary_cuts`: the values and operands of a text that is
  cut where it was left.
- `parse_of_stopped`: what was read of a text that is not a formula is one.
-/

namespace Parley.Formula

open Rule

/-! ## Values -/

section Values

variable {expression : List Object → GrammarRule}

variable {held : List Object} {tail u y : List Char} {ch : Char} {v : Object} {c c₁ c' : Cursor}
  {s s₁ s' : ObjectId}

/-- An expression that a character closes has ended for good. -/
theorem closed_cut (hx : Kind.expression.Cuts expression) (hcut : CutAt tail c c')
    (h : expression held c s = (.found v, c₁, s₁)) (hch : ch ∈ closing)
    (hc₁ : skipBlank c₁.rest = ch :: (u ++ tail)) :
    ∃ z, expression held c' s = (.found v, c'.seek z, s₁) ∧ skipBlank z = ch :: u ∧
      u.length < c'.rest.length := by
  obtain ⟨⟨rest, -, hc⟩, -⟩ := hx.balanced held c s
  rw [h] at hc
  obtain rfl : c₁ = c.seek rest := hc
  have hsuffix : u ++ tail <:+ rest :=
    (List.suffix_cons ch (u ++ tail)).trans (hc₁ ▸ List.dropWhile_suffix isSpace)
  obtain ⟨z, rfl⟩ := exists_append_of_suffix hsuffix
  have hz : skipBlank z = ch :: u :=
    List.append_cancel_right ((hcut.skipBlank_append z).symm.trans hc₁)
  obtain ⟨v', s₂, hv', hsame⟩ := hx.cut hcut (.of_closing hz hch) h
  obtain ⟨rfl, rfl⟩ := hsame.eq_of_more (by rw [hz]; exact List.cons_ne_nil _ _)
  exact ⟨z, hv', hz, Nat.lt_of_lt_of_le (length_lt_of_skipBlank hz)
    (found_suffix (hx.balanced held) hv').length_le⟩

theorem parenthesized_exact (hx : Kind.expression.Cuts expression) (held : List Object) :
    (parenthesized expression held).Exact := by
  have hclosed : (do
      let value ← expression held
      skipSpaces
      expectChar ')'
      pure value : GrammarRule).Exact :=
    { balanced := balanced_bind (hx.balanced held) fun value => balanced_bind skipSpaces_balanced
        fun _ => balanced_bind (expectChar_balanced ')') fun _ => balanced_pure value
      cut := by
        intro tail c c' s y v s' hcut h
        obtain ⟨value, c₁, s₁, hvalue, hclose⟩ := bind_found h
        by_cases hhead : (skipBlank c₁.rest).head? = some ')'
        · obtain ⟨input, hc₁⟩ := List.head?_eq_some_iff.1 hhead
          rw [skip_expect_of_head hc₁] at hclose
          obtain ⟨rfl, hc, rfl⟩ := found_inj hclose
          obtain rfl : input = y ++ tail := congrArg Cursor.rest hc
          obtain ⟨z, hvalue', hz, -⟩ := closed_cut hx hcut hvalue (by decide) hc₁
          rw [bind_of_found hvalue', skip_expect_of_head hz]
          rfl
        · have hgives : (do skipSpaces; expectChar ')'; pure value : GrammarRule).GivesUp c₁ :=
            skip_expect_givesUp hhead
          obtain ⟨c₂, hr⟩ := hgives s₁
          exact nomatch hr.symm.trans hclose }
  exact skipSpaces_exact.bind fun _ => (expectChar_exact '(').bind fun _ => hclosed

theorem itemsFrom_cut (hx : Kind.expression.Cuts expression) {held : List Object}
    {room room' : List Char} {items found : List Object} (hcut : CutAt tail c c')
    (hroom : c'.rest.length ≤ room'.length)
    (h : itemsFrom expression held room items c s = (.found found, c.seek (y ++ tail), s')) :
    itemsFrom expression held room' items c' s = (.found found, c'.seek y, s') := by
  induction room generalizing held items c c' s room' with
  | nil => cases h
  | cons a room ih =>
    obtain ⟨item, c₁, s₁, hitem, hnext⟩ := bind_found h
    by_cases hcomma : (skipBlank c₁.rest).head? = some ','
    · obtain ⟨input, hc₁⟩ := List.head?_eq_some_iff.1 hcomma
      rw [bind_of_found (skipSpaces_of_skipBlank hc₁),
        bind_of_found (acceptChar_of_head rfl)] at hnext
      replace hnext : itemsFrom expression (item :: held) room (item :: items) (c₁.seek input) s₁ =
        _ := hnext
      have hbalanced := itemsFrom_balanced hx.balanced (item :: held) room (item :: items)
      obtain ⟨⟨rest, -, hc⟩, -⟩ := hx.balanced held c s
      rw [hitem] at hc
      obtain rfl : c₁ = c.seek rest := hc
      obtain ⟨u, rfl⟩ := exists_append_of_suffix (found_suffix (c := c.seek input) hbalanced hnext)
      obtain ⟨z, hitem', hz, hlt⟩ := closed_cut hx hcut hitem (by decide) hc₁
      match room', hroom with
      | [], hroom => exact absurd (Nat.lt_of_lt_of_le hlt hroom) (Nat.not_lt_zero _)
      | a' :: room', hroom =>
        rw [itemsFrom, bind_of_found hitem', bind_of_found (skipSpaces_of_skipBlank hz),
          bind_of_found (acceptChar_of_head rfl)]
        exact ih (hcut.seek u) (Nat.le_of_lt_succ (Nat.lt_of_lt_of_le hlt hroom)) hnext
    · by_cases hbracket : (skipBlank c₁.rest).head? = some ']'
      · obtain ⟨input, hc₁⟩ := List.head?_eq_some_iff.1 hbracket
        rw [bind_of_found (skipSpaces_of_skipBlank hc₁),
          bind_of_found (acceptChar_of_not_head (by simp))] at hnext
        obtain ⟨rfl, hc, rfl⟩ :=
          found_inj ((bind_of_found (expectChar_of_head rfl)).symm.trans hnext)
        obtain rfl : input = y ++ tail := congrArg Cursor.rest hc
        obtain ⟨z, hitem', hz, hlt⟩ := closed_cut hx hcut hitem (by decide) hc₁
        match room', hroom with
        | [], hroom => exact absurd (Nat.lt_of_lt_of_le hlt hroom) (Nat.not_lt_zero _)
        | a' :: room', hroom =>
          rw [itemsFrom, bind_of_found hitem', bind_of_found (skipSpaces_of_skipBlank hz),
            bind_of_found (acceptChar_of_not_head (by simp))]
          exact bind_of_found (expectChar_of_head rfl)
      · obtain ⟨c₂, hr⟩ := items_givesUp hcomma hbracket s₁
        exact nomatch hr.symm.trans hnext

/-- A character that comes next in the text and is not the tail's comes next in the cut text. -/
theorem CutAt.cons_of_head (hcut : CutAt tail c c') {input : List Char}
    (hc : skipBlank c.rest = ch :: input) (hy : y ++ tail <:+ input) :
    ∃ z, input = z ++ tail ∧ skipBlank c'.rest = ch :: z := by
  obtain ⟨z, rfl⟩ := exists_append_of_suffix hy
  exact ⟨z, rfl, List.append_cancel_right (hcut.skipBlank_rest.symm.trans hc)⟩

/-- No other character comes next in the cut text. -/
theorem CutAt.head_ne (hcut : CutAt tail c c') (h : (skipBlank c.rest).head? ≠ some ch) :
    (skipBlank c'.rest).head? ≠ some ch := by
  intro hhead
  rw [hcut.skipBlank_rest, List.head?_append, hhead] at h
  exact h rfl

theorem array_exact (hx : Kind.expression.Cuts expression) (held : List Object) :
    (array expression held).Exact where
  balanced := array_balanced hx.balanced held
  cut tail c c' s y v s' hcut h := by
    by_cases hopen : c.rest.head? = some '['
    · obtain ⟨input, hc⟩ := List.head?_eq_some_iff.1 hopen
      -- the bracket, and whatever is read behind it, lies before the tail
      have hcut_input : y ++ tail <:+ input → ∃ z, input = z ++ tail ∧ c'.rest = '[' :: z := by
        intro hy
        obtain ⟨z, rfl⟩ := exists_append_of_suffix hy
        exact ⟨z, rfl, List.append_cancel_right (hcut.rest_eq.symm.trans hc)⟩
      by_cases hclose : (skipBlank input).head? = some ']'
      · obtain ⟨rest, hrest⟩ := List.head?_eq_some_iff.1 hclose
        rw [array_of_close hc hrest] at h
        obtain ⟨rfl, hc₁, rfl⟩ := found_inj h
        obtain rfl : rest = y ++ tail := congrArg Cursor.rest hc₁
        obtain ⟨z, rfl, hc'⟩ := hcut_input
          ((List.suffix_cons ']' _).trans (hrest ▸ List.dropWhile_suffix isSpace))
        have hz : skipBlank z = ']' :: y :=
          List.append_cancel_right ((hcut.skipBlank_append z).symm.trans hrest)
        exact array_of_close hc' hz
      · rw [array_of_items hc hclose] at h
        obtain ⟨items, c₁, s₁, hitems, hsettle⟩ := bind_found h
        obtain ⟨rfl, rfl, rfl⟩ := found_inj hsettle
        have hsuffix := found_suffix (c := c.seek (skipBlank input))
          (itemsFrom_balanced hx.balanced held _ []) hitems
        obtain ⟨z, rfl, hc'⟩ := hcut_input (hsuffix.trans (List.dropWhile_suffix isSpace))
        rw [hcut.skipBlank_append] at hitems
        have hitems' : itemsFrom expression held (skipBlank z) [] (c'.seek (skipBlank z)) s =
            (.found items, c'.seek y, s₁) :=
          itemsFrom_cut hx (hcut.seek (skipBlank z)) (Nat.le_refl _) hitems
        rw [array_of_items hc' ((hcut.seek z).head_ne hclose)]
        exact bind_of_found hitems'
    · obtain ⟨c₂, hr⟩ := (expectChar_givesUp hopen).bind _ s
      exact nomatch hr.symm.trans h

theorem valueOver_exact (hx : Kind.expression.Cuts expression) (held : List Object) :
    (valueOver expression held).Exact where
  balanced := valueOver_balanced hx.balanced held
  cut tail c c' s y v s' hcut h := by
    have hb := hx.balanced
    by_cases hparen : (skipBlank c.rest).head? = some '('
    · obtain ⟨input, hc⟩ := List.head?_eq_some_iff.1 hparen
      have hnested := ((valueOver_of_paren hb hc).found_iff _ _ _).1 h
      exact orElse_of_found ((parenthesized_exact hx held).nested.cut hcut hnested)
    · by_cases hbracket : (skipBlank c.rest).head? = some '['
      · obtain ⟨input, hc⟩ := List.head?_eq_some_iff.1 hbracket
        have hnested := ((valueOver_of_bracket hb hc).found_iff _ _ _).1 h
        rw [← hc] at hnested
        rw [valueOver_eq_literalOver held s hb (hcut.head_ne hparen), literalOver_eq]
        exact orElse_of_found ((array_exact hx held).nested.cut hcut.skip hnested)
      · rw [valueOver_eq_literalOver held s hb hparen,
          literalOver_eq_wordOrNumber held s hb hbracket] at h
        rw [valueOver_eq_literalOver held s hb (hcut.head_ne hparen),
          literalOver_eq_wordOrNumber held s hb (hcut.head_ne hbracket)]
        rcases readsWord_wordOrNumber (c.seek (skipBlank c.rest)) with
          ⟨yielded, rest, hword, hr⟩ | hgives
        · obtain ⟨rfl, hc, rfl⟩ := found_inj ((hr s).symm.trans h)
          obtain rfl : rest = y ++ tail := congrArg Cursor.rest hc
          exact wordOrNumber_of_word (c := c'.seek (skipBlank c'.rest))
            (hword.cut hcut.skipBlank_rest rfl) s
        · obtain ⟨c₂, hr⟩ := hgives s
          exact nomatch hr.symm.trans h

theorem memberOver_cuts (hx : Kind.expression.Cuts expression) :
    Kind.unary.Cuts (memberOver expression) where
  balanced := memberOver_balanced hx.balanced
  cut held tail c c' s y v s' hcut hquiet h := by
    have hb := hx.balanced
    rw [memberOver_eq] at h ⊢
    obtain ⟨base, c₁, s₁, hbase, hafter⟩ := bind_found h
    obtain ⟨z, rfl⟩ := exists_cut (valueOver_balanced hb held) (memberAfter_balanced hb held base)
      hbase hafter
    rw [bind_of_found ((valueOver_exact hx held).cut hcut hbase)]
    by_cases hpoint : (skipBlank (z ++ tail)).head? = some '.'
    · obtain ⟨input, hc⟩ := List.head?_eq_some_iff.1 hpoint
      rw [memberAfter_of_point (c := c.seek (z ++ tail)) hb hc] at hafter
      obtain ⟨⟨r, hr, hc₂⟩, -⟩ := valueOver_balanced hb (base :: held)
        ((c.seek (z ++ tail)).beginScope.seek input) s₁
      rcases hm : valueOver expression (base :: held)
        ((c.seek (z ++ tail)).beginScope.seek input) s₁ with ⟨member | - | cause, c₂, s₂⟩ <;>
        rw [hm] at hafter hc₂
      · -- the member lies before the tail, and so does the point
        obtain rfl : c₂ = (c.seek (z ++ tail)).beginScope.seek r := hc₂
        have hobject :
            Outcome.ofOption (base.member held member) = (.found v : Outcome Fault Object) :=
          congrArg Prod.fst hafter
        obtain rfl : s₂ = s' := congrArg (fun result => result.2.2) hafter
        obtain rfl : r = y ++ tail := congrArg (fun result => result.2.1.rest) hafter
        obtain ⟨u, rfl, hz⟩ := (hcut.seek z).cons_of_head hc hr
        have hmember : valueOver expression (base :: held) ((c'.seek z).beginScope.seek u) s₁ =
            (.found member, (c'.seek z).beginScope.seek y, s₂) :=
          (valueOver_exact hx (base :: held)).cut ((hcut.seek z).beginScope.seek u) hm
        refine ⟨v, s₂, ?_, .refl _ _ _⟩
        rw [memberAfter_of_point (c := c'.seek z) hb hz, hmember]
        exact Prod.ext hobject rfl
      · -- a point without a member is left unread, and belongs to the tail
        obtain ⟨rfl, hc₃, rfl⟩ := found_inj hafter
        obtain rfl : z = y := List.append_cancel_right (congrArg Cursor.rest hc₃)
        have hblank : skipBlank z = [] := by
          by_contra hmore
          obtain ⟨ch, more, hz⟩ := List.exists_cons_of_ne_nil hmore
          rw [hcut.skipBlank_append, hz] at hc
          exact (hquiet ch (by rw [hz]; rfl)).1 (List.cons.inj hc).1
        refine ⟨base, s₁, memberAfter_of_no_point (c := c'.seek z) hb base ?_, rfl, fun hmore => ?_⟩
        · rw [Cursor.rest_seek, hblank]
          exact nofun
        · exact absurd hblank hmore
      · exact nomatch hafter
    · rw [memberAfter_of_no_point (c := c.seek (z ++ tail)) hb base hpoint] at hafter
      obtain ⟨rfl, hc, rfl⟩ := found_inj hafter
      obtain rfl : z = y := List.append_cancel_right (congrArg Cursor.rest hc)
      exact ⟨base, s₁, memberAfter_of_no_point (c := c'.seek z) hb base
        ((hcut.seek z).head_ne hpoint), .refl _ _ _⟩

end Values

/-! ## Operands -/

section Unary

variable {held : List Object} {levels : Nat} {tail y input : List Char} {ch : Char} {sign : Sign}
  {v : Object} {c c' : Cursor} {s s₁ s' : ObjectId}

/-- A prefix operator, whose operand is cut with it. -/
theorem prefixed_cut {operand rule : List Object → GrammarRule} {f : Object → Outcome Fault Yield}
    {g : Shape → Except Undefined Shape} (hf : ∀ o, (f o).Agrees (g o.shape))
    (hop : Kind.unary.Cuts operand) (hb : (rule held).Balanced)
    (hrule : ∀ {c : Cursor} {s input}, skipBlank c.rest = ch :: input →
      rule held c s = (do
        let object ← operand held
        settle (← .ofOutcome (f object)) : GrammarRule) (c.seek input) s)
    (hcut : CutAt tail c c') (hquiet : Kind.unary.Quiet y) (hc : skipBlank c.rest = ch :: input)
    (h : nested (rule held) c s = (.found v, c.seek (y ++ tail), s')) :
    ∃ z, input = z ++ tail ∧ skipBlank c'.rest = ch :: z ∧ ∃ v' s'',
      nested (rule held) c' s = (.found v', c'.seek y, s'') ∧ Same y v v' s' s'' := by
  obtain ⟨hlt, r, hinside, hr⟩ := nested_found hb h
  obtain rfl : y ++ tail = r := congrArg Cursor.rest hr
  rw [hrule (c := c.deeper.beginScope) hc] at hinside
  obtain ⟨object, c₁, s₁, hobject, hsettle⟩ := bind_found hinside
  obtain ⟨yielded, c₂, s₂, houtcome, hv⟩ := bind_found hsettle
  obtain ⟨hyielded, rfl, rfl⟩ := ofOutcome_found houtcome
  obtain ⟨rfl, rfl, rfl⟩ := found_inj hv
  have hy : y ++ tail <:+ input := found_suffix (hop.balanced held) hobject
  obtain ⟨z, rfl, hz⟩ := hcut.cons_of_head hc hy
  obtain ⟨object', s₃, hobject', hsame⟩ := hop.cut (hcut.deeper.beginScope.seek z) hquiet hobject
  obtain ⟨yielded', hyielded', hsettled⟩ := hsame.settle hf hyielded
  refine ⟨z, rfl, hz, _, _, ?_, hsettled⟩
  have hinside' : rule held c'.deeper.beginScope s =
      (.found (yielded'.settle s₃).1, c'.deeper.beginScope.seek y, (yielded'.settle s₃).2) := by
    rw [hrule (c := c'.deeper.beginScope) hz, bind_of_found hobject']
    show Rule.bind (Rule.ofOutcome (f object')) _ _ _ = _
    rw [hyielded']
    rfl
  rw [nested_of_lt (rule held) s (hcut.nesting_eq ▸ hlt), Rule.attempt, hinside']
  rfl

theorem unary_cut_of_value {v : Object} {s' : ObjectId}
    (h : memberOver (expressionOver (unary levels)) held c.beginScope s =
      (.found v, c.beginScope.seek y, s')) :
    unary (levels + 1) held c s = (.found v, c.seek y, s') := by
  refine orElse_of_found ?_
  rw [Rule.attempt, h]
  rfl

/-- A sign that no digit follows is an operator in both texts. -/
theorem unary_cut_of_operator (hu : Kind.unary.Cuts (unary levels)) (hcut : CutAt tail c c')
    (hquiet : Kind.unary.Quiet y) (hc : skipBlank c.rest = sign.symbol :: input)
    (hdigit : ∀ d ∈ input.head?, d.isDigit = false)
    (h : unary (levels + 1) held c s = (.found v, c.seek (y ++ tail), s')) :
    ∃ v' s'', unary (levels + 1) held c' s = (.found v', c'.seek y, s'') ∧ Same y v v' s' s'' := by
  have hvalue : ∀ {c : Cursor} {input : List Char}, skipBlank c.rest = sign.symbol :: input →
      (∀ d ∈ input.head?, d.isDigit = false) →
        (valueOver (expressionOver (unary levels)) held).GivesUp c := fun hc hdigit =>
    valueOver_givesUp (expressionOver_balanced hu.balanced) hc (by cases sign <;> decide)
      (by cases sign <;> decide) (wordOrNumber_givesUp_of_sign sign hdigit)
  rw [unary_of_value_givesUp (hvalue (c := c.beginScope) hc hdigit)] at h
  have hnested := ((prefixes_of_sign hu.balanced hc s).found_iff _ _ _).1 h
  obtain ⟨z, rfl, hz, v', s'', hr, hsame⟩ := prefixed_cut (fun o => o.withSign_agrees sign) hu
    (signed_balanced hu.balanced held) (fun hc => signed_of_sign hc) hcut hquiet hc hnested
  have hdigit' : ∀ d ∈ z.head?, d.isDigit = false := fun d hd =>
    hdigit d (by rw [List.head?_append, Option.mem_def.1 hd]; rfl)
  refine ⟨v', s'', ?_, hsame⟩
  rw [unary_of_value_givesUp (hvalue (c := c'.beginScope) hz hdigit')]
  exact ((prefixes_of_sign hu.balanced hz s).found_iff _ _ _).2 hr

/-- A signed numeral is one value, whatever comes after it. -/
theorem valueOver_signed {expression : List Object → GrammarRule}
    (hb : ∀ held, (expression held).Balanced) (held : List Object) (s : ObjectId) (n : Numeral)
    (hsign : n.sign = none) {rest : List Char} (hend : ∀ ch ∈ rest.head?, ch.isDigit = false)
    (hc : skipBlank c.rest = sign.symbol :: (n.digits ++ rest)) :
    valueOver expression held c s =
      (.found (.integer s (n.withSign sign hsign).integer), c.seek rest, s + 1) := by
  have hword : Word (sign.symbol :: (n.digits ++ rest))
      (.fresh (.integer (n.withSign sign hsign).integer)) rest :=
    Word.numeral (n.withSign sign hsign) hend
  rw [valueOver_eq_wordOrNumber held s hb hc (by cases sign <;> decide) (by cases sign <;> decide)]
  exact wordOrNumber_of_word (c := c.seek (sign.symbol :: (n.digits ++ rest))) hword s

/-- A signed numeral before a point that belongs to the tail is one value in the cut text. In the
whole text its sign was an operator, because a value follows the point. -/
theorem unary_cut_of_numeral (hu : Kind.unary.Cuts (unary levels)) (hcut : CutAt tail c c')
    (hquiet : Kind.unary.Quiet y) {digits rest : List Char} (hne : digits ≠ [])
    (hdigits : ∀ ch ∈ digits, ch.isDigit = true) (hend : ∀ ch ∈ rest.head?, ch.isDigit = false)
    (hc : skipBlank c.rest = sign.symbol :: (digits ++ rest))
    (hmissing : attempt (memberOver (expressionOver (unary levels)) held) c s = (.missing, c, s₁))
    (h : nested (signed (unary levels) held) c s₁ = (.found v, c.seek (y ++ tail), s')) :
    ∃ v' s'', unary (levels + 1) held c' s = (.found v', c'.seek y, s'') ∧ Same y v v' s' s'' := by
  have hb := expressionOver_balanced hu.balanced
  obtain ⟨-, r, hinside, hr⟩ := nested_found (signed_balanced hu.balanced held) h
  obtain rfl : y ++ tail = r := congrArg Cursor.rest hr
  rw [signed_of_sign (c := c.deeper.beginScope) hc] at hinside
  obtain ⟨object, c₂, s₂, hobject, hsettle⟩ := bind_found hinside
  obtain ⟨yielded, c₃, s₃, houtcome, hv⟩ := bind_found hsettle
  obtain ⟨hyielded, rfl, rfl⟩ := ofOutcome_found houtcome
  obtain ⟨rfl, rfl, rfl⟩ := found_inj hv
  -- the operand is a number, which ends where the whole rule does
  obtain ⟨n, hsign, rfl, rfl, hrest⟩ := unary_digits_found
    (c := c.deeper.beginScope.seek (digits ++ rest)) hne hdigits hend rfl hobject
  obtain rfl : y ++ tail = rest := congrArg Cursor.rest hrest
  obtain ⟨z, hz, hc'⟩ := hcut.cons_of_head hc (List.suffix_append _ _)
  obtain rfl : n.digits ++ y = z := by
    rw [← List.append_assoc] at hz
    exact List.append_cancel_right hz
  have hpoint : (skipBlank y).head? ≠ some '.' := fun hhead => (hquiet '.' hhead).1 rfl
  have hvalue' := valueOver_signed (c := c'.beginScope) hb held s n hsign
    (fun ch hch => hend ch (by rw [List.head?_append, Option.mem_def.1 hch]; rfl)) hc'
  refine ⟨.integer s (n.withSign sign hsign).integer, s + 1, unary_cut_of_value (y := y) ?_, ?_,
    fun hmore => ?_⟩
  · rw [memberOver_eq, bind_of_found hvalue']
    exact memberAfter_of_no_point (c := c'.beginScope.seek y) hb _ hpoint
  · have hagrees := (Object.integer s₁ n.integer).withSign_agrees sign
    rw [Object.shape, Numeral.signed_integer sign n hsign] at hagrees
    obtain ⟨yielded', hyielded', hshape⟩ := hagrees
    obtain rfl : yielded = yielded' := Outcome.found.inj (hyielded.symm.trans hyielded')
    exact ((yielded.shape_settle _).trans hshape).symm
  · -- the value that follows the point would stand before the tail
    obtain ⟨c₄, hmissing'⟩ := attempt_missing hmissing
    have hvalue := valueOver_signed (c := c.beginScope) hb held s n hsign hend hc
    rcases memberOver_missing hb hmissing' with hnone |
      ⟨base, rest, s₅, input, member, rest', hbase, hdot, -⟩
    · cases hvalue.symm.trans hnone
    · obtain ⟨-, hbase, -⟩ := found_inj (hvalue.symm.trans hbase)
      obtain rfl : y ++ tail = rest := congrArg Cursor.rest hbase
      obtain ⟨ch, more, hy⟩ := List.exists_cons_of_ne_nil hmore
      rw [hcut.skipBlank_append, hy] at hdot
      exact absurd (by rw [hy, (List.cons.inj hdot).1]; rfl) hpoint

theorem unary_cuts (levels : Nat) : Kind.unary.Cuts (unary levels) := by
  induction levels with
  | zero => exact ⟨unary_balanced 0, fun _ _ _ _ _ _ _ _ _ _ h => nomatch h⟩
  | succ levels hu =>
    refine ⟨unary_balanced (levels + 1), fun held tail c c' s y v s' hcut hquiet h => ?_⟩
    have hx := expressionOver_cuts hu
    have hmember := memberOver_balanced hx.balanced held
    rcases orElse_found h with hfirst | ⟨c₁, s₁, hmissing, hprefix⟩
    · obtain ⟨r, hinside, hr⟩ := attempt_found hmember hfirst
      obtain rfl : y ++ tail = r := congrArg Cursor.rest hr
      obtain ⟨v', s'', hinside', hsame⟩ :=
        (memberOver_cuts hx).cut hcut.beginScope hquiet hinside
      exact ⟨v', s'', unary_cut_of_value hinside', hsame⟩
    · obtain ⟨rfl, -⟩ := restores_attempt hmember hmissing
      by_cases hbang : (skipBlank c₁.rest).head? = some '!'
      · obtain ⟨input, hc⟩ := List.head?_eq_some_iff.1 hbang
        rw [unary_of_bang hc] at h
        obtain ⟨z, -, hz, v', s'', hr, hsame⟩ := prefixed_cut (fun o => o.negate_agrees) hu
          (negated_balanced hu.balanced held) (fun hc => negated_of_bang hc) hcut hquiet hc h
        exact ⟨v', s'', (unary_of_bang hz).trans hr, hsame⟩
      · rcases hsign : (skipBlank c₁.rest).head?.bind Sign.ofChar? with - | sign
        · -- neither a sign nor `!`, so that nothing else is tried
          rw [prefixes_of_head hu.balanced (fun ch hch =>
            ⟨Option.bind_eq_none_iff.1 hsign ch hch, fun heq => hbang (heq ▸ hch)⟩)] at hprefix
          cases hprefix
        · obtain ⟨ch, hch, hof⟩ := Option.bind_eq_some_iff.1 hsign
          obtain ⟨input, hc⟩ := List.head?_eq_some_iff.1 hch
          rw [Cursor.symbol_of_ofChar? hof] at hc
          have hend : ∀ d ∈ (input.dropWhile Char.isDigit).head?, d.isDigit = false := by
            intro d hd
            have hstop := List.head?_dropWhile_not Char.isDigit input
            rwa [Option.mem_def.1 hd] at hstop
          by_cases hdigits : input.takeWhile Char.isDigit = []
          · have hinput : input.dropWhile Char.isDigit = input := by
              have hsplit := List.takeWhile_append_dropWhile (p := Char.isDigit) (l := input)
              rwa [hdigits] at hsplit
            exact unary_cut_of_operator hu hcut hquiet hc (hinput ▸ hend) h
          · rw [← List.takeWhile_append_dropWhile (p := Char.isDigit) (l := input)] at hc
            exact unary_cut_of_numeral hu hcut hquiet hdigits
              (fun _ hd => List.mem_takeWhile_imp hd) hend hc hmissing
              (((prefixes_of_sign hu.balanced hc s₁).found_iff _ _ _).1 hprefix)

end Unary

theorem expression_cuts : Kind.expression.Cuts expression :=
  expressionOver_cuts (unary_cuts maxLevels)

/-! ## Whole texts -/

section Texts

variable {held : List Object} {tail rest : List Char} {v : Object} {c c' : Cursor}
  {s s' : ObjectId}

/-- What a statement leaves of the text behind its expression. -/
def afterStatement (text : List Char) : List Char :=
  if (skipBlank text).head? = some ';' then (skipBlank text).tail else skipBlank text

theorem semicolon_found (value : Object) (c : Cursor) (s : ObjectId) :
    (do
      skipSpaces
      let _ ← acceptChar ';'
      pure value : GrammarRule) c s = (.found value, c.seek (afterStatement c.rest), s) := by
  rw [bind_of_found (skipSpaces_of_skipBlank rfl), afterStatement]
  split
  case isTrue hhead =>
    obtain ⟨more, hmore⟩ := List.head?_eq_some_iff.1 hhead
    rw [hmore, bind_of_found (acceptChar_of_head rfl)]
    rfl
  case isFalse hhead =>
    rw [bind_of_found (acceptChar_of_not_head hhead)]
    rfl

theorem statement_found_iff :
    statement held c s = (.found v, c', s') ↔ ∃ rest,
      expression held c.beginScope s = (.found v, c.beginScope.seek rest, s') ∧
        c' = c.seek (afterStatement rest) := by
  constructor
  · intro h
    obtain ⟨r, hinside, rfl⟩ :=
      attempt_found (balanced_bind (expression_balanced held) semicolon_balanced) h
    obtain ⟨value, c₁, s₁, hvalue, hend⟩ := bind_found hinside
    obtain ⟨⟨rest, -, hc⟩, -⟩ := expression_balanced held c.beginScope s
    rw [hvalue] at hc
    obtain rfl : c₁ = c.beginScope.seek rest := hc
    obtain ⟨rfl, hr, rfl⟩ := found_inj ((semicolon_found value _ s₁).symm.trans hend)
    exact ⟨rest, hvalue, congrArg (c.seek ·) (congrArg Cursor.rest hr).symm⟩
  · rintro ⟨rest, hvalue, rfl⟩
    have hinside : (do
        let value ← expression held
        skipSpaces
        let _ ← acceptChar ';'
        pure value : GrammarRule) c.beginScope s =
          (.found v, c.beginScope.seek (afterStatement rest), s') :=
      (bind_of_found hvalue).trans (semicolon_found v _ s')
    rw [statement, Rule.attempt, hinside]
    rfl

/-- What a statement ends with lies before the tail: blanks, and perhaps a semicolon. -/
theorem quiet_of_afterStatement (hcut : CutAt tail c c') {y : List Char}
    (h : skipBlank (afterStatement (y ++ tail)) = tail) :
    Kind.expression.Quiet y ∧ skipBlank (afterStatement y) = [] := by
  have hy := hcut.skipBlank_append y
  rw [afterStatement, hy] at h
  rcases hblank : skipBlank y with - | ⟨ch, more⟩ <;> rw [hblank] at h
  · exact ⟨.of_blank hblank, by rw [afterStatement, hblank]; rfl⟩
  · rw [List.cons_append, List.head?_cons, List.tail_cons] at h
    have hch : ch = ';' := by
      by_contra hne
      rw [if_neg (fun hhead => hne (Option.some.inj hhead)),
        skipBlank_cons (isSpace_of_skipBlank hblank), ← List.cons_append] at h
      exact absurd (List.append_left_eq_self.1 h) (List.cons_ne_nil ch more)
    subst hch
    have htail : skipBlank more ++ tail = tail := (hcut.skipBlank_append more).symm.trans h
    refine ⟨.of_closing hblank (by decide), ?_⟩
    rw [afterStatement, hblank]
    exact List.append_left_eq_self.1 htail

/-- The statement that was read before the tail is all of the text that ends there. -/
theorem statement_cut (hcut : CutAt tail c c')
    (h : statement held c s = (.found v, c.seek rest, s')) (hrest : skipBlank rest = tail) :
    ∃ v' rest' s'', statement held c' s = (.found v', c'.seek rest', s'') ∧
      skipBlank rest' = [] := by
  obtain ⟨w, hfound, hc⟩ := statement_found_iff.1 h
  obtain rfl : rest = afterStatement w := congrArg Cursor.rest hc
  have hsuffix : tail <:+ w := by
    rw [← hrest]
    refine (List.dropWhile_suffix isSpace).trans ?_
    rw [afterStatement]
    split
    · exact (List.tail_suffix _).trans (List.dropWhile_suffix isSpace)
    · exact List.dropWhile_suffix isSpace
  obtain ⟨y, rfl⟩ := hsuffix
  obtain ⟨hquiet, hblank⟩ := quiet_of_afterStatement hcut hrest
  obtain ⟨v', s'', hfound', -⟩ := expression_cuts.cut hcut.beginScope hquiet hfound
  exact ⟨v', afterStatement y, s'', statement_found_iff.2 ⟨y, hfound', rfl⟩, hblank⟩

/-- A text that is not a formula is left where a formula has ended, if it begins with one at all:
what was read is one, and what remains begins with no blank. -/
theorem parse_of_stopped {held : List Object} {text : String} {next : ObjectId} {remaining : String}
    (h : (parse held text next).1 = .error (.notAFormula remaining)) :
    ∃ read, text = read ++ remaining ∧
      (∀ ch ∈ remaining.toList.head?, isSpace ch = false) ∧
      ((∀ ch ∈ read.toList, isSpace ch = true) ∨ ∃ v, (parse held read next).1 = .ok v) := by
  obtain ⟨outcome, c, s, hs, rfl, hstopped⟩ := statement_of_not_a_formula h
  have hbody := balanced_bind (expression_balanced held) semicolon_balanced
  have hsuffix : skipBlank c.rest <:+ text.toList := by
    have hreached := (balanced_attempt hbody (.ofText text.toList) next).1.rest_suffix
    replace hs : Rule.attempt _ (.ofText text.toList) next = (outcome, c, s) := hs
    rw [hs] at hreached
    exact (List.dropWhile_suffix isSpace).trans hreached
  obtain ⟨read, hread⟩ := hsuffix
  refine ⟨String.ofList read, ?_, ?_, ?_⟩
  · rw [← String.ofList_append, hread, String.ofList_toList]
  · rw [String.toList_ofList]
    intro ch hch
    obtain ⟨more, hmore⟩ := List.head?_eq_some_iff.1 hch
    exact isSpace_of_skipBlank hmore
  · rcases hstopped with rfl | ⟨v, rfl, hne⟩
    · -- nothing was found, so that only blanks were skipped
      obtain ⟨rfl, -⟩ := restores_attempt hbody hs
      obtain ⟨b, hb⟩ := exists_blank text.toList
      obtain rfl : read = b.chars := List.append_cancel_right (hread.trans hb)
      left
      rw [String.toList_ofList]
      exact b.isSpace_of_mem
    · have hcut : CutAt (skipBlank c.rest) (.ofText text.toList) (.ofText read) :=
        ⟨hne, skipBlank_skipBlank _, rfl, hread.symm⟩
      obtain ⟨rest, -, rfl⟩ := statement_found_iff.1 hs
      obtain ⟨v', rest', s', hs', hend⟩ := statement_cut hcut hs rfl
      have hatEnd : ((Cursor.ofText read).seek rest').skipSpaces.isAtEnd = true :=
        List.isEmpty_iff.2 hend
      right
      refine ⟨v', ?_⟩
      simp only [parse, String.toList_ofList, hs', hatEnd, if_true]

theorem parse_of_stopped_at_operator :
    (parse [] "-2 * 3. true" 4).1 = .error (.notAFormula "* 3. true") ∧
      ∃ read, "-2 * 3. true" = read ++ "* 3. true" ∧
        (∀ ch ∈ "* 3. true".toList.head?, isSpace ch = false) ∧
        ((∀ ch ∈ read.toList, isSpace ch = true) ∨ ∃ v, (parse [] read 4).1 = .ok v) := by
  have h : (parse [] "-2 * 3. true" 4).1 = .error (.notAFormula "* 3. true") :=
    not_a_formula_of_check (by decide +kernel)
  exact ⟨h, parse_of_stopped h⟩

end Texts

end Parley.Formula
