import Parley.Proofs.Formula.Alternatives

/-!
# Spending the characters of a text

Identifiers are drawn for what was read, and each character can be charged with at most one of
them, or with two behind the first point that stands behind a digit.

- `reread`: how much of a text may be read twice.
- `Spends`: at most one identifier for each character, and no point behind a digit passed.
- `Within`: a result within a bound, with one lemma for each combinator.
-/

namespace Parley.Formula

open Rule

/-! ## What may be read twice -/

/-- The length of a text from its first point on that stands behind a digit, blanks apart. The
flag tells whether the text itself stands behind a digit. -/
def reread : (afterDigit : Bool) → List Char → Nat
  | _, [] => 0
  | afterDigit, ch :: rest =>
    if ch = '.' ∧ afterDigit = true then rest.length + 1
    else reread (if isSpace ch then afterDigit else ch.isDigit) rest

section Reread

variable {b : Bool} {text rest more word : List Char} {ch : Char}

theorem reread_cons (b : Bool) (ch : Char) (rest : List Char) :
    reread b (ch :: rest) =
      if ch = '.' ∧ b = true then rest.length + 1
      else reread (if isSpace ch then b else ch.isDigit) rest :=
  rfl

theorem reread_le_length (b : Bool) (text : List Char) : reread b text ≤ text.length := by
  induction text generalizing b with
  | nil => exact Nat.le_refl 0
  | cons ch rest ih =>
    rw [reread_cons, List.length_cons]
    split
    · exact Nat.le_refl _
    · exact Nat.le_succ_of_le (ih _)

theorem reread_point (rest : List Char) : reread true ('.' :: rest) = rest.length + 1 := by
  rw [reread_cons, if_pos ⟨rfl, rfl⟩]

/-- Behind a digit, no less is read twice. -/
theorem reread_le_true (b : Bool) (text : List Char) : reread b text ≤ reread true text := by
  cases b with
  | true => exact Nat.le_refl _
  | false =>
    induction text with
    | nil => exact Nat.le_refl 0
    | cons ch rest ih =>
      by_cases hpoint : ch = '.'
      · subst hpoint
        rw [reread_point]
        exact reread_le_length false ('.' :: rest)
      · simp only [reread_cons, hpoint, false_and, if_false]
        split
        · exact ih
        · exact Nat.le_refl _

theorem reread_false_le (b : Bool) (text : List Char) : reread false text ≤ reread b text := by
  cases b with
  | true => exact reread_le_true false text
  | false => exact Nat.le_refl _

theorem reread_skipBlank (b : Bool) (text : List Char) :
    reread b (skipBlank text) = reread b text := by
  induction text with
  | nil => rfl
  | cons ch rest ih =>
    cases hs : isSpace ch with
    | false => rw [skipBlank_cons hs]
    | true =>
      have hpoint : ¬(ch = '.' ∧ b = true) := by
        rintro ⟨rfl, -⟩
        exact absurd hs (by decide)
      have hskip : skipBlank (ch :: rest) = skipBlank rest := by simp [skipBlank, hs]
      rw [hskip, ih, reread_cons, if_neg hpoint, hs]
      rfl

/-- A character that is neither a digit nor a point behind one. -/
theorem reread_other (hspace : isSpace ch = false) (hdigit : ch.isDigit = false)
    (hpoint : ch = '.' → b = false) : reread b (ch :: rest) = reread false rest := by
  rw [reread_cons, if_neg, hspace, hdigit]
  · rfl
  · rintro ⟨hch, rfl⟩
    cases hpoint hch

theorem reread_suffix (h : rest <:+ text) : reread false rest ≤ reread false text := by
  induction text with
  | nil => rw [List.suffix_nil.1 h]
  | cons ch text ih =>
    rcases List.suffix_cons_iff.1 h with rfl | h
    · exact Nat.le_refl _
    · refine Nat.le_trans (ih h) ?_
      rw [reread_cons, if_neg (fun h => Bool.false_ne_true h.2)]
      exact reread_false_le _ _

/-- A word without points is passed. -/
theorem reread_append_le (h : ∀ ch ∈ word, ch ≠ '.' ∧ (ch.isDigit = true → b = true)) :
    reread b (word ++ rest) ≤ reread b rest := by
  induction word with
  | nil => exact Nat.le_refl _
  | cons ch word ih =>
    obtain ⟨hpoint, hdigit⟩ := h ch List.mem_cons_self
    refine Nat.le_trans ?_ (ih fun ch hch => h ch (List.mem_cons_of_mem _ hch))
    rw [List.cons_append, reread_cons, if_neg fun h => hpoint h.1]
    split
    · exact Nat.le_refl _
    · cases hd : ch.isDigit with
      | true => rw [hdigit hd]
      | false => exact reread_false_le b _

end Reread

/-! ## Spending -/

/-- What is left of a text, whether it stands behind a digit, and the next identifier. -/
structure Place where
  afterDigit : Bool
  rest : List Char
  next : Nat

/-- From one place to another at most one identifier was drawn for each character, and no point
behind a digit was passed. -/
structure Spends (p q : Place) : Prop where
  draws_le : q.next + q.rest.length ≤ p.next + p.rest.length
  reread_le : reread p.afterDigit p.rest ≤ reread q.afterDigit q.rest

namespace Spends

variable {p q : Place} {b : Bool} {text rest more : List Char} {ch : Char} {s s' : Nat}

theorem refl (p : Place) : Spends p p :=
  ⟨Nat.le_refl _, Nat.le_refl _⟩

theorem trans {r : Place} (h₁ : Spends p q) (h₂ : Spends q r) : Spends p r :=
  ⟨Nat.le_trans h₂.draws_le h₁.draws_le, Nat.le_trans h₁.reread_le h₂.reread_le⟩

theorem weaken (h : Spends p ⟨b, rest, s⟩) : Spends p ⟨true, rest, s⟩ :=
  ⟨h.draws_le, Nat.le_trans h.reread_le (reread_le_true b rest)⟩

theorem of_false (h : Spends p ⟨false, rest, s⟩) (b : Bool) : Spends p ⟨b, rest, s⟩ :=
  ⟨h.draws_le, Nat.le_trans h.reread_le (reread_false_le b rest)⟩

theorem blank (b : Bool) (text : List Char) (s : Nat) :
    Spends ⟨b, text, s⟩ ⟨b, skipBlank text, s⟩ := by
  constructor
  · exact Nat.add_le_add_left (List.dropWhile_suffix _).length_le s
  · exact Nat.le_of_eq (reread_skipBlank b text).symm

/-- A character that is taken pays for an identifier. -/
theorem take (b : Bool) (s : Nat) (h : skipBlank text = ch :: more)
    (hdigit : ch.isDigit = false) (hpoint : ch = '.' → b = false) :
    Spends ⟨b, text, s⟩ ⟨false, more, s + 1⟩ := by
  constructor
  · have hlt := length_lt_of_skipBlank h
    show s + 1 + more.length ≤ s + text.length
    omega
  · show reread b text ≤ reread false more
    rw [← reread_skipBlank, h, reread_other (isSpace_of_skipBlank h) hdigit hpoint]

/-- The same identifiers may be drawn later. -/
theorem shift {b' : Bool} (h : Spends ⟨b, text, s⟩ ⟨b', rest, s'⟩) (n : Nat) :
    Spends ⟨b, text, s + n⟩ ⟨b', rest, s' + n⟩ := by
  refine ⟨?_, h.reread_le⟩
  have hdraws : s' + rest.length ≤ s + text.length := h.draws_le
  show s' + n + rest.length ≤ s + n + text.length
  omega

/-- Fewer identifiers may be drawn as well. -/
theorem early {s₁ : Nat} (h : Spends p ⟨b, rest, s₁⟩) (hs : s ≤ s₁) : Spends p ⟨b, rest, s⟩ :=
  ⟨Nat.le_trans (Nat.add_le_add_right hs _) h.draws_le, h.reread_le⟩

end Spends

/-- The identifiers that are enough for a text, whatever comes of it. -/
def budget (text : List Char) (s : Nat) : Nat :=
  s + text.length + reread false text

theorem le_budget (text : List Char) (s : Nat) : s ≤ budget text s := by
  unfold budget
  omega

theorem Spends.le_budget {text rest : List Char} {b b' : Bool} {s s' : Nat}
    (h : Spends ⟨b, text, s⟩ ⟨b', rest, s'⟩) : s' ≤ budget text s := by
  have hdraws : s' + rest.length ≤ s + text.length := h.draws_le
  unfold budget
  omega

theorem budget_le {text rest : List Char} {b b' : Bool} {s s' : Nat} (h : rest <:+ text)
    (hspends : Spends ⟨b, text, s⟩ ⟨b', rest, s'⟩) : budget rest s' ≤ budget text s :=
  Nat.add_le_add hspends.draws_le (reread_suffix h)

/-- What is read behind a character may draw one identifier more. -/
theorem budget_take {text more : List Char} {ch : Char} (h : skipBlank text = ch :: more)
    (s : Nat) : budget more s + 1 ≤ budget text s := by
  have hlt := length_lt_of_skipBlank h
  have hsuffix : more <:+ text :=
    (List.suffix_cons ch more).trans (h ▸ List.dropWhile_suffix isSpace)
  have hreread := reread_suffix hsuffix
  unfold budget
  omega

/-- A new object takes one identifier. -/
theorem settle_next_le (yielded : Yield) (s : Nat) : (yielded.settle s).2 ≤ s + 1 := by
  cases yielded with
  | existing object => exact Nat.le_succ s
  | fresh content => exact Nat.le_refl _

/-! ## Results within a bound -/

section Within

variable {α β : Type}

/-- The next identifier is within a bound, and what was found is told by `Settled`. -/
def Within (bound : Nat) (Settled : α → List Char → Nat → Prop)
    (result : Outcome Fault α × Cursor × Nat) : Prop :=
  result.2.2 ≤ bound ∧ ∀ a c s, result = (.found a, c, s) → Settled a c.rest s

namespace Within

variable {bound bound' : Nat} {Settled Settled' : α → List Char → Nat → Prop}
  {Next : β → List Char → Nat → Prop} {c : Cursor} {s : Nat}

theorem mono {result : Outcome Fault α × Cursor × Nat} (h : Within bound Settled result)
    (hbound : bound ≤ bound') (hsettled : ∀ a rest s, Settled a rest s → Settled' a rest s) :
    Within bound' Settled' result :=
  ⟨Nat.le_trans h.1 hbound, fun a c s hr => hsettled a c.rest s (h.2 a c s hr)⟩

theorem alike {result result' : Outcome Fault α × Cursor × Nat}
    (h : Within bound Settled result') (ha : Alike result result') :
    Within bound Settled result :=
  ⟨Nat.le_trans (Nat.le_of_eq ha.state_eq) h.1,
    fun a c s hr => h.2 a c s ((ha.found_iff a c s).1 hr)⟩

theorem found {a : α} (hs : s ≤ bound) (h : Settled a c.rest s) :
    Within bound Settled (.found a, c, s) := by
  refine ⟨hs, fun a' c' s' hr => ?_⟩
  cases hr
  exact h

theorem missing (hs : s ≤ bound) : Within bound Settled (.missing, c, s) :=
  ⟨hs, fun _ _ _ hr => nomatch hr⟩

theorem fault {cause : Fault} (hs : s ≤ bound) : Within bound Settled (.fault cause, c, s) :=
  ⟨hs, fun _ _ _ hr => nomatch hr⟩

theorem of_givesUp {rule : Rule ObjectId Fault α} (h : rule.GivesUp c) (hs : s ≤ bound) :
    Within bound Settled (rule c s) := by
  obtain ⟨c', hr⟩ := h s
  rw [hr]
  exact missing hs

/-- What comes after a rule may have a bound of its own. -/
theorem bind {rule : Rule ObjectId Fault α} {next : α → Rule ObjectId Fault β}
    (hb : rule.Balanced) (h : Within bound Settled (rule c s)) (hbound : bound ≤ bound')
    (hnext : ∀ a c' s', c'.rest <:+ c.rest → s' ≤ bound → Settled a c'.rest s' →
      Within bound' Next (next a c' s')) : Within bound' Next ((rule >>= next) c s) := by
  obtain ⟨hc, -⟩ := hb c s
  show Within bound' Next (Rule.bind rule next c s)
  rcases hr : rule c s with ⟨a | - | cause, c', s'⟩ <;> rw [hr] at h hc <;>
    simp only [Rule.bind, hr]
  · exact hnext a c' s' hc.rest_suffix h.1 (h.2 a c' s' rfl)
  · exact missing (Nat.le_trans h.1 hbound)
  · exact fault (Nat.le_trans h.1 hbound)

theorem orElse {first second : Rule ObjectId Fault α} (h : Within bound Settled (first c s))
    (hsecond : ∀ c' s', first c s = (.missing, c', s') → Within bound Settled (second c' s')) :
    Within bound Settled ((first <|> second) c s) := by
  show Within bound Settled (Rule.orElse first (fun _ => second) c s)
  rcases hr : first c s with ⟨a | - | cause, c', s'⟩ <;> rw [hr] at h <;>
    simp only [Rule.orElse, hr]
  · exact h
  · exact hsecond c' s' hr
  · exact h

theorem attempt {rule : Rule ObjectId Fault α} (hb : rule.Balanced)
    (h : Within bound Settled (rule c.beginScope s)) : Within bound Settled (rule.attempt c s) := by
  refine ⟨h.1, fun a c' s' hr => ?_⟩
  obtain ⟨rest, hfound, rfl⟩ := attempt_found hb hr
  exact h.2 a (c.beginScope.seek rest) s' hfound

theorem nested {rule : Rule ObjectId Fault α} (hb : rule.Balanced) (hs : s ≤ bound)
    (h : Within bound Settled (rule c.deeper.beginScope s)) :
    Within bound Settled (rule.nested c s) := by
  constructor
  · rcases Nat.lt_or_ge c.nesting maxNesting with hlt | hge
    · rw [nested_of_lt rule s hlt]
      exact h.1
    · rw [nested_of_full rule s hge]
      exact hs
  · intro a c' s' hr
    obtain ⟨-, rest, hfound, rfl⟩ := nested_found hb hr
    exact h.2 a (c.deeper.beginScope.seek rest) s' hfound

/-- What is tried in a scope of its own leaves the place as it was, if it finds nothing. -/
theorem optional_attempt {rule : Rule ObjectId Fault α} (hb : rule.Balanced)
    (h : Within bound Settled (rule c.beginScope s)) :
    Within bound
      (fun a? rest s => (∃ a, a? = some a ∧ Settled a rest s) ∨ a? = none ∧ rest = c.rest)
      (rule.attempt.optional c s) := by
  have hattempt := h.attempt hb
  refine ⟨?_, fun a? c' s' hr => ?_⟩
  · rcases hr : rule.attempt c s with ⟨a | - | cause, c', s'⟩ <;> rw [hr] at hattempt <;>
      simpa only [Rule.optional, hr] using hattempt.1
  · rcases optional_found hr with ⟨a, rfl, hfound⟩ | ⟨rfl, hmissing⟩
    · exact .inl ⟨a, rfl, hattempt.2 a c' s' hfound⟩
    · obtain ⟨rfl, -⟩ := restores_attempt hb hmissing
      exact .inr ⟨rfl, rfl⟩

/-- What goes on with the value of an operation. -/
theorem settle_bind {outcome : Outcome Fault Yield} {next : Object → Rule ObjectId Fault β}
    (hs : s ≤ bound) (hnext : ∀ v s', s' ≤ s + 1 → Within bound Next (next v c s')) :
    Within bound Next ((do
      let yielded ← Rule.ofOutcome outcome
      next (← settle yielded) : Rule ObjectId Fault β) c s) := by
  rcases outcome with yielded | - | cause
  · exact hnext (yielded.settle s).1 (yielded.settle s).2 (settle_next_le yielded s)
  · exact missing hs
  · exact fault hs

theorem settle {outcome : Outcome Fault Yield} {Settled : Object → List Char → Nat → Prop}
    (hs : s ≤ bound) (h : ∀ v s', s' ≤ s + 1 → s' ≤ bound ∧ Settled v c.rest s') :
    Within bound Settled ((Rule.ofOutcome outcome >>= Formula.settle : GrammarRule) c s) := by
  rcases outcome with yielded | - | cause
  · obtain ⟨hbound, hsettled⟩ := h (yielded.settle s).1 _ (settle_next_le yielded s)
    exact found hbound hsettled
  · exact missing hs
  · exact fault hs

end Within

end Within

end Parley.Formula
