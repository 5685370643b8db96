import Parley.Proofs.Formula.Places

/-!
# The budget of nested rules

Nested rules may call one another until `maxNesting` of them are open. A chain of them comes to its
innermost rule exactly if so many levels are left as the chain has, and is as good as not tried
otherwise. However a chain ends, every level that it took is given back.

- `Rule.KeepsNesting`: rules that leave as many levels open as there were.
- `Rule.chained`: rules nested directly in one another.
- `Rule.Stage`: a rule of a chain that moves forward before it calls the next one.
- `Rule.noted`: a rule that tells where it was run.
- `budget_of_chains`: when the innermost rule is run, and what is left afterwards.
-/

namespace Parley.Formula

namespace Rule

variable {σ ε α : Type} {rule : Rule σ ε α} {c : Cursor} {s : σ}

/-! ## Rules that give back what they took -/

/-- As many levels of nesting are open after the rule as before it. -/
def KeepsNesting (rule : Rule σ ε α) : Prop :=
  ∀ c s, (rule c s).2.1.nesting = c.nesting

/-- No moves are left with more levels open or fewer, even if they close scopes that they have not
opened. -/
theorem keepsNesting_movesRule (moves : List Move) (verdict : Verdict) :
    (movesRule (performAll moves) verdict).KeepsNesting :=
  fun c s => (performAll_shows moves c s.1).leads.nesting_eq

theorem keepsNesting_attempt (h : rule.KeepsNesting) : rule.attempt.KeepsNesting := by
  intro c s
  have hclosed := (Cursor.Leads.endScope (rule c.beginScope s).2.1
    (!(rule c.beginScope s).1.isFound)).nesting_eq
  exact hclosed.trans (h c.beginScope s)

theorem keepsNesting_nested (h : rule.KeepsNesting) : rule.nested.KeepsNesting := by
  intro c s
  show (rule.nested c s).2.1.nesting = c.nesting
  unfold nested
  split
  case isTrue =>
    show (rule.attempt c.deeper s).2.1.nesting - 1 = c.nesting
    rw [keepsNesting_attempt h]
    rfl
  case isFalse => rfl

/-! ## Chains -/

/-- Nested rules of which each is given the next one to call, down to an innermost rule. -/
def chained (levels : List (Rule σ ε α → Rule σ ε α)) (rule : Rule σ ε α) : Rule σ ε α :=
  levels.foldr (fun level inner => .nested (level inner)) rule

/-- What is made of the next rule of a chain gives back what it took if that rule does. -/
def Preserving (level : Rule σ ε α → Rule σ ε α) : Prop :=
  ∀ inner : Rule σ ε α, inner.KeepsNesting → (level inner).KeepsNesting

theorem keepsNesting_chained {levels : List (Rule σ ε α → Rule σ ε α)}
    (hlevels : ∀ level ∈ levels, Preserving level) (h : rule.KeepsNesting) :
    (chained levels rule).KeepsNesting := by
  induction levels with
  | nil => exact h
  | cons level levels ih =>
    obtain ⟨hlevel, hlevels⟩ := List.forall_mem_cons.1 hlevels
    exact keepsNesting_nested (hlevel _ (ih hlevels))

/-- A rule of a chain that calls the next one once. -/
structure Stage (ε α : Type) where
  /-- Where it moves before. -/
  advance : Cursor → Cursor
  reaches : ∀ c : Cursor, c.Reaches (advance c)
  /-- What it comes to, by what the next one comes to. -/
  answer : Outcome ε α → Outcome ε α

/-- What a stage makes of the next rule. -/
def Stage.level (stage : Stage ε α) (inner : Rule σ ε α) : Rule σ ε α := fun c s =>
  match inner (stage.advance c) s with
  | (outcome, c, s) => (stage.answer outcome, c, s)

/-- A chain of stages. -/
def stages (chain : List (Stage ε α)) (rule : Rule σ ε α) : Rule σ ε α :=
  chained (chain.map Stage.level) rule

theorem Stage.preserving (stage : Stage ε α) :
    Preserving (stage.level : Rule σ ε α → Rule σ ε α) :=
  fun _ h c s => (h _ s).trans (stage.reaches c).sameScopes.nesting_eq

/-- Takes one character, whatever it is, and passes on what the next rule comes to. -/
def Stage.oneCharacter : Stage ε α where
  advance c := c.advance.2
  reaches := Cursor.reaches_advance
  answer := id

theorem descend_eq_stages (rule : Rule σ ε α) (depth : Nat) :
    descend rule depth = stages (List.replicate depth .oneCharacter) rule := by
  induction depth with
  | zero => rfl
  | succ depth ih =>
    rw [descend, ih]
    rfl

/-! ## Where the innermost rule is run -/

/-- The rule, which also notes each cursor that it is run at. -/
def noted (rule : Rule σ ε α) : Rule (σ × List Cursor) ε α := fun c (s, runs) =>
  match rule c s with
  | (outcome, c', s) => (outcome, c', s, c :: runs)

end Rule

/-- The cursor inside all stages of a chain. -/
def Cursor.inside {ε α : Type} (c : Cursor) (chain : List (Rule.Stage ε α)) : Cursor :=
  chain.foldl (fun c stage => stage.advance c.deeper.beginScope) c

namespace Rule

variable {σ ε α : Type} {rule : Rule σ ε α} {c : Cursor} {s : σ}

theorem stages_cons (stage : Stage ε α) (chain : List (Stage ε α)) (rule : Rule σ ε α) :
    stages (stage :: chain) rule = .nested (stage.level (stages chain rule)) :=
  rfl

/-- One level more is open where a stage calls the next rule. -/
theorem Stage.nesting_advance (stage : Stage ε α) (c : Cursor) :
    (stage.advance c.deeper.beginScope).nesting = c.nesting + 1 :=
  (stage.reaches c.deeper.beginScope).sameScopes.nesting_eq

theorem Stage.nested_of_lt (stage : Stage ε α) (inner : Rule σ ε α) (s : σ)
    (h : c.nesting < maxNesting) :
    (Rule.nested (stage.level inner)) c s =
      (let (outcome, c', s') := inner (stage.advance c.deeper.beginScope) s
       (stage.answer outcome, (c'.endScope (!(stage.answer outcome).isFound)).shallower, s')) :=
  Rule.nested_of_lt (stage.level inner) s h

/-- The innermost rule is run once, inside all stages, if there are levels enough for them. If not,
it is not run. Nothing depends on its being noted. -/
theorem stages_noted (chain : List (Stage ε α)) (hc : chain = [] → c.nesting ≤ maxNesting)
    (runs : List Cursor) :
    stages chain rule.noted c (s, runs) =
      (let (outcome, c', s') := stages chain rule c s
       (outcome, c', s',
        if c.nesting + chain.length ≤ maxNesting then c.inside chain :: runs else runs)) := by
  induction chain generalizing c s with
  | nil =>
    have hroom : c.nesting + ([] : List (Stage ε α)).length ≤ maxNesting := hc rfl
    rw [if_pos hroom]
    rfl
  | cons stage chain ih =>
    rw [stages_cons, stages_cons, List.length_cons]
    rcases Nat.lt_or_ge c.nesting maxNesting with hlt | hge
    · have hinner := stage.nesting_advance c
      rw [stage.nested_of_lt _ _ hlt, stage.nested_of_lt _ _ hlt, ih fun _ => hinner ▸ hlt,
        hinner, Nat.add_assoc, Nat.add_comm 1]
      rfl
    · rw [nested_of_full _ _ hge, nested_of_full _ _ hge, if_neg (by omega)]

/-- A chain with too few levels for it finds nothing and changes nothing, if what is not found is
passed on. -/
theorem stages_of_full (chain : List (Stage ε α)) (hc : chain = [] → c.nesting ≤ maxNesting)
    (hfull : maxNesting < c.nesting + chain.length) (hanswer : ∀ stage ∈ chain, stage.answer = id) :
    stages chain rule c s = (.missing, c, s) := by
  induction chain generalizing c with
  | nil => exact absurd hfull (Nat.not_lt.2 (hc rfl))
  | cons stage chain ih =>
    obtain ⟨hstage, hchain⟩ := List.forall_mem_cons.1 hanswer
    rw [stages_cons]
    rcases Nat.lt_or_ge c.nesting maxNesting with hlt | hge
    · have hinner := stage.nesting_advance c
      have hrest : maxNesting < c.nesting + 1 + chain.length := by
        rw [List.length_cons] at hfull
        omega
      rw [stage.nested_of_lt _ _ hlt, ih (fun _ => hinner ▸ hlt) (hinner ▸ hrest) hchain,
        hstage]
      -- the scope goes back over what the stage has read
      show (Outcome.missing, ((stage.advance c.deeper.beginScope).endScope true).shallower, s) = _
      rw [(stage.reaches c.deeper.beginScope).endScope_true]
      rfl
    · exact nested_of_full _ _ hge

end Rule

open Rule

/-- A chain of one stage or more runs its innermost rule, once, exactly if the levels of nesting
that are left suffice for it. If they do not, and every stage passes on what the next comes to, the
chain finds nothing and leaves everything as it was. Whatever the rules of a chain do around the
calls, and whatever each comes to, as many levels are open afterwards as before, so that all that
were left are there for the next chain. -/
theorem budget_of_chains {σ ε α : Type} (rule : Rule σ ε α) (c : Cursor) (s : σ) :
    (∀ chain : List (Stage ε α), chain ≠ [] →
      stages chain rule.noted c (s, []) =
        (let (outcome, c', s') := stages chain rule c s
         (outcome, c', s',
          if c.nesting + chain.length ≤ maxNesting then [c.inside chain] else [])) ∧
      (maxNesting < c.nesting + chain.length → (∀ stage ∈ chain, stage.answer = id) →
        stages chain rule c s = (.missing, c, s))) ∧
    (rule.KeepsNesting →
      ∀ levels : List (Rule σ ε α → Rule σ ε α), (∀ level ∈ levels, Preserving level) →
        let c' := (chained levels rule c s).2.1
        c'.nesting = c.nesting ∧
        ∀ (later : List (Stage ε α)) (rule' : Rule σ ε α) (s' : σ), later ≠ [] →
          (stages later rule'.noted c' (s', [])).2.2.2 =
            if c.nesting + later.length ≤ maxNesting then [c'.inside later] else []) := by
  constructor
  · intro chain hchain
    have hc : chain = [] → c.nesting ≤ maxNesting := fun hnil => absurd hnil hchain
    exact ⟨stages_noted chain hc [], stages_of_full chain hc⟩
  · intro hrule levels hlevels c'
    have hkeeps : c'.nesting = c.nesting := keepsNesting_chained hlevels hrule c s
    refine ⟨hkeeps, fun later rule' s' hlater => ?_⟩
    have hc' : later = [] → c'.nesting ≤ maxNesting := fun hnil => absurd hnil hlater
    rw [stages_noted later hc' [], hkeeps]

/-- With two levels left, a rule is run inside two stages and not inside three, even if it closes
scopes that are not its own and ends with a fault. Then two levels are left again, and two stages
more come to their innermost rule. -/
theorem budget_of_chains_two_left :
    let c : Cursor := { Cursor.ofText "((((1/0".toList with nesting := 126 }
    let rule := movesRule (performAll [.endScope true, .statement]) .fault
    let two : List (Stage Unit Unit) := List.replicate 2 .oneCharacter
    let three : List (Stage Unit Unit) := List.replicate 3 .oneCharacter
    let c' := (descend rule 2 c (4, [])).2.1
    rule.KeepsNesting ∧ two ≠ [] ∧ three ≠ [] ∧ maxNesting < c.nesting + three.length ∧
      (∀ stage ∈ three, stage.answer = id) ∧ (∀ level ∈ two.map Stage.level,
        Preserving (level : Rule (ObjectId × List Sight) Unit Unit → _)) ∧
      (descend rule.noted 2 c ((4, []), [])).2.2.2 = [c.inside two] ∧
      descend rule 3 c (4, []) = (.missing, c, (4, [])) ∧ c'.nesting = 126 ∧
      (descend rule.noted 2 c' ((4, []), [])).2.2.2 = [c'.inside two] := by
  intro c rule two three c'
  have hrule : rule.KeepsNesting := keepsNesting_movesRule _ _
  have htwo : two ≠ [] := List.cons_ne_nil _ _
  have hthree : three ≠ [] := List.cons_ne_nil _ _
  have hanswer : ∀ stage ∈ three, stage.answer = id := fun stage hstage => by
    rw [List.eq_of_mem_replicate hstage]
    rfl
  have hlevels : ∀ level ∈ two.map Stage.level,
      Preserving (level : Rule (ObjectId × List Sight) Unit Unit → _) :=
    List.forall_mem_map.2 fun stage _ => stage.preserving
  obtain ⟨hchain, hkeeps⟩ := budget_of_chains rule c (4, [])
  have hroom : c.nesting + two.length ≤ maxNesting := by decide
  have hc' : (chained (two.map Stage.level) rule c (4, [])).2.1 = c' :=
    congrArg (fun chain => (chain c (4, [])).2.1) (descend_eq_stages rule 2).symm
  have hagain := hkeeps hrule _ hlevels
  -- where the first chain leaves the cursor does not matter
  simp only [hc'] at hagain
  clear_value c'
  refine ⟨hrule, htwo, hthree, by decide, hanswer, hlevels, ?_, ?_, hagain.1, ?_⟩
  · rw [descend_eq_stages, (hchain two htwo).1]
    rfl
  · rw [descend_eq_stages]
    exact (hchain three hthree).2 (by decide) hanswer
  · rw [descend_eq_stages]
    exact (hagain.2 two rule (4, []) htwo).trans (if_pos hroom)

end Parley.Formula
