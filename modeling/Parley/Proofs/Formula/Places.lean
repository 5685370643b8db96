import Parley.Formula.Moves
import Parley.Proofs.Formula.Bytes
import Parley.Proofs.Formula.Scopes

/-!
# Places of a cursor

However a cursor is moved, its place and all places to return to lie between two characters of its
text, even if more scopes are closed than were opened, and no more levels of nesting are open than
there are. So the text can be cut at each of them: a cursor that counts bytes never has to cut
where it cannot, and answers the same.

- `Cursor.Placed`: a cursor whose places are in its text.
- `Cursor.Leads`: what one move, or many, make of a cursor.
- `perform_shows`: moves of all kinds, grammar rules included, and what is seen during them.
- `Cursor.Call`, `ByteCursor.perform?`: what can be asked of a cursor, and of one that counts bytes.
- `sound_of_calls`: the two come to the same, at positions that are valid.
-/

namespace Parley.Formula

open Rule

/-! ## Places in a text -/

namespace Cursor

/-- All places of the cursor are in its text. -/
structure Placed (c : Cursor) : Prop where
  rest_suffix : c.rest <:+ c.text
  saved_suffix : ∀ place ∈ c.saved, place <:+ c.text
  nesting_le : c.nesting ≤ maxNesting

theorem placed_ofText (text : List Char) : (ofText text).Placed where
  rest_suffix := List.suffix_refl text
  saved_suffix := List.forall_mem_nil _
  nesting_le := Nat.zero_le _

namespace Placed

variable {c c' : Cursor}

theorem of_reaches (h : c.Placed) (hreaches : c.Reaches c') : c'.Placed := by
  obtain ⟨rest, hrest, rfl⟩ := hreaches
  exact ⟨hrest.trans h.rest_suffix, h.saved_suffix, h.nesting_le⟩

theorem beginScope (h : c.Placed) : c.beginScope.Placed where
  rest_suffix := h.rest_suffix
  saved_suffix := List.forall_mem_cons.2 ⟨h.rest_suffix, h.saved_suffix⟩
  nesting_le := h.nesting_le

/-- The scope that is closed may be any that is open, or none. -/
theorem endScope (h : c.Placed) (restore : Bool) : (c.endScope restore).Placed := by
  obtain ⟨hrest, hsaved, hnesting⟩ := h
  unfold Cursor.endScope
  split
  case h_1 place outer heq =>
    obtain ⟨hplace, houter⟩ := List.forall_mem_cons.1 (heq ▸ hsaved)
    refine ⟨?_, houter, hnesting⟩
    cases restore
    · exact hrest
    · exact hplace
  case h_2 =>
    refine ⟨?_, hsaved, hnesting⟩
    cases restore
    · exact hrest
    · exact List.suffix_refl c.text

theorem deeper (h : c.Placed) (hlt : c.nesting < maxNesting) : c.deeper.Placed :=
  ⟨h.rest_suffix, h.saved_suffix, hlt⟩

theorem shallower (h : c.Placed) : c.shallower.Placed :=
  ⟨h.rest_suffix, h.saved_suffix, (Nat.sub_le _ _).trans h.nesting_le⟩

end Placed

/-- `c'` is in the text of `c`, with as many levels of nesting open, and with its places in the text
if those of `c` are. -/
structure Leads (c c' : Cursor) : Prop where
  text_eq : c'.text = c.text
  nesting_eq : c'.nesting = c.nesting
  placed : c.Placed → c'.Placed

namespace Leads

variable {c c' c'' : Cursor}

theorem of_reaches (h : c.Reaches c') : c.Leads c' where
  text_eq := h.sameScopes.text_eq
  nesting_eq := h.sameScopes.nesting_eq
  placed hc := hc.of_reaches h

theorem refl (c : Cursor) : c.Leads c :=
  of_reaches (.refl c)

theorem trans (h : c.Leads c') (h' : c'.Leads c'') : c.Leads c'' where
  text_eq := h'.text_eq.trans h.text_eq
  nesting_eq := h'.nesting_eq.trans h.nesting_eq
  placed hc := h'.placed (h.placed hc)

theorem beginScope (c : Cursor) : c.Leads c.beginScope where
  text_eq := rfl
  nesting_eq := rfl
  placed hc := hc.beginScope

theorem endScope (c : Cursor) (restore : Bool) : c.Leads (c.endScope restore) where
  text_eq := by unfold Cursor.endScope; split <;> rfl
  nesting_eq := by unfold Cursor.endScope; split <;> rfl
  placed hc := hc.endScope restore

end Leads

end Cursor

/-! ## What is seen during moves -/

mutual

/-- The answers that are seen, each with the cursor behind it, those of inner moves included. -/
def Sight.moments : Sight → List (Answer × Cursor)
  | .mk answer c none => [(answer, c)]
  | .mk answer c (some inner) => momentsOf inner ++ [(answer, c)]

def Sight.momentsOf : List Sight → List (Answer × Cursor)
  | [] => []
  | sight :: seen => sight.moments ++ momentsOf seen

end

/-- Everything is seen in this text, at cursors whose places are in it. -/
def SeenIn (text : List Char) (moments : List (Answer × Cursor)) : Prop :=
  ∀ moment ∈ moments, moment.2.text = text ∧ moment.2.Placed

theorem SeenIn.append {text : List Char} {seen more : List (Answer × Cursor)}
    (h : SeenIn text seen) (hmore : SeenIn text more) : SeenIn text (seen ++ more) :=
  List.forall_mem_append.2 ⟨h, hmore⟩

/-- Where a cursor is led, and what is seen on the way. -/
structure Cursor.Shows (c c' : Cursor) (moments : List (Answer × Cursor)) : Prop where
  leads : c.Leads c'
  seenIn : c.Placed → SeenIn c.text moments

theorem Cursor.Shows.sight {c c' : Cursor} (h : c.Leads c') (answer : Answer) :
    c.Shows c' [(answer, c')] where
  leads := h
  seenIn hc := List.forall_mem_singleton.2 ⟨h.text_eq, h.placed hc⟩

theorem Cursor.Shows.trans {c c' c'' : Cursor} {seen more : List (Answer × Cursor)}
    (h : c.Shows c' seen) (h' : c'.Shows c'' more) : c.Shows c'' (seen ++ more) where
  leads := h.leads.trans h'.leads
  seenIn hc := (h.seenIn hc).append (h.leads.text_eq ▸ h'.seenIn (h.leads.placed hc))

/-- A rule that leads cursors, adding nothing to what has been seen but what is seen in their
texts. -/
def Rule.Sees (rule : Rule (ObjectId × List Sight) Unit Unit) : Prop :=
  ∀ (c : Cursor) (next : ObjectId),
    c.Shows (rule c (next, [])).2.1 (Sight.momentsOf (rule c (next, [])).2.2.2)

namespace Rule

variable {rule : Rule (ObjectId × List Sight) Unit Unit}

theorem sees_attempt (h : rule.Sees) : rule.attempt.Sees := by
  intro c next
  obtain ⟨hleads, hseen⟩ := h c.beginScope next
  exact ⟨((Cursor.Leads.beginScope c).trans hleads).trans (.endScope _ _),
    fun hc => hseen hc.beginScope⟩

theorem sees_nested (h : rule.Sees) : rule.nested.Sees := by
  intro c next
  rcases Nat.lt_or_ge c.nesting maxNesting with hlt | hge
  · obtain ⟨⟨htext, hnesting, hplaced⟩, hseen⟩ := sees_attempt h c.deeper next
    rw [nested_of_lt rule _ hlt]
    refine ⟨⟨htext, ?_, fun hc => (hplaced (hc.deeper hlt)).shallower⟩,
      fun hc => hseen (hc.deeper hlt)⟩
    show (rule.attempt c.deeper (next, [])).2.1.nesting - 1 = c.nesting
    rw [hnesting]
    rfl
  · rw [nested_of_full rule _ hge]
    exact ⟨.refl c, fun _ => List.forall_mem_nil _⟩

theorem sees_descend (h : rule.Sees) (depth : Nat) : (descend rule depth).Sees := by
  induction depth with
  | zero => exact h
  | succ depth ih =>
    refine sees_nested fun c next => ?_
    obtain ⟨hleads, hseen⟩ := ih c.advance.2 next
    have hadvance := Cursor.Leads.of_reaches c.reaches_advance
    exact ⟨hadvance.trans hleads, fun hc => hseen (hadvance.placed hc)⟩

end Rule

theorem Cursor.Shows.sightOfRule {rule : Rule (ObjectId × List Sight) Unit Unit} (h : rule.Sees)
    (c : Cursor) (next : ObjectId) :
    c.Shows (sightOfRule rule c next).2.1 (sightOfRule rule c next).1.moments :=
  ⟨(h c next).leads, fun hc => ((h c next).seenIn hc).append <|
    List.forall_mem_singleton.2 ⟨(h c next).leads.text_eq, (h c next).leads.placed hc⟩⟩

theorem Cursor.Shows.sightOfGrammar {rule : GrammarRule} (h : rule.Balanced) (c : Cursor)
    (next : ObjectId) :
    c.Shows (sightOfGrammar rule c next).2.1 (sightOfGrammar rule c next).1.moments :=
  .sight (.of_reaches (h c next).1) _

mutual

/-- No move leaves the text, grammar rules included. -/
theorem perform_shows (move : Move) (c : Cursor) (next : ObjectId) :
    c.Shows (perform move c next).2.1 (perform move c next).1.moments := by
  cases move with
  | beginScope => exact .sight (.beginScope c) _
  | endScope restore => exact .sight (.endScope c restore) _
  | skipSpaces => exact .sight (.of_reaches c.reaches_skipSpaces) _
  | peek | remaining | text | isIdentChar => exact .sight (.refl c) _
  | advance => exact .sight (.of_reaches c.reaches_advance) _
  | advanceIf ch => exact .sight (.of_reaches (c.reaches_advanceIf ch)) _
  | advanceIfText pattern => exact .sight (.of_reaches (c.reaches_advanceIfText _)) _
  | keyword word => exact .sight (.of_reaches (c.reaches_keyword _)) _
  | sign => exact .sight (.of_reaches c.reaches_sign) _
  | integer => exact .sight (.of_reaches c.reaches_integer) _
  | statement => exact .sightOfGrammar (statement_balanced []) c next
  | expression => exact .sightOfGrammar (expression_balanced []) c next
  | literal => exact .sightOfGrammar (literal_balanced []) c next
  | attempt moves verdict =>
    exact .sightOfRule (sees_attempt fun c next => performAll_shows moves c next) c next
  | nested moves verdict =>
    exact .sightOfRule (sees_nested fun c next => performAll_shows moves c next) c next
  | chain depth moves verdict =>
    exact .sightOfRule (sees_descend (fun c next => performAll_shows moves c next) _) c next

theorem performAll_shows (moves : List Move) (c : Cursor) (next : ObjectId) :
    c.Shows (performAll moves c next).2.1 (Sight.momentsOf (performAll moves c next).1) := by
  cases moves with
  | nil => exact ⟨.refl c, fun _ => List.forall_mem_nil _⟩
  | cons move moves => exact (perform_shows move c next).trans (performAll_shows moves _ _)

end

/-! ## The same moves by numbers of bytes -/

/-- What can be asked of a cursor: its own operations, those of the readers of words, and to make
calls inside a scope of their own. Whatever a rule does that looks at answers before it goes on, and
decides from them what it comes to, on a given text it makes some list of calls and comes to some
verdict. The position, whether it is the end, and how many scopes are open are seen in the cursor
behind each answer. -/
inductive Cursor.Call where
  | beginScope
  | endScope (restore : Bool)
  | skipSpaces
  | peek
  | advance
  | advanceIf (ch : Char)
  | advanceIfText (pattern : String)
  | remaining
  | text
  | keyword (word : String)
  | sign
  | integer
  | attempt (calls : List Call) (verdict : Verdict)
  | nested (calls : List Call) (verdict : Verdict)

mutual

/-- A call as a move. -/
def Cursor.Call.move : Cursor.Call → Move
  | .beginScope => .beginScope
  | .endScope restore => .endScope restore
  | .skipSpaces => .skipSpaces
  | .peek => .peek
  | .advance => .advance
  | .advanceIf ch => .advanceIf ch
  | .advanceIfText pattern => .advanceIfText pattern
  | .remaining => .remaining
  | .text => .text
  | .keyword word => .keyword word
  | .sign => .sign
  | .integer => .integer
  | .attempt calls verdict => .attempt (moves calls) verdict
  | .nested calls verdict => .nested (moves calls) verdict

def Cursor.Call.moves : List Cursor.Call → List Move
  | [] => []
  | call :: calls => call.move :: moves calls

end

namespace ByteCursor

/-- The answers so far, each with the cursor behind it. -/
abbrev Trail := List (Answer × ByteCursor)

def note (answer : Answer) (c : ByteCursor) (trail : Trail) : ByteCursor × Trail :=
  (c, trail ++ [(answer, c)])

/-- Calls as a rule; the state keeps the answers. -/
def callsRule (calls : ByteCursor → Trail → Option (ByteCursor × Trail)) (verdict : Verdict) :
    ByteRule Trail Unit Unit :=
  fun c trail => (calls c trail).map fun (c, trail) => (verdict.toOutcome, c, trail)

/-- What a rule comes to, as an answer. -/
def noteRule (rule : ByteRule Trail Unit Unit) (c : ByteCursor) (trail : Trail) :
    Option (ByteCursor × Trail) :=
  (rule c trail).map fun (outcome, c, trail) => note (.verdict (.ofOutcome outcome)) c trail

mutual

/-- Answers one call, if the text can be cut wherever that takes it. -/
def perform? : Cursor.Call → ByteCursor → Trail → Option (ByteCursor × Trail)
  | .beginScope, c, trail => some (note .nothing c.beginScope trail)
  | .endScope restore, c, trail => some (note .nothing (c.endScope restore) trail)
  | .skipSpaces, c, trail => c.skipSpaces?.map fun c => note .nothing c trail
  | .peek, c, trail => c.peek?.map fun ch? => note (.char ch?) c trail
  | .advance, c, trail => c.advance?.map fun (ch?, c) => note (.char ch?) c trail
  | .advanceIf ch, c, trail =>
    (c.advanceIf? ch).map fun (present, c) => note (.flag present) c trail
  | .advanceIfText pattern, c, trail =>
    (c.advanceIfText? pattern.toList).map fun (present, c) => note (.flag present) c trail
  | .remaining, c, trail => c.remaining?.map fun rest => note (.chars rest) c trail
  | .text, c, trail => some (note (.chars c.text) c trail)
  | .keyword word, c, trail =>
    (c.keyword? word.toList).map fun (present, c) => note (.flag present) c trail
  | .sign, c, trail => c.sign?.map fun (sign, c) => note (.sign sign) c trail
  | .integer, c, trail => c.integer?.map fun (value, c) => note (.integer value) c trail
  | .attempt calls verdict, c, trail =>
    noteRule (.attempt (callsRule (fun c trail => performAll? calls c trail) verdict)) c trail
  | .nested calls verdict, c, trail =>
    noteRule (.nested (callsRule (fun c trail => performAll? calls c trail) verdict)) c trail

/-- Answers calls one after the other. -/
def performAll? : List Cursor.Call → ByteCursor → Trail → Option (ByteCursor × Trail)
  | [], c, trail => some (c, trail)
  | call :: calls, c, trail =>
    (perform? call c trail).bind fun (c, trail) => performAll? calls c trail

end

end ByteCursor

/-- What is seen, in numbers of bytes. -/
def trailOf (moments : List (Answer × Cursor)) : ByteCursor.Trail :=
  moments.map fun (answer, c) => (answer, c.bytes)

@[simp] theorem trailOf_append (seen more : List (Answer × Cursor)) :
    trailOf (seen ++ more) = trailOf seen ++ trailOf more :=
  List.map_append

namespace ByteCursor

open Cursor (Call)

theorem callsRule_bytes {moves : Cursor → ObjectId → List Sight × Cursor × ObjectId}
    {calls : ByteCursor → Trail → Option (ByteCursor × Trail)} {c : Cursor} {next : ObjectId}
    {trail : Trail}
    (h : calls c.bytes trail = some ((moves c next).2.1.bytes,
      trail ++ trailOf (Sight.momentsOf (moves c next).1))) (verdict : Verdict) :
    callsRule calls verdict c.bytes trail = some ((movesRule moves verdict c (next, [])).1,
      (movesRule moves verdict c (next, [])).2.1.bytes,
      trail ++ trailOf (Sight.momentsOf (moves c next).1)) := by
  rw [callsRule, h]
  rfl

/-- The answer of a rule is seen behind what was seen during the rule. -/
theorem noteRule_bytes {rule : Rule (ObjectId × List Sight) Unit Unit}
    {rule? : ByteRule Trail Unit Unit} {c : Cursor} {next : ObjectId} {trail : Trail}
    (h : rule? c.bytes trail = some ((rule c (next, [])).1, (rule c (next, [])).2.1.bytes,
      trail ++ trailOf (Sight.momentsOf (rule c (next, [])).2.2.2))) :
    noteRule rule? c.bytes trail =
      some ((sightOfRule rule c next).2.1.bytes,
        trail ++ trailOf (sightOfRule rule c next).1.moments) := by
  have hmoments : trailOf (sightOfRule rule c next).1.moments =
      trailOf (Sight.momentsOf (rule c (next, [])).2.2.2) ++
        [(.verdict (.ofOutcome (rule c (next, [])).1), (rule c (next, [])).2.1.bytes)] :=
    trailOf_append _ _
  rw [noteRule, h, hmoments, ← List.append_assoc]
  rfl

mutual

theorem perform?_bytes (call : Call) {c : Cursor} (next : ObjectId) (trail : Trail)
    (h : c.Placed) :
    perform? call c.bytes trail =
      some ((perform call.move c next).2.1.bytes,
        trail ++ trailOf (perform call.move c next).1.moments) := by
  have hrest := h.rest_suffix
  cases call with
  | beginScope | text => rfl
  | endScope restore =>
    rw [perform?, ← Cursor.bytes_endScope]
    rfl
  | skipSpaces => rw [perform?, skipSpaces?_bytes hrest]; rfl
  | peek => rw [perform?, peek?_bytes hrest]; rfl
  | advance => rw [perform?, advance?_bytes hrest]; rfl
  | advanceIf ch => rw [perform?, advanceIf?_bytes hrest]; rfl
  | advanceIfText pattern => rw [perform?, advanceIfText?_bytes hrest]; rfl
  | remaining => rw [perform?, remaining?_bytes hrest]; rfl
  | keyword word => rw [perform?, keyword?_bytes hrest]; rfl
  | sign => rw [perform?, sign?_bytes hrest]; rfl
  | integer => rw [perform?, integer?_bytes hrest]; rfl
  | attempt calls verdict =>
    have hrule := callsRule_bytes (performAll?_bytes calls next trail h.beginScope) verdict
    exact noteRule_bytes (ByteRule.attempt_bytes hrule)
  | nested calls verdict =>
    refine noteRule_bytes ?_
    rcases Nat.lt_or_ge c.nesting maxNesting with hlt | hge
    · have hrule :=
        callsRule_bytes (performAll?_bytes calls next trail (h.deeper hlt).beginScope) verdict
      -- the calls inside leave the level of nesting open that is closed behind them
      have hsees : (movesRule (performAll (Call.moves calls)) verdict).Sees :=
        performAll_shows (Call.moves calls)
      have hkeeps := (sees_attempt hsees c.deeper next).leads.nesting_eq
      rw [ByteRule.nested_bytes hlt hkeeps hrule, nested_of_lt _ _ hlt]
      rfl
    · rw [ByteRule.nested_bytes_of_full hge, nested_of_full _ _ hge]
      show some (Outcome.missing, c.bytes, trail) = some (Outcome.missing, c.bytes, trail ++ [])
      rw [List.append_nil]

theorem performAll?_bytes (calls : List Call) {c : Cursor} (next : ObjectId) (trail : Trail)
    (h : c.Placed) :
    performAll? calls c.bytes trail =
      some ((performAll (Call.moves calls) c next).2.1.bytes,
        trail ++ trailOf (Sight.momentsOf (performAll (Call.moves calls) c next).1)) := by
  cases calls with
  | nil => exact congrArg (fun seen => some (c.bytes, seen)) (List.append_nil trail).symm
  | cons call calls =>
    have hplaced := (perform_shows call.move c next).leads.placed h
    rw [performAll?, perform?_bytes call next trail h, Option.bind_some]
    show performAll? calls _ _ = _
    rw [performAll?_bytes calls (perform call.move c next).2.2 _ hplaced, List.append_assoc,
      ← trailOf_append]
    rfl

end

/-- The position and all saved ones are in the text and between two of its characters, and no more
levels of nesting are open than there are. -/
structure Sound (text : List Char) (c : ByteCursor) : Prop where
  text_eq : c.text = text
  le_byteLength : ∀ position ∈ c.position :: c.saved, position ≤ byteLength text
  isValid : ∀ position ∈ c.position :: c.saved,
    (String.Pos.Raw.mk position).IsValid (String.ofList text)
  nesting_le : c.nesting ≤ maxNesting

end ByteCursor

theorem Cursor.Placed.sound {c : Cursor} {text : List Char} (h : c.Placed) (htext : c.text = text) :
    c.bytes.Sound text := by
  subst htext
  -- each position is the number of bytes before a rest of the text
  have hplace : ∀ position ∈ c.bytes.position :: c.bytes.saved,
      ∃ before rest, c.text = before ++ rest ∧ byteLength before = position := by
    have hcut : ∀ place, place <:+ c.text → ∃ before rest, c.text = before ++ rest ∧
        byteLength before = byteLength c.text - byteLength place := by
      rintro place ⟨before, hbefore⟩
      refine ⟨before, place, hbefore.symm, ?_⟩
      rw [← hbefore, byteLength_append]
      omega
    refine List.forall_mem_cons.2 ⟨hcut c.rest h.rest_suffix, List.forall_mem_map.2 ?_⟩
    exact fun place hplace => hcut place (h.saved_suffix place hplace)
  refine ⟨rfl, fun position hposition => ?_, fun position hposition => ?_, h.nesting_le⟩
  · obtain ⟨before, rest, htext, rfl⟩ := hplace position hposition
    rw [htext, byteLength_append]
    exact Nat.le_add_right _ _
  · exact isValid_iff_exists_append.2 (hplace position hposition)

/-- In every text, whatever is asked of a cursor, in whatever order, and inside whatever rules: one
that counts bytes can cut the text wherever that takes it, answers the same, and is at the same
places. All its positions are valid at all times, at most as many levels of nesting are open as
there are, and in the end none is. -/
theorem sound_of_calls (text : List Char) (calls : List Cursor.Call) (next : ObjectId) :
    let (seen, c, _) := performAll (Cursor.Call.moves calls) (.ofText text) next
    ByteCursor.performAll? calls (.ofText text) [] =
        some (c.bytes, trailOf (Sight.momentsOf seen)) ∧
      (∀ moment ∈ Sight.momentsOf seen, moment.2.bytes.Sound text) ∧
      c.bytes.Sound text ∧ c.nesting = 0 := by
  have hplaced := Cursor.placed_ofText text
  obtain ⟨hleads, hseen⟩ := performAll_shows (Cursor.Call.moves calls) (.ofText text) next
  refine ⟨?_, fun moment hmoment => ?_, (hleads.placed hplaced).sound hleads.text_eq,
    hleads.nesting_eq⟩
  · rw [← Cursor.bytes_ofText]
    exact ByteCursor.performAll?_bytes calls next [] hplaced
  · obtain ⟨htext, hmoment⟩ := hseen hplaced moment hmoment
    exact hmoment.sound htext

/-- A rule that closes scopes which it has not opened goes back to the beginning of the text, and
the scope that is closed behind it is one of its own. -/
theorem sound_of_calls_unbalanced :
    let text := "名=-7é".toList
    let calls : List Cursor.Call := [.advance, .nested [.endScope true, .endScope true,
      .advanceIfText "名=", .integer, .beginScope, .advance] .missing, .peek]
    ∃ trail, ByteCursor.performAll? calls (.ofText text) [] = some (⟨text, 6, [], 0⟩, trail) ∧
      trail.length = 9 ∧
      ∃ moment ∈ trail, moment.2.position = 0 ∧ moment.2.nesting = 1 ∧ moment.2.Sound text := by
  intro text calls
  obtain ⟨hrun, hseen, -⟩ := sound_of_calls text calls 4
  have hmoment : (Answer.nothing, (⟨text, text, [], 1⟩ : Cursor)) ∈
      Sight.momentsOf (performAll (Cursor.Call.moves calls) (.ofText text) 4).1 :=
    .tail _ (.tail _ (.head _))
  exact ⟨_, hrun, rfl, _, List.mem_map_of_mem hmoment, rfl, rfl, hseen _ hmoment⟩

end Parley.Formula
