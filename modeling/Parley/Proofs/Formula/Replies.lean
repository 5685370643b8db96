import Parley.Proofs.Formula.History

/-!
# Replies tell results apart

A reply is never empty, and shows which result a text has: either of two marks with the whole
text behind it, or a printed value, which begins like neither of them.

- `Object.exists_code_eq_cons`: how a printed value begins.
- `Tells`: a reply that shows the result of a text.
- `tells_replyLine`, `Counted.tells_replyLine`: every reply does.
-/

namespace Parley.Formula

/-! ## Beginnings -/

/-- An integer is printed with a minus or a digit in front. -/
theorem Numeral.exists_text_eq_cons (n : Numeral) :
    ∃ ch rest, n.text = ch :: rest ∧ ch ≠ '(' := by
  rw [text]
  cases n.sign with
  | some sign => exact ⟨sign.symbol, n.digits, rfl, by cases sign <;> decide⟩
  | none =>
    obtain ⟨digit, digits, hdigits⟩ := List.exists_cons_of_ne_nil n.digits_ne_nil
    refine ⟨digit, digits, hdigits, ?_⟩
    rintro rfl
    exact absurd (n.isDigit_of_mem '(' (hdigits ▸ List.mem_cons_self)) (by decide)

/-- No printed value begins like a mark. -/
theorem Object.exists_code_eq_cons (o : Object) :
    ∃ ch rest, o.code.toList = ch :: rest ∧ ch ≠ '(' := by
  cases o with
  | null => exact ⟨'n', "ull".toList, rfl, by decide⟩
  | view => exact ⟨'a', "llobj".toList, rfl, by decide⟩
  | bare id => exact ⟨'n', "ewobj".toList, by rw [code]; rfl, by decide⟩
  | boolean value =>
    cases value with
    | true => exact ⟨'t', "rue".toList, rfl, by decide⟩
    | false => exact ⟨'f', "alse".toList, rfl, by decide⟩
  | array id items =>
    exact ⟨'[', _, toList_code_array id items, by decide⟩
  | integer id value =>
    rw [code, ← Numeral.text_ofInt64]
    exact Numeral.exists_text_eq_cons _

theorem exists_marked_eq_cons (text : String) :
    ∃ rest, (invalidMarker ++ text).toList = '(' :: 'n' :: rest := by
  have hmarker : invalidMarker.toList = '(' :: 'n' :: "ot a valid SIFOSC expression) ".toList := by
    decide
  rw [String.toList_append, hmarker, List.cons_append, List.cons_append]
  exact ⟨_, rfl⟩

theorem exists_faultNotice_eq_cons (fault : Fault) (text : String) :
    ∃ rest, (faultNotice fault text).toList = '(' :: 'S' :: rest := by
  have hmark : "(SIFOSC evaluation failed: ".toList =
      '(' :: 'S' :: "IFOSC evaluation failed: ".toList := by decide
  have hnotice : faultNotice fault text =
      "(SIFOSC evaluation failed: " ++ (fault.message ++ (") " ++ text)) := by
    unfold faultNotice
    simp only [String.append_assoc]
  refine ⟨"IFOSC evaluation failed: ".toList ++ (fault.message ++ (") " ++ text)).toList, ?_⟩
  rw [hnotice, String.toList_append, hmark, List.cons_append, List.cons_append]

theorem marked_ne_faultNotice (fault : Fault) (text : String) :
    invalidMarker ++ text ≠ faultNotice fault text := by
  intro h
  obtain ⟨rest, hrest⟩ := exists_marked_eq_cons text
  obtain ⟨rest', hrest'⟩ := exists_faultNotice_eq_cons fault text
  rw [h, hrest'] at hrest
  cases hrest

/-! ## Replies -/

/-- The reply shows which result a text has. -/
structure Tells (text : String) (result : Except Fault Object) (reply : String) : Prop where
  ne_empty : reply ≠ ""
  notAFormula : reply = invalidMarker ++ text ↔
    ∃ remaining, result = .error (.notAFormula remaining)
  divisionByZero : reply = faultNotice .divisionByZero text ↔ result = .error .divisionByZero
  printed : ∀ value, result = .ok value → reply = value.code
  unmarked : ∀ value, result = .ok value → reply.toList.head? ≠ some '('

theorem ne_empty_of_toList_eq_cons {reply : String} {ch : Char} {rest : List Char}
    (h : reply.toList = ch :: rest) : reply ≠ "" := by
  rintro rfl
  cases h

/-- What is made of any result shows it. -/
theorem tells_textOf (text : String) (result : Except Fault Object) :
    Tells text result (textOf text (replyTo text (result.map Object.code))) := by
  obtain ⟨marked, hmarked⟩ := exists_marked_eq_cons text
  obtain ⟨noticed, hnoticed⟩ := exists_faultNotice_eq_cons .divisionByZero text
  have hdistinct := marked_ne_faultNotice .divisionByZero text
  match result with
  | .error (.notAFormula remaining) =>
    exact {
      ne_empty := ne_empty_of_toList_eq_cons hmarked
      notAFormula := iff_of_true rfl ⟨remaining, rfl⟩
      divisionByZero := iff_of_false hdistinct nofun
      printed := nofun
      unmarked := nofun }
  | .error .divisionByZero =>
    exact {
      ne_empty := ne_empty_of_toList_eq_cons hnoticed
      notAFormula := iff_of_false hdistinct.symm nofun
      divisionByZero := iff_of_true rfl rfl
      printed := nofun
      unmarked := nofun }
  | .ok value =>
    obtain ⟨ch, rest, hcode, hch⟩ := value.exists_code_eq_cons
    have hplain : ∀ {reply : String} {rest' : List Char}, reply.toList = '(' :: rest' →
        value.code ≠ reply := by
      rintro reply rest' hreply rfl
      exact hch (List.cons.inj (hcode.symm.trans hreply)).1
    exact {
      ne_empty := ne_empty_of_toList_eq_cons hcode
      notAFormula := iff_of_false (hplain hmarked) nofun
      divisionByZero := iff_of_false (hplain hnoticed) nofun
      printed := by
        rintro _ ⟨⟩
        rfl
      unmarked := by
        rintro _ ⟨⟩ hhead
        change value.code.toList.head? = some '(' at hhead
        rw [hcode] at hhead
        exact hch (Option.some.inj hhead) }

/-- Every reply shows the result of its text, whatever was evaluated before. -/
theorem tells_replyLine (text : String) (next : ObjectId) :
    Tells text (parse [] text next).1 (replyLine text next).1 := by
  rw [replyLine_eq, runLine_eq]
  exact tells_textOf text _

/-- So does every reply where references are counted, whichever objects are in memory. -/
theorem Counted.tells_replyLine (text : String) (h : Heap) :
    Tells text (Counted.parse text h).1 (Counted.replyLine text h).1 := by
  rw [Counted.replyLine_eq, Counted.runLine_eq]
  exact tells_textOf text _

end Parley.Formula
