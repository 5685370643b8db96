import Parley.Console.Calculator
import Parley.Proofs.Console.Splitting
import Parley.Proofs.Formula.History

/-!
# What the calculator prints

The calculator prints one line for each line of its input that is not blank, up to the one that
asks to quit: what that line is answered with when it is the first one. Nothing behind that one
is evaluated.

- `Object.lineFeed_notMem_code`: a value is printed on one line.
- `Typed.ofLines_encode`, `Typed.ofLines_append`: the lines up to the one that asks to quit.
- `Calculator.answer`: what is printed for a line on its own.
- `Calculator.replies_eq`: earlier lines make no difference to those without a point.
- `Calculator.run_encode`: all that is printed.
-/

namespace Parley.Formula

theorem forall_mem_intercalate {p : Char → Prop} {between : List Char} {words : List (List Char)}
    (hbetween : ∀ ch ∈ between, p ch) (hwords : ∀ word ∈ words, ∀ ch ∈ word, p ch) :
    ∀ ch ∈ between.intercalate words, p ch := by
  induction words with
  | nil => exact List.forall_mem_nil _
  | cons word words ih =>
    obtain ⟨hfirst, hrest⟩ := List.forall_mem_cons.1 hwords
    cases words with
    | nil =>
      rw [List.intercalate_singleton]
      exact hfirst
    | cons next words =>
      rw [List.intercalate_cons_cons]
      exact List.forall_mem_append.2 ⟨List.forall_mem_append.2 ⟨hfirst, hbetween⟩, ih hrest⟩

/-- A value is printed on one line. -/
theorem Object.lineFeed_notMem_code (o : Object) : ∀ ch ∈ o.code.toList, ch ≠ '\n' := by
  induction o using Object.induction with
  | null | view | bare id => simp [code]
  | boolean value => cases value <;> simp [code, boolWord]
  | integer id value =>
    rintro ch hch rfl
    rw [code, ← Numeral.text_ofInt64] at hch
    obtain hdigit | ⟨sign, hsign⟩ := Numeral.of_mem_text hch
    · exact absurd hdigit (by decide)
    · cases sign <;> cases hsign
  | array id items ih =>
    have hitems : ∀ word ∈ (present items).map fun o => o.code.toList, ∀ ch ∈ word, ch ≠ '\n' :=
      List.forall_mem_map.2 fun o ho => ih o (mem_present.1 ho)
    rw [toList_code_array, List.forall_mem_append, List.forall_mem_cons]
    exact ⟨⟨by simp, forall_mem_intercalate (by simp) hitems⟩, by simp⟩

end Parley.Formula

namespace Parley.Console

open Wire (Bytes)
open Text.Utf8
open Formula (Fault Object invalidMarker)

/-! ## Input -/

namespace Typed

theorem ofLines_cons (line : String) (rest : List Bytes) :
    ofLines (encode line :: rest) =
      if asksToQuit line then ⟨[], .ok ()⟩
      else ⟨line :: (ofLines rest).lines, (ofLines rest).ending⟩ := by
  rw [ofLines, decodeLine, decode_encode]

/-- From the bytes of lines those are read that come before the first one that asks to quit. -/
theorem ofLines_encode (lines : List String) :
    ofLines (lines.map encode) = ⟨lines.takeWhile fun line => !asksToQuit line, .ok ()⟩ := by
  induction lines with
  | nil => rfl
  | cons line lines ih =>
    rw [List.map_cons, ofLines_cons, ih]
    cases hquit : asksToQuit line <;> simp [hquit]

/-- What stands behind a line that asks to quit is not read. -/
theorem ofLines_append {lines : List String} (h : lines.any asksToQuit = true)
    (rest : List Bytes) : ofLines (lines.map encode ++ rest) = ofLines (lines.map encode) := by
  induction lines with
  | nil => cases h
  | cons line lines ih =>
    rw [List.map_cons, List.cons_append, ofLines_cons, ofLines_cons]
    split
    case isTrue => rfl
    case isFalse hquit =>
      rw [List.any_cons, Bool.eq_false_iff.2 hquit, Bool.false_or] at h
      rw [ih h]

theorem ofBytes_encode (text : String) :
    ofBytes (encode text) = ⟨(linesOf text).takeWhile fun line => !asksToQuit line, .ok ()⟩ := by
  rw [ofBytes, splitLines_encode, ofLines_encode]

end Typed

/-! ## Output -/

theorem encode_append (text more : String) :
    encode (text ++ more) = encode text ++ encode more := by
  rw [encode, String.toList_append, List.flatMap_append]
  rfl

/-- Where there is room for everything, every line is printed. -/
theorem Output.printLines_of_room (lines : List String) {o : Output} (h : o.room = none) :
    o.printLines lines = (.ok (),
      { o with written := o.written ++ encode (String.join (lines.map (· ++ "\n"))) }) := by
  induction lines generalizing o with
  | nil => simp [printLines, encode]
  | cons line lines ih =>
    obtain ⟨written, room⟩ := o
    obtain rfl : room = none := h
    have hprint : (⟨written, none⟩ : Output).printLine line =
        (.ok (), ⟨written ++ encode line ++ [0x0a], none⟩) := rfl
    have hend : encode "\n" = [0x0a] := rfl
    rw [printLines, hprint]
    dsimp only
    rw [ih rfl, List.map_cons, String.join_cons, encode_append, encode_append, hend]
    simp only [List.append_assoc]

theorem count_lineFeed_flatMap (chars : List Char) :
    (chars.flatMap String.utf8EncodeChar).count lineFeed = chars.count '\n' := by
  induction chars with
  | nil => rfl
  | cons c chars ih =>
    rw [List.flatMap_cons, List.count_append, ih, List.count_cons, Nat.add_comm]
    refine congrArg _ ?_
    by_cases hc : c = '\n'
    · subst hc
      rfl
    · rw [if_neg (by simpa using hc)]
      refine List.count_eq_zero.2 fun hmem => hc ?_
      exact eq_of_mem_utf8EncodeChar (d := '\n') hmem rfl (by decide)

/-- Lines that hold no line feed are as many as the line feeds that they are printed with. -/
theorem count_lineFeed_join {lines : List String}
    (h : ∀ line ∈ lines, ∀ ch ∈ line.toList, ch ≠ '\n') :
    (encode (String.join (lines.map (· ++ "\n")))).count lineFeed = lines.length := by
  rw [encode, count_lineFeed_flatMap]
  induction lines with
  | nil => rfl
  | cons line lines ih =>
    obtain ⟨hline, hlines⟩ := List.forall_mem_cons.1 h
    have hnone : line.toList.count '\n' = 0 :=
      List.count_eq_zero.2 fun hmem => hline '\n' hmem rfl
    rw [List.map_cons, String.join_cons, String.toList_append, String.toList_append,
      List.count_append, List.count_append, hnone, ih hlines, List.length_cons]
    show 0 + 1 + lines.length = lines.length + 1
    omega

/-! ## Evaluation -/

namespace Calculator

/-- What is printed for a line that is evaluated on its own, before any other. -/
def answer (line : String) : String :=
  match (Formula.parse [] line Object.firstFreshId).1 with
  | .ok value => value.code
  | .error (.notAFormula _) => invalidMarker ++ line
  | .error .divisionByZero => "error: division by zero"

/-- What is printed when a line was evaluated. -/
def printed : Except Formula.Fault String → String
  | .ok reply => reply
  | .error fault => "error: " ++ fault.message

theorem fst_reply (line : String) (next : Formula.ObjectId) :
    (reply line next).1 = printed (Formula.runLine line next).1 := by
  unfold reply
  rcases Formula.runLine line next with ⟨_ | _, next'⟩ <;> rfl

/-- Without a point, a line is answered in the same way at any time. -/
theorem reply_eq {line : String} (hpoint : '.' ∉ line.toList) (next : Formula.ObjectId) :
    (reply line next).1 = answer line := by
  have hcode : (Formula.parse [] line next).1.map Object.code =
      (Formula.parse [] line Object.firstFreshId).1.map Object.code := by
    rw [Formula.parse_shift hpoint [] next, Formula.parse_shift hpoint [] Object.firstFreshId,
      Formula.map_code_shift, Formula.map_code_shift]
  unfold answer
  rw [fst_reply, Formula.runLine_eq, hcode]
  rcases (Formula.parse [] line Object.firstFreshId).1 with (⟨remaining⟩ | _) | value <;> rfl

/-- An answer is one line. -/
theorem ne_lineFeed_of_mem_answer {line : String} (h : ∀ ch ∈ line.toList, ch ≠ '\n') :
    ∀ ch ∈ (answer line).toList, ch ≠ '\n' := by
  unfold answer
  split
  case h_1 value _ => exact value.lineFeed_notMem_code
  case h_2 =>
    rw [String.toList_append, List.forall_mem_append]
    exact ⟨by simp [invalidMarker], h⟩
  case h_3 => simp

/-- Every line that is not blank is answered as if it were the first one. -/
theorem replies_eq {lines : List String} (hpoint : ∀ line ∈ lines, '.' ∉ line.toList)
    (next : Formula.ObjectId) :
    replies lines next =
      (lines.filter fun line => !(Text.trim line).isEmpty).map answer := by
  induction lines generalizing next with
  | nil => rfl
  | cons line lines ih =>
    obtain ⟨hline, hlines⟩ := List.forall_mem_cons.1 hpoint
    rw [replies]
    split
    case isTrue hblank => rw [List.filter_cons_of_neg (by simp [hblank]), ih hlines]
    case isFalse hblank =>
      have hreply := reply_eq hline next
      generalize reply line next = result at hreply ⊢
      obtain ⟨text, next'⟩ := result
      rw [List.filter_cons_of_pos (by simpa using hblank), List.map_cons, ← hreply]
      exact congrArg (_ :: ·) (ih hlines next')

/-- The lines of a text that are evaluated: those that are not blank, before the first one that
asks to quit. -/
def evaluated (text : String) : List String :=
  ((linesOf text).takeWhile fun line => !asksToQuit line).filter fun line =>
    !(Text.trim line).isEmpty

theorem mem_linesOf_of_mem_evaluated {text line : String} (h : line ∈ evaluated text) :
    line ∈ linesOf text :=
  List.takeWhile_sublist _ |>.subset (List.mem_of_mem_filter h)

theorem replies_evaluated {text : String} (hpoint : '.' ∉ text.toList)
    (next : Formula.ObjectId) :
    replies ((linesOf text).takeWhile fun line => !asksToQuit line) next =
      (evaluated text).map answer := by
  refine replies_eq (fun line hline hmem => ?_) next
  exact hpoint (of_mem_linesOf ((List.takeWhile_sublist _).subset hline) _ hmem).1

/-- Everything is printed if the output has room for it. -/
theorem run_of_replies {input : Bytes} {lines : List String} {answers : List String}
    (htyped : Typed.ofBytes input = ⟨lines, .ok ()⟩)
    (hreplies : replies lines Object.firstFreshId = answers) :
    run input (.empty none) =
      (.ok (), ⟨encode (String.join (answers.map (· ++ "\n"))), none⟩) := by
  have hprint := Output.printLines_of_room answers (o := .empty none) rfl
  rw [run, htyped]
  dsimp only
  rw [hreplies, hprint]
  simp only [Output.empty, List.nil_append]

/-- Each line of a text without a point that is evaluated is answered on a line of its own, as if
it were the first one. Whatever is typed behind a line that asks to quit makes no difference. -/
theorem run_encode (text : String) :
    ('.' ∉ text.toList →
      run (encode text) (.empty none) = (.ok (),
        ⟨encode (String.join ((evaluated text).map fun line => answer line ++ "\n")), none⟩) ∧
      (run (encode text) (.empty none)).2.written.count lineFeed = (evaluated text).length) ∧
    (text.toList.getLast? = some '\n' → (linesOf text).any asksToQuit = true →
      ∀ rest output, run (encode text ++ rest) output = run (encode text) output) := by
  refine ⟨fun hpoint => ?_, fun hlast hquit rest output => ?_⟩
  · have hrun := run_of_replies (Typed.ofBytes_encode text)
      (replies_evaluated hpoint Object.firstFreshId)
    have hanswers : ∀ reply ∈ (evaluated text).map answer, ∀ ch ∈ reply.toList, ch ≠ '\n' := by
      refine List.forall_mem_map.2 fun line hline => ne_lineFeed_of_mem_answer fun ch hch => ?_
      exact (of_mem_linesOf (mem_linesOf_of_mem_evaluated hline) ch hch).2
    rw [hrun]
    refine ⟨?_, ?_⟩
    · rw [List.map_map]
      rfl
    · rw [count_lineFeed_join hanswers, List.length_map]
  · have hfeed : (encode text).getLast? = some lineFeed := by
      obtain ⟨chars, hchars⟩ := List.getLast?_eq_some_iff.1 hlast
      rw [encode, hchars, List.flatMap_append]
      exact List.getLast?_concat
    have htyped : Typed.ofBytes (encode text ++ rest) = Typed.ofBytes (encode text) := by
      rw [Typed.ofBytes, splitLines_append hfeed, splitLines_encode, Typed.ofLines_append hquit,
        Typed.ofBytes, splitLines_encode]
    rw [run, htyped, run]

/-- A sum, a blank line, a division by zero and the end; what comes behind is not even a text. -/
theorem run_encode_sum :
    '.' ∉ "1+2\r\n \n4/0\n /exit\n".toList ∧
      run (encode "1+2\r\n \n4/0\n /exit\n" ++ [0xff, 0x2e]) (.empty none) =
        (.ok (), ⟨encode "3\nerror: division by zero\n", none⟩) := by
  have hpoint : '.' ∉ "1+2\r\n \n4/0\n /exit\n".toList := by decide
  have hevaluated : evaluated "1+2\r\n \n4/0\n /exit\n" = ["1+2", "4/0"] := by decide +kernel
  have hprinted : String.join (["1+2", "4/0"].map fun line => answer line ++ "\n") =
      "3\nerror: division by zero\n" := by decide +kernel
  obtain ⟨hprints, hquits⟩ := run_encode "1+2\r\n \n4/0\n /exit\n"
  refine ⟨hpoint, ?_⟩
  rw [hquits (by decide) (by decide +kernel) [0xff, 0x2e] (.empty none), (hprints hpoint).1,
    hevaluated, hprinted]

end Calculator

end Parley.Console
