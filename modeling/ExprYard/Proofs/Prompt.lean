import ExprYard.Proofs.Session
import ExprYard.Proofs.Source.Carets

/-!
# A session at the prompt

What is typed at the prompt is cut into lines, and each line is worked on as if it were the only
expression of a session of its own: nothing that became of one line shows in what is printed for
another. `Answered` says what that is for one line, by its blanks alone, and `prompt_answers` says of
the whole session that it asks for a line, answers it, and so on, up to the end of the input or to
the first line that is not valid UTF-8. A line whose problem cannot be shown ends it as well, and
that is a crash (`crash_ends_prompt`).

Bytes are valid UTF-8 where they are the bytes of some text, and then of one text only
(`Prompt.decode_eq_some_iff`); lines are cut behind each newline and nowhere else (`Text.Cut`). The
law is by induction on the lines, since a session on some lines is an answer to the first of them and
a session on the others.
-/

namespace ExprYard.Command

namespace Prompt

/-! ## Bytes -/

/-- The bytes of a text. -/
def encode (text : List Char) : List UInt8 :=
  text.flatMap String.utf8EncodeChar

theorem data_toByteArray (text : String) :
    text.toByteArray.data.toList = encode text.toList := by
  rw [← String.utf8Encode_toList, List.utf8Encode, List.data_toByteArray, List.toList_toArray]
  rfl

/-- A line is decoded as the text whose bytes it has. -/
theorem decode_eq_some_iff {line : List UInt8} {text : String} :
    decode line = some text ↔ encode text.toList = line := by
  rw [← data_toByteArray]
  unfold decode String.fromUTF8?
  constructor
  · intro h
    split at h
    · cases h
      rfl
    · cases h
  · rintro rfl
    rw [Array.toArray_toList]
    exact dif_pos text.isValidUTF8

theorem decode_eq_none_iff {line : List UInt8} :
    decode line = none ↔ ∀ text, encode text ≠ line := by
  constructor
  · intro h text htext
    have hsome : decode line = some (String.ofList text) := by
      rw [decode_eq_some_iff, String.toList_ofList]
      exact htext
    rw [h] at hsome
    cases hsome
  · intro h
    cases hd : decode line with
    | none => rfl
    | some text => exact (h _ (decode_eq_some_iff.mp hd)).elim

/-! ## One line -/

/-- The expression on a line is the line up to its last rune that is no blank. -/
structure HasExpression (line text : List Char) : Prop where
  shown : ∃ r, text.getLast? = some r ∧ Rune.isBlank r = false
  split : ∃ gap, line = text ++ gap ∧ ∀ r ∈ gap, Rune.isBlank r = true

theorem expression_cases (line : String) :
    (expression line = none ∧ ∀ r ∈ line.toList, Rune.isBlank r = true) ∨
      ∃ text, expression line = some (String.ofList text) ∧ HasExpression line.toList text := by
  obtain ⟨gap, hline, hgap⟩ := Text.exists_trimEnd line.toList
  unfold expression
  cases htext : Text.trimEnd line.toList with
  | nil =>
    refine .inl ⟨rfl, ?_⟩
    rw [hline, htext]
    exact hgap
  | cons a rest =>
    have hne : Text.trimEnd line.toList ≠ [] := by
      rw [htext]
      exact List.cons_ne_nil _ _
    have hshown : ¬ Rune.isBlank ((Text.trimEnd line.toList).getLast hne) = true :=
      List.rdropWhile_last_not Rune.isBlank line.toList hne
    refine .inr ⟨a :: rest, rfl, ⟨_, ?_, Bool.eq_false_iff.mpr hshown⟩, gap, ?_, hgap⟩
    · rw [← htext]
      exact List.getLast?_eq_getLast_of_ne_nil hne
    · rw [← htext]
      exact hline

variable (o : Options) (times : Timings)

/-- What is printed for a line: nothing where all of it is blank, and otherwise what a session
prints whose only expression is the one on the line. -/
inductive Answered (line : List Char) : String → Prop where
  | blank (h : ∀ r ∈ line, Rune.isBlank r = true) : Answered line ""
  | expression {text : List Char} (h : HasExpression line text)
      (fits : ¬ Crashes o.tokens (String.ofList text)) :
      Answered line (o.session times [String.ofList text] []).stdout

/-- The problem of the expression on a line cannot be shown; what is printed before that. -/
inductive Breaks (line : List Char) : String → Prop where
  | expression {text : List Char} (h : HasExpression line text)
      (crashes : Crashes o.tokens (String.ofList text)) :
      Breaks line (o.session times [String.ofList text] []).stdout

/-- A line is answered, or it is a crash. -/
theorem answer_cases (line : String) :
    ((answer o times line).ending ≠ .crashed ∧
      Answered o times line.toList (answer o times line).output) ∨
    (answer o times line).ending = .crashed ∧
      Breaks o times line.toList (answer o times line).output := by
  unfold answer
  rcases expression_cases line with ⟨hnone, hblank⟩ | ⟨text, hsome, h⟩
  · rw [hnone]
    exact .inl ⟨nofun, .blank hblank⟩
  · rw [hsome]
    dsimp only
    have hcrashed := (o.reported times (String.ofList text)).crashed_iff
    rw [← o.session_stdout_singleton times (String.ofList text) []]
    by_cases crashes : Crashes o.tokens (String.ofList text)
    · exact .inr ⟨hcrashed.mpr crashes, .expression h crashes⟩
    · exact .inl ⟨mt hcrashed.mp crashes, .expression h crashes⟩

/-! ## All lines -/

/-- What a session comes to that has printed `before` when it comes to the given lines: these are
none, or the first of them is not valid UTF-8, or it is a crash. -/
inductive Ends (before : String) : List (List UInt8) → Transcript → Prop where
  | finished : Ends before [] ⟨0, before ++ (sign ++ "\n"), ""⟩
  | invalid {bad : List UInt8} {later : List (List UInt8)} (h : ∀ text, encode text ≠ bad) :
      Ends before (bad :: later) ⟨1, before ++ sign, invalidInput⟩
  | crash {line : List Char} {output : String} {later : List (List UInt8)}
      (breaks : Breaks o times line output) :
      Ends before (encode line :: later) (.crash (before ++ (sign ++ output)))

variable {o times}

theorem Ends.behind {before : String} {rest : List (List UInt8)} {t : Transcript}
    (h : Ends o times before rest t) (lead : String) :
    Ends o times (lead ++ before) rest (t.behind lead) := by
  cases h with
  | finished =>
    unfold Transcript.behind
    dsimp only
    rw [← String.append_assoc]
    exact .finished
  | invalid h =>
    unfold Transcript.behind
    dsimp only
    rw [← String.append_assoc]
    exact .invalid h
  | crash breaks =>
    unfold Transcript.behind Transcript.crash
    dsimp only
    rw [← String.append_assoc]
    exact .crash breaks

variable (o times)

/-- The lines that are answered, what is printed for each, and the lines that are not. -/
theorem session_lines (lines : List (List UInt8)) :
    ∃ (texts : List (List Char)) (answers : List String) (rest : List (List UInt8)),
      lines = texts.map encode ++ rest ∧ List.Forall₂ (Answered o times) texts answers ∧
      Ends o times (String.join (answers.map (sign ++ ·))) rest (session o times lines) := by
  induction lines with
  | nil => exact ⟨[], [], [], rfl, .nil, .finished⟩
  | cons line lines ih =>
    rw [session]
    cases hd : decode line with
    | none => exact ⟨[], [], line :: lines, rfl, .nil, .invalid (decode_eq_none_iff.mp hd)⟩
    | some text =>
      rw [← decode_eq_some_iff.mp hd]
      dsimp only
      rcases answer_cases o times text with ⟨hending, answered⟩ | ⟨hending, breaks⟩
      · obtain ⟨texts, answers, rest, hlines, hanswers, ends⟩ := ih
        refine ⟨text.toList :: texts, _ :: answers, rest, ?_, .cons answered hanswers, ?_⟩
        · rw [hlines]
          rfl
        · rw [List.map_cons, String.join_cons]
          split
          · exact (hending ‹_›).elim
          · exact ends.behind _
      · rw [hending]
        exact ⟨[], [], _, rfl, .nil, .crash breaks⟩

end Prompt

open Prompt in
/-- Whatever bytes are typed at the prompt and whatever the flags, they are cut into lines behind
each newline. For each line that is answered the session prints its sign and then nothing, where the
line is blank, or just what a session prints whose only expression is the line without the blanks at
its end. The lines that are not answered are the first that is not valid UTF-8 or whose problem
cannot be shown, and all those behind it; what these are makes no difference. If all lines are
answered the session prints its sign once more and a newline and exits with 0, however many of the
lines had problems. If the first that is not is invalid the session prints its sign once more and
exits with 1, and otherwise it crashes. -/
theorem prompt_answers (o : Options) (times : Timings) (input : List UInt8) :
    ∃ (texts : List (List Char)) (answers : List String) (rest : List (List UInt8)),
      (texts.map encode ++ rest).flatten = input ∧ Text.Cut 0x0A (texts.map encode ++ rest) ∧
      List.Forall₂ (Answered o times) texts answers ∧
      Ends o times (String.join (answers.map (sign ++ ·))) rest (o.session times [] input) := by
  obtain ⟨texts, answers, rest, hlines, hanswers, ends⟩ := session_lines o times (lines input)
  refine ⟨texts, answers, rest, ?_, ?_, hanswers, ends⟩
  · rw [← hlines]
    exact Text.flatten_splitAfter 0x0A input
  · rw [← hlines]
    exact Text.cut_splitAfter 0x0A input

/-- A line with a blank at its end, a blank line, a line that is not valid, and one behind that. -/
example : Options.session ⟨false, false, false⟩ ⟨"", ""⟩ []
      [0x31, 0x20, 0x0A, 0x20, 0x0A, 0xFF, 0x0A, 0x32]
    = ⟨1, ">> 1 -> 1\n>> >> ", Prompt.invalidInput⟩ := by
  decide +kernel

/-- The problem of the first line is too far into it. The second line is not answered. -/
theorem crash_ends_prompt :
    Options.session ⟨true, false, false⟩ ⟨"", ""⟩ []
        (List.replicate UInt16.size 0x09 ++ [0x23, 0x0A, 0x32, 0x0A])
      = ⟨101, ">> ", Transcript.unfit⟩ := by
  -- Nothing may look into the tabs, so their number is made a variable.
  obtain ⟨n, hn⟩ : ∃ n, n = UInt16.size := ⟨UInt16.size, rfl⟩
  have hreport := report_behind_tabs hn ⟨"", ""⟩
  rw [← hn]
  have hmark : (0x0A : UInt8) ∉ List.replicate n 0x09 ++ [0x23] := by
    simp [List.mem_replicate]
  have hlines : Prompt.lines (List.replicate n 0x09 ++ [0x23, 0x0A, 0x32, 0x0A])
      = (List.replicate n 0x09 ++ [0x23] ++ [0x0A]) :: Prompt.lines [0x32, 0x0A] := by
    have hsplit := Text.splitAfter_append_mark hmark [0x32, 0x0A]
    rw [List.append_assoc (List.replicate n 0x09 ++ [0x23]), List.append_assoc] at hsplit
    exact hsplit
  have hdecode : Prompt.decode (List.replicate n 0x09 ++ [0x23] ++ [0x0A])
      = some (String.ofList (List.replicate n '\t' ++ ['#'] ++ ['\n'])) := by
    rw [Prompt.decode_eq_some_iff, String.toList_ofList]
    unfold Prompt.encode
    rw [List.flatMap_append, List.flatMap_append, List.flatMap_replicate]
    have htab : String.utf8EncodeChar '\t' = [0x09] := by decide
    rw [htab, List.flatten_replicate_singleton]
    rfl
  have hexpression : Prompt.expression (String.ofList (List.replicate n '\t' ++ ['#'] ++ ['\n']))
      = some (String.ofList (List.replicate n '\t' ++ ['#'])) := by
    have htrim : Text.trimEnd (List.replicate n '\t' ++ ['#'] ++ ['\n'])
        = List.replicate n '\t' ++ ['#'] := by
      unfold Text.trimEnd
      rw [List.reverse_append, List.reverse_append]
      show (['#'] ++ (List.replicate n '\t').reverse).reverse = _
      rw [List.reverse_append, List.reverse_reverse]
      rfl
    unfold Prompt.expression
    rw [String.toList_ofList, htrim]
    cases n <;> rfl
  show Prompt.session _ _ (Prompt.lines _) = _
  rw [hlines, Prompt.session, hdecode]
  unfold Prompt.answer
  dsimp only
  rw [hexpression]
  dsimp only
  rw [hreport]
  rfl

end ExprYard.Command
