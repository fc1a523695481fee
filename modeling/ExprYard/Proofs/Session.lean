import ExprYard.Command.Session
import ExprYard.Proofs.Beforehand
import ExprYard.Proofs.Pipeline.Agreement
import ExprYard.Proofs.Source.Counting

/-!
# What the flags of a session leave as it is

The flags say how an expression is worked on. Where its tokens are printed it is taken apart first,
and the parser is asked only if that goes well; in a pipeline the lexer's problem stands for the
parser's by another rule than in line. Whether the expression has trees does not depend on that: it
has them where the parser that draws on the lexer comes to trees. That is so in line (`isOk_parse`)
and in a pipeline (`Pipeline.parse_eq`), and an expression that cannot be taken apart has none
(`isOk_of_tokenize_error`).

**The law** (`session_verdict`): a session is what its expressions come to one by one, up to the
first whose problem cannot be shown. What is reported of one expression is said once
(`Options.reported`), and sessions are strung together from reports by induction on the expressions
before that one (`Options.batch_append`).

**What it does not establish.** Which problem is shown may depend on the flags: where the tokens are
printed a lexical problem comes before one that the parser would have met earlier (`Shows`). So a
flag can make the difference between a problem that is shown and one whose caret stands too far into
its line. The latter is a crash, and nothing is printed for the expressions behind it
(`crash_leaves_rest`).
-/

namespace ExprYard

variable {source : List Char} {file : String}

/-! ## One verdict -/

/-- A problem of the lexer takes the place of the parser's, but never the place of trees. -/
theorem isOk_parse (source : List Char) (file : String) :
    (parse source file).isOk = (parseLexer (Lexer.ofRunes source file)).1.2.isOk := by
  unfold parse
  generalize parseLexer (Lexer.ofRunes source file) = parsed
  obtain ⟨⟨parser, result⟩, l⟩ := parsed
  dsimp only
  cases result with
  | ok trees => rfl
  | error d => cases l.error <;> rfl

theorem isOk_of_tokenize_error {e : Diagnostic} (h : tokenize source file = .error e) :
    (parseLexer (Lexer.ofRunes source file)).1.2.isOk = false := by
  rcases Lexer.tokenize_cases source file with ⟨-, hok⟩ | ⟨e', herror, -⟩
  · rw [hok] at h
    cases h
  · obtain ⟨d, hparsed, -⟩ := refusal_of_error herror
    rw [hparsed]
    rfl

/-- In a pipeline a source comes to what it comes to in line. -/
theorem Pipeline.parse_eq (source : List Char) (file : String) :
    Pipeline.parse source file = ExprYard.parse source file := by
  obtain ⟨reaches, -⟩ := Network.reaches_run Intake.sink (Network.start source file Intake.start)
  exact Network.conclude_of_over reaches (Network.isOver_run _ _)

/-! ## Problems that can be shown -/

namespace Diagnostic

variable (d : Diagnostic) (source : List Char)

theorem shown_cases : d.shown source = some (d.render source) ∨ d.shown source = none := by
  unfold shown
  split
  · exact .inl rfl
  · split
    · exact .inl rfl
    · exact .inr rfl

/-- No line of a short source is too long for the arrow under it. -/
theorem shown_of_lt (h : source.length < widest) : d.shown source = some (d.render source) := by
  unfold shown
  cases hline : lineAt source d.position.offset with
  | none => rfl
  | some line =>
    have hcolumn := (holds_of_lineAt hline).column_le
    obtain ⟨before, after, hsource, -, hnumber, -⟩ := holds_of_lineAt hline
    have hlength := congrArg List.length hsource
    rw [List.length_append, List.length_append] at hlength
    have hcount : before.count '\n' ≤ before.length := List.count_le_length
    have hwidest : widest = 65535 := rfl
    refine if_pos ⟨?_, ?_⟩
    · have hdigits : (toString line.number).length ≤ 5 :=
        (Nat.length_repr_le_iff (by decide)).mpr (by omega)
      rw [String.length_toList]
      omega
    · unfold arrow
      rw [List.length_append, List.length_replicate, List.length_singleton]
      omega

end Diagnostic

namespace Command

/-- Whether the parser that draws on the lexer of an expression comes to trees. -/
def parses (text : String) : Bool :=
  (parseLexer (Lexer.ofRunes text.toList defaultFile)).1.2.isOk

/-- The problem that is to be shown for an expression. Where its tokens are asked for, they may have
one. -/
inductive Shows (tokens : Bool) (text : String) (d : Diagnostic) : Prop where
  | untold (asked : tokens = true) (failed : tokenize text.toList defaultFile = .error d)
  | unparsed (told : tokens = true → ∃ ts, tokenize text.toList defaultFile = .ok ts)
      (failed : parse text.toList defaultFile = .error d)

/-- The problem of an expression cannot be shown. -/
def Crashes (tokens : Bool) (text : String) : Prop :=
  ∃ d, Shows tokens text d ∧ d.narrow.shown text.toList = none

/-- What is shown in the end for an expression that has trees, or for one that has none. -/
inductive Verdict (text : String) : Bool → String → Prop where
  | trees {trees : List Tree} (parsed : parse text.toList defaultFile = .ok trees) :
      Verdict text true (text ++ " -> " ++ " ".intercalate (trees.map Tree.text) ++ "\n")
  | problem {d : Diagnostic} (failed : parse text.toList defaultFile = .error d) :
      Verdict text false (d.narrow.render text.toList)
  | lexical {d : Diagnostic} (failed : tokenize text.toList defaultFile = .error d) :
      Verdict text false (d.narrow.render text.toList)

/-- The output on an expression ends with the verdict on it. -/
def EndsWithVerdict (text output : String) : Prop :=
  ∃ lead shown, output = lead ++ shown ∧ Verdict text (parses text) shown

/-! ## Problems that are shown -/

section

variable {tokens : Bool} {text : String} {d e : Diagnostic}

theorem isOk_parse_text (text : String) :
    (parse text.toList defaultFile).isOk = parses text :=
  isOk_parse _ _

theorem Shows.unique (h : Shows tokens text d) (g : Shows tokens text e) : d = e := by
  cases h with
  | untold asked failed =>
    cases g with
    | untold _ failed' =>
      rw [failed] at failed'
      exact Except.error.inj failed'
    | unparsed told _ =>
      obtain ⟨ts, hts⟩ := told asked
      rw [failed] at hts
      cases hts
  | unparsed told failed =>
    cases g with
    | untold asked failed' =>
      obtain ⟨ts, hts⟩ := told asked
      rw [failed'] at hts
      cases hts
    | unparsed _ failed' =>
      rw [failed] at failed'
      exact Except.error.inj failed'

/-- An expression with a problem to show has no trees. -/
theorem Shows.parses_eq (h : Shows tokens text d) : parses text = false := by
  cases h with
  | untold _ failed => exact isOk_of_tokenize_error failed
  | unparsed _ failed =>
    rw [← isOk_parse_text, failed]
    rfl

theorem Shows.verdict (h : Shows tokens text d) :
    Verdict text (parses text) (d.narrow.render text.toList) := by
  rw [h.parses_eq]
  cases h with
  | untold _ failed => exact .lexical failed
  | unparsed _ failed => exact .problem failed

theorem Crashes.parses_eq (h : Crashes tokens text) : parses text = false := by
  obtain ⟨d, shows, -⟩ := h
  exact shows.parses_eq

end

/-! ## Reports -/

/-- What may be reported of an expression. -/
inductive Reported (tokens : Bool) (text : String) : Report → Prop where
  | parsed {lead : String} {trees : List Tree}
      (parsed : parse text.toList defaultFile = .ok trees) :
      Reported tokens text
        ⟨lead ++ (text ++ " -> " ++ " ".intercalate (trees.map Tree.text) ++ "\n"), .parsed⟩
  | refused {lead : String} {d : Diagnostic} (shows : Shows tokens text d)
      (shown : d.narrow.shown text.toList = some (d.narrow.render text.toList)) :
      Reported tokens text ⟨lead ++ d.narrow.render text.toList, .refused⟩
  | crashed {lead : String} {d : Diagnostic} (shows : Shows tokens text d)
      (shown : d.narrow.shown text.toList = none) :
      Reported tokens text ⟨lead, .crashed⟩

namespace Reported

variable {tokens : Bool} {text : String} {r : Report}

/-- A problem that is to be shown is reported. -/
theorem refusal {d : Diagnostic} (h : Shows tokens text d) :
    Reported tokens text (refusal text d) := by
  unfold Command.refusal
  rcases d.narrow.shown_cases text.toList with hshown | hshown
  · rw [hshown]
    have hreported := @Reported.refused _ _ "" _ h hshown
    rw [String.empty_append] at hreported
    exact hreported
  · rw [hshown]
    exact .crashed h hshown

/-- Something may be printed before. -/
theorem behind (h : Reported tokens text r) (lead : String) :
    Reported tokens text { r with output := lead ++ r.output } := by
  cases h with
  | parsed hparsed =>
    dsimp only
    rw [← String.append_assoc]
    exact .parsed hparsed
  | refused shows shown =>
    dsimp only
    rw [← String.append_assoc]
    exact .refused shows shown
  | crashed shows shown => exact .crashed shows shown

theorem crashed_iff (h : Reported tokens text r) : r.ending = .crashed ↔ Crashes tokens text := by
  cases h with
  | parsed hparsed =>
    refine ⟨nofun, fun crashes => ?_⟩
    have hfails := crashes.parses_eq
    rw [← isOk_parse_text, hparsed] at hfails
    cases hfails
  | refused shows shown =>
    refine ⟨nofun, ?_⟩
    rintro ⟨e, shows', hnone⟩
    rw [← shows.unique shows', shown] at hnone
    cases hnone
  | crashed shows shown => exact ⟨fun _ => ⟨_, shows, shown⟩, fun _ => rfl⟩

/-- A report that is no crash tells whether the expression has trees, and ends with the verdict on
it. -/
theorem of_not_crashes (h : Reported tokens text r) (fits : ¬ Crashes tokens text) :
    r.ending = (if parses text then .parsed else .refused) ∧ EndsWithVerdict text r.output := by
  cases h with
  | @parsed lead trees hparsed =>
    have hparses : parses text = true := by
      rw [← isOk_parse_text, hparsed]
      rfl
    unfold EndsWithVerdict
    rw [hparses]
    exact ⟨rfl, lead, _, rfl, .trees hparsed⟩
  | @refused lead d shows shown =>
    refine ⟨?_, lead, _, rfl, shows.verdict⟩
    rw [shows.parses_eq]
    rfl
  | crashed shows shown => exact (fits ⟨_, shows, shown⟩).elim

end Reported

namespace Options

variable (o : Options) (times : Timings) (text : String)

theorem parse_eq : o.parse text = ExprYard.parse text.toList defaultFile := by
  unfold Options.parse
  split
  · exact Pipeline.parse_eq _ _
  · rfl

theorem reported_parseReport
    (told : o.tokens = true → ∃ ts, tokenize text.toList defaultFile = .ok ts) :
    Reported o.tokens text (o.parseReport times text) := by
  have hreported : Reported o.tokens text (conclusion text (o.parse text)) := by
    rw [parse_eq]
    cases hp : ExprYard.parse text.toList defaultFile with
    | ok trees =>
      have hparsed := @Reported.parsed o.tokens _ "" _ hp
      rw [String.empty_append] at hparsed
      exact hparsed
    | error d => exact .refusal (.unparsed told hp)
  exact hreported.behind _

/-- What is reported of an expression: its trees, or the problem that is to be shown for it, or
that cannot be. -/
theorem reported : Reported o.tokens text (o.report times text) := by
  unfold report
  split
  · rename_i asked
    split
    · rename_i d hd
      exact .refusal (.untold asked hd)
    · rename_i ts hts
      exact (o.reported_parseReport times text fun _ => ⟨ts, hts⟩).behind _
  · rename_i hasked
    exact o.reported_parseReport times text fun asked => (hasked asked).elim

/-- Where nothing is said of durations, a report does not tell whether there was a pipeline. -/
theorem report_threaded (tokens threaded : Bool) (times times' : Timings) (text : String) :
    report ⟨tokens, false, threaded⟩ times text = report ⟨tokens, false, false⟩ times' text := by
  have hparse : parseReport ⟨tokens, false, threaded⟩ times text
      = parseReport ⟨tokens, false, false⟩ times' text := by
    unfold parseReport
    rw [parse_eq, parse_eq]
    rfl
  unfold report
  rw [hparse]
  rfl

/-! ## Sessions -/

variable {texts before : List String} (failed : Bool) (rest : List String)

/-- A session goes on behind expressions that were no crashes: it has printed what there was to
print for them, and it remembers whether one of them has no trees. -/
theorem batch_append (fits : ∀ t ∈ before, ¬ Crashes o.tokens t) :
    o.batch times failed (before ++ rest) =
      (o.batch times (failed || !before.all parses) rest).behind
        (String.join (before.map fun t => (o.report times t).output)) := by
  induction before generalizing failed with
  | nil =>
    rw [List.nil_append, List.all_nil, Bool.not_true, Bool.or_false]
    exact (Transcript.behind_empty _).symm
  | cons t before ih =>
    obtain ⟨ht, hbefore⟩ := List.forall_mem_cons.mp fits
    obtain ⟨hending, -⟩ := (o.reported times t).of_not_crashes ht
    rw [List.cons_append, batch, hending, List.all_cons, List.map_cons, String.join_cons,
      ← Transcript.behind_behind]
    cases parses t with
    | true =>
      rw [Bool.true_and, ← ih failed hbefore]
      rfl
    | false =>
      rw [Bool.false_and, Bool.not_false, Bool.or_true, ← Bool.true_or, ← ih true hbefore]
      rfl

/-- A session ends where there is a crash. -/
theorem batch_crash (crashes : Crashes o.tokens text) :
    o.batch times failed (text :: rest) = .crash (o.report times text).output := by
  rw [batch, (o.reported times text).crashed_iff.mpr crashes]

/-- A session without a crash. -/
theorem batch_of_fits (fits : ∀ t ∈ texts, ¬ Crashes o.tokens t) :
    o.batch times false texts = ⟨if texts.all parses then 0 else 1,
      String.join (texts.map fun t => (o.report times t).output), ""⟩ := by
  have hbatch := o.batch_append times false [] fits
  rw [List.append_nil, Bool.false_or] at hbatch
  rw [hbatch]
  show Transcript.mk _ (_ ++ "") "" = _
  rw [String.append_empty]
  cases texts.all parses <;> rfl

/-- What a session prints whose only expression this is. -/
theorem session_stdout_singleton (input : List UInt8) :
    (o.session times [text] input).stdout = (o.report times text).output := by
  show (o.batch times false [text]).stdout = _
  rw [batch]
  cases (o.report times text).ending with
  | crashed => rfl
  | parsed => exact String.append_empty
  | refused => exact String.append_empty

/-- Where nothing is said of durations, a session does not tell whether there was a pipeline. -/
theorem batch_threaded (tokens : Bool) (times times' : Timings) (failed : Bool)
    (texts : List String) :
    batch ⟨tokens, false, true⟩ times failed texts
      = batch ⟨tokens, false, false⟩ times' failed texts := by
  induction texts generalizing failed with
  | nil => rfl
  | cons t texts ih =>
    rw [batch, batch, report_threaded tokens true times times' t, ih failed, ih true]

end Options

/-- Whatever its flags, a session on given expressions prints for each of them what the session on
that expression alone would print, one after the other, and none is passed over behind one that has
no trees. It exits with 0 if each of them has trees, and with 1 if one does not; and what is printed
for an expression ends with the verdict on it. That is so where each problem can be shown, as it can
be for every expression that is short enough. Where one cannot, the expression has no trees, and the
session crashes when it comes to the first such: what it printed up to there is as before, and for
the expressions behind nothing is printed. Where nothing is said of durations, a pipeline leaves
behind what is left behind in line, whether tokens are printed or not. -/
theorem session_verdict (text : String) (texts : List String) (input : List UInt8) :
    (∀ (o : Options) (times : Timings),
      ((∀ t ∈ text :: texts, ¬ Crashes o.tokens t) →
        o.session times (text :: texts) input
          = ⟨if (text :: texts).all parses then 0 else 1,
            String.join ((text :: texts).map fun t => (o.session times [t] input).stdout), ""⟩) ∧
      (∀ before t after, text :: texts = before ++ t :: after →
        (∀ u ∈ before, ¬ Crashes o.tokens u) → Crashes o.tokens t →
        o.session times (text :: texts) input
          = .crash (String.join (before.map fun u => (o.session times [u] input).stdout)
            ++ (o.session times [t] input).stdout)) ∧
      ∀ t, ¬ Crashes o.tokens t → EndsWithVerdict t (o.session times [t] input).stdout) ∧
    (∀ tokens t, t.toList.length < Diagnostic.widest → ¬ Crashes tokens t) ∧
    (∀ tokens t, Crashes tokens t → parses t = false) ∧
    ∀ (tokens : Bool) (times times' : Timings),
      Options.session ⟨tokens, false, true⟩ times (text :: texts) input
        = Options.session ⟨tokens, false, false⟩ times' (text :: texts) input := by
  refine ⟨fun o times => ⟨?_, ?_, ?_⟩, ?_, ?_, ?_⟩
  · intro fits
    simp only [o.session_stdout_singleton]
    exact o.batch_of_fits times fits
  · intro before t after hsplit fits crashes
    simp only [o.session_stdout_singleton]
    show o.batch times false (text :: texts) = _
    rw [hsplit, o.batch_append times false _ fits, o.batch_crash times t _ _ crashes]
    rfl
  · intro t fits
    rw [o.session_stdout_singleton]
    exact ((o.reported times t).of_not_crashes fits).2
  · rintro tokens t short ⟨d, -, hnone⟩
    rw [d.narrow.shown_of_lt t.toList short] at hnone
    cases hnone
  · exact fun _ _ crashes => crashes.parses_eq
  · exact fun tokens times times' => Options.batch_threaded tokens times times' false _

section

variable {n : Nat}

/-- The arrow under a rune behind so many tabs would be too long. -/
theorem unfit_behind_tabs (hn : n = UInt16.size) :
    ¬ Diagnostic.Fits ⟨1, List.replicate n '\t' ++ ['#'], n⟩ := by
  rintro ⟨-, harrow⟩
  have hindent : Diagnostic.indentOf (List.replicate n '\t' ++ ['#']) = 0 := by
    cases n <;> rfl
  unfold Diagnostic.arrow at harrow
  dsimp only at harrow
  rw [hindent, List.length_append, List.length_replicate, List.length_singleton, hn] at harrow
  exact absurd harrow (by decide)

theorem report_behind_tabs (hn : n = UInt16.size) (times : Timings) :
    Options.report ⟨true, false, false⟩ times (String.ofList (List.replicate n '\t' ++ ['#']))
      = ⟨"", .crashed⟩ := by
  have hblank : Rune.isBlank '\t' = true := rfl
  have hproblem : tokenize ['#'] defaultFile
      = .error ⟨.unexpectedRune '#' "an expression", ⟨0, defaultFile⟩⟩ := by
    decide +kernel
  have hfound : tokenize (List.replicate n '\t' ++ ['#']) defaultFile
      = .error ⟨.unexpectedRune '#' "an expression", ⟨0 + n, defaultFile⟩⟩ :=
    Lexer.tokenize_indented hblank n _ _ hproblem
  have hkept : Offset.wrap (0 + n) = n := by
    rw [Nat.zero_add, hn]
    decide
  have hline : lineAt (List.replicate n '\t' ++ ['#']) n
      = some ⟨1, List.replicate n '\t' ++ ['#'], n⟩ :=
    lineAt_of_not_mem (by simp [List.mem_replicate]) (by simp)
  have hunshown : Diagnostic.shown
      ⟨.unexpectedRune '#' "an expression", ⟨Offset.wrap (0 + n), defaultFile⟩⟩
      (List.replicate n '\t' ++ ['#']) = none := by
    unfold Diagnostic.shown
    dsimp only
    rw [hkept, hline]
    exact if_neg (unfit_behind_tabs hn)
  unfold Options.report
  rw [if_pos rfl, String.toList_ofList, hfound]
  dsimp only
  unfold refusal
  rw [String.toList_ofList]
  unfold Diagnostic.narrow Position.narrow
  dsimp only
  rw [hunshown]

end

/-- The problem of the first expression is too far into its line. The second one has a tree, and
nothing is printed for it. -/
theorem crash_leaves_rest :
    Options.session ⟨true, false, false⟩ ⟨"", ""⟩
        [String.ofList (List.replicate UInt16.size '\t' ++ ['#']), "2"] []
      = ⟨101, "", Transcript.unfit⟩ ∧ parses "2" = true := by
  -- Nothing may look into the tabs, so their number is made a variable.
  obtain ⟨n, hn⟩ : ∃ n, n = UInt16.size := ⟨UInt16.size, rfl⟩
  have hreport := report_behind_tabs hn ⟨"", ""⟩
  rw [← hn]
  refine ⟨?_, by decide +kernel⟩
  generalize String.ofList (List.replicate n '\t' ++ ['#']) = text at hreport ⊢
  show Options.batch _ _ false [text, "2"] = _
  rw [Options.batch, hreport]
  rfl

end Command

end ExprYard
